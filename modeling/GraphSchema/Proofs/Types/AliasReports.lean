import GraphSchema.Proofs.Lookup
import GraphSchema.Proofs.Pointwise
import GraphSchema.Proofs.Types.AliasCycles
import GraphSchema.Proofs.Registry.Consistent
import Mathlib.Data.List.Cycle
import Mathlib.Data.List.Nodup
import Mathlib.Data.List.TakeWhile
import Mathlib.Data.String.Basic
import Mathlib.Order.Compare

/-!
# Reports of alias cycles

A cycle of aliases is a row of distinct aliases, each of which stands for the next one and the last
of which stands for the first (`TypeTable.IsAliasCycle`).  Wherever a cycle is entered, it is the
same row, turned; for an alias stands for one type only, so what follows an alias on one cycle
follows it on every other (`TypeTable.IsAliasCycle.eq_of_cons`).

The cycle that is formed from an alias whose chain comes back to it is one
(`TypeTable.Consistent.isAliasCycle_of_aliasCycle?`), and it is kept if the alias is the first
declared one of its members.  So the reports and the cycles correspond to each other, one to one:
`TypeTable.Consistent.aliasCyclesReported`.
-/

namespace GraphSchema

/-! ### Rows of steps with one successor each -/

section

variable {α : Type} {r : α → α → Prop}

/-- Of two rows of steps that begin alike the shorter one begins the longer one. -/
theorem isPrefix_of_isChain (single : ∀ a b c, r a b → r a c → b = c) {first : α}
    {row others : List α} (h : (first :: row).IsChain r) (hothers : (first :: others).IsChain r)
    (shorter : row.length ≤ others.length) : row <+: others := by
  induction row generalizing first others with
  | nil => exact List.nil_prefix
  | cons next row ih =>
    cases others with
    | nil => exact absurd shorter (Nat.not_succ_le_zero _)
    | cons other others =>
      obtain ⟨hnext, hrow⟩ := List.isChain_cons_cons.mp h
      obtain ⟨hother, hrest⟩ := List.isChain_cons_cons.mp hothers
      obtain rfl := single first next other hnext hother
      exact List.cons_prefix_cons.mpr ⟨rfl, ih hrow hrest (Nat.le_of_succ_le_succ shorter)⟩

/-- Two rows of steps from one place to the first visit of another one are the same. -/
theorem eq_of_isChain (single : ∀ a b c, r a b → r a c → b = c) (first last : α)
    {row others : List α} (h : (first :: (row ++ [last])).IsChain r)
    (hothers : (first :: (others ++ [last])).IsChain r) (hrow : last ∉ row) (hnew : last ∉ others) :
    row = others := by
  have hfirst {front back : List α} (hchain : (first :: (front ++ [last])).IsChain r)
      (hback : (first :: (back ++ [last])).IsChain r) (hshort : front.length ≤ back.length)
      (hlast : last ∉ back) : front = back := by
    have hfront := isPrefix_of_isChain single hchain hback (by simpa using hshort)
    rcases List.prefix_concat_iff.mp hfront with hsame | hbefore
    · exact List.append_cancel_right hsame
    · exact absurd (hbefore.subset (by simp)) hlast
  rcases Nat.le_total row.length others.length with hle | hle
  · exact hfirst h hothers hle hnew
  · exact (hfirst hothers h hle hrow).symm

/-- A row of steps to the first visit of a place visits no place twice. -/
theorem nodup_of_isChain (single : ∀ a b c, r a b → r a c → b = c) {row : List α} {last : α}
    (h : (row ++ [last]).IsChain r) (hlast : last ∉ row) : row.Nodup := by
  induction row with
  | nil => exact List.nodup_nil
  | cons first row ih =>
    refine List.nodup_cons.mpr ⟨?_, ih h.tail fun hmem => hlast (List.mem_cons_of_mem _ hmem)⟩
    intro hmem
    obtain ⟨before, after, rfl⟩ := List.append_of_mem hmem
    -- from its second visit on, the row would go on as from the first one, and end too early
    have hagain : (first :: (after ++ [last])).IsChain r := by
      have hsuffix : first :: (after ++ [last]) <:+ first :: (before ++ first :: after) ++ [last] :=
        ⟨first :: before, by simp⟩
      exact h.suffix hsuffix
    have hfront := isPrefix_of_isChain single hagain h (by simp; omega)
    have hshort : after ++ [last] <+: before ++ first :: after := by
      rcases List.prefix_concat_iff.mp hfront with hsame | hbefore
      · have hlength := congrArg List.length hsame
        simp only [List.length_append, List.length_cons, List.length_nil] at hlength
        omega
      · exact hbefore
    exact hlast (List.mem_cons_of_mem _ (hshort.subset (by simp)))

end

namespace TypeTable

open Relation

variable {table : TypeTable} {members others : List DeclaredType} {type : DeclaredType}

/-! ### Cycles -/

/-- An alias stands for another one. -/
structure StandsFor (table : TypeTable) (type other : DeclaredType) : Prop where
  source : type ∈ table.aliases
  target : other ∈ table.aliases
  aliased : type.aliased? = some other.id

/-- A row of distinct aliases, each of which stands for the next one, and the last for the first. -/
structure IsAliasCycle (table : TypeTable) (members : List DeclaredType) : Prop where
  nonempty : members ≠ []
  distinct : members.Nodup
  chain : Cycle.Chain table.StandsFor members

theorem Consistent.standsFor_unique (h : table.Consistent) (type next other : DeclaredType)
    (hnext : table.StandsFor type next) (hother : table.StandsFor type other) : next = other := by
  have hid : next.id = other.id := Option.some.inj (hnext.aliased.symm.trans hother.aliased)
  exact h.alias_ids hnext.target hother.target hid

theorem Consistent.aliasStep_of_standsFor (h : table.Consistent) {type other : DeclaredType}
    (hstands : table.StandsFor type other) : table.AliasStep type.id other.id :=
  (h.aliasStep_of_alias hstands.source).mpr hstands.aliased

theorem IsAliasCycle.aliases (h : table.IsAliasCycle members) (htype : type ∈ members) :
    type ∈ table.aliases := by
  obtain ⟨next, -, hstands⟩ := exists_next_of_chain h.chain htype
  exact hstands.source

/-- A cycle may be turned. -/
theorem IsAliasCycle.of_isRotated {members others : List DeclaredType}
    (h : table.IsAliasCycle members) (rotated : members ~r others) :
    table.IsAliasCycle others := by
  refine ⟨?_, rotated.nodup_iff.mp h.distinct, ?_⟩
  · intro hnil
    rw [hnil] at rotated
    exact h.nonempty (List.isRotated_nil_iff.mp rotated)
  · rw [← Cycle.coe_eq_coe.mpr rotated]
    exact h.chain

/-- A cycle may begin with any of its members. -/
theorem IsAliasCycle.exists_cons {members : List DeclaredType} (h : table.IsAliasCycle members)
    {type : DeclaredType} (htype : type ∈ members) :
    ∃ others, (type :: others) ~r members ∧ table.IsAliasCycle (type :: others) := by
  obtain ⟨before, after, rfl⟩ := List.append_of_mem htype
  have hrotated : before ++ type :: after ~r type :: after ++ before := List.isRotated_append
  exact ⟨after ++ before, hrotated.symm, h.of_isRotated hrotated⟩

/-- The members of a cycle are aliases, and each leads to each. -/
theorem IsAliasCycle.leads (h : table.IsAliasCycle members) (consistent : table.Consistent)
    {type other : DeclaredType} (htype : type ∈ members) (hother : other ∈ members) :
    other ∈ table.aliases ∧ TransGen table.AliasStep type.id other.id := by
  have hchain : Cycle.Chain (fun a b : DeclaredType => b ∈ table.aliases ∧
      TransGen table.AliasStep a.id b.id) members :=
    h.chain.imp fun _ _ hab => ⟨hab.target, .single (consistent.aliasStep_of_standsFor hab)⟩
  -- along a cycle, a transitive relation holds between any two
  have htrans : IsTrans DeclaredType
      fun a b => b ∈ table.aliases ∧ TransGen table.AliasStep a.id b.id :=
    ⟨fun _ _ _ hab hbc => ⟨hbc.1, hab.2.trans hbc.2⟩⟩
  exact Cycle.chain_iff_pairwise.mp hchain type htype other hother

/-- An alias lies on one cycle only. -/
theorem IsAliasCycle.eq_of_cons (h : table.IsAliasCycle (type :: members))
    (consistent : table.Consistent) (hother : table.IsAliasCycle (type :: others)) :
    members = others := by
  refine eq_of_isChain consistent.standsFor_unique type type ?_ ?_ ?_ ?_
  · exact (Cycle.chain_coe_cons _ _ _).mp h.chain
  · exact (Cycle.chain_coe_cons _ _ _).mp hother.chain
  · exact (List.nodup_cons.mp h.distinct).1
  · exact (List.nodup_cons.mp hother.distinct).1

/-- Cycles with a common member are the same, turned. -/
theorem IsAliasCycle.isRotated_of_mem (h : table.IsAliasCycle members)
    (consistent : table.Consistent) (hother : table.IsAliasCycle others) {type : DeclaredType}
    (hmem : type ∈ members) (hin : type ∈ others) : members ~r others := by
  obtain ⟨rest, hrotated, hcycle⟩ := h.exists_cons hmem
  obtain ⟨tail, hturned, hagain⟩ := hother.exists_cons hin
  rw [← hcycle.eq_of_cons consistent hagain] at hturned
  exact hrotated.symm.trans hturned

/-! ### The cycle of an alias -/

/-- Each alias of a chain stands for the next one. -/
theorem Consistent.isChain_aliasChain (h : table.Consistent) {type : DeclaredType}
    (htype : type ∈ table.aliases) (steps : Nat) :
    (type :: table.aliasChain steps type.aliased?).IsChain table.StandsFor := by
  induction steps generalizing type with
  | zero =>
    rw [aliasChain]
    exact List.isChain_singleton type
  | succ steps ih =>
    cases haliased : type.aliased? with
    | none =>
      rw [aliasChain]
      exact List.isChain_singleton type
    | some id =>
      rw [aliasChain]
      cases halias : table.alias? id with
      | none => exact List.isChain_singleton type
      | some next =>
        obtain ⟨hnext, rfl⟩ := h.alias?_eq_some_iff.mp halias
        exact List.isChain_cons_cons.mpr ⟨⟨htype, hnext, haliased⟩, ih hnext⟩

/-- What is found as the cycle of an alias is a cycle that begins with it. -/
theorem Consistent.isAliasCycle_of_aliasCycle? (h : table.Consistent) {steps : Nat}
    {type : DeclaredType} (htype : type ∈ table.aliases)
    (hcycle : table.aliasCycle? steps type = some members) :
    table.IsAliasCycle members ∧ members.head? = some type := by
  unfold aliasCycle? at hcycle
  dsimp only at hcycle
  split at hcycle
  case isFalse => cases hcycle
  case isTrue hany =>
    obtain rfl := Option.some.inj hcycle
    obtain ⟨before, last, after, hsplit, hlast, hbefore⟩ :=
      exists_first (List.any_eq_true.mp hany)
    have hwhile : (table.aliasChain steps type.aliased?).takeWhile
        (fun other => other.id != type.id) = before := hbefore
    have hchain := h.isChain_aliasChain htype steps
    have hmem : last ∈ table.aliasChain steps type.aliased? := by
      rw [hsplit]
      simp
    -- the alias that the chain comes back to is the first one
    have hsame : last = type :=
      h.alias_ids ((h.mem_chain_of_alias htype).mp hmem).1 htype (beq_iff_eq.mp hlast)
    rw [hsame] at hsplit
    have hnew : type ∉ before := by
      intro hbad
      rw [← hwhile] at hbad
      have hne := List.mem_takeWhile_imp hbad
      simp at hne
    rw [hsplit] at hchain
    have hloop : (type :: (before ++ [type])).IsChain table.StandsFor := by
      refine hchain.prefix ?_
      exact ⟨after, by simp⟩
    rw [hwhile]
    refine ⟨⟨List.cons_ne_nil _ _, ?_, (Cycle.chain_coe_cons _ _ _).mpr hloop⟩, rfl⟩
    have hdistinct : before.Nodup :=
      nodup_of_isChain h.standsFor_unique hloop.tail hnew
    exact List.nodup_cons.mpr ⟨hnew, hdistinct⟩

/-- The cycle of an alias that lies on a cycle is found. -/
theorem Consistent.aliasCycle?_of_isAliasCycle (h : table.Consistent)
    (cycle : table.IsAliasCycle (type :: others)) :
    table.aliasCycle? table.aliases.length type = some (type :: others) := by
  obtain ⟨htype, hback⟩ :=
    cycle.leads h (List.mem_cons_self ..) (List.mem_cons_self (a := type) (l := others))
  rcases h.aliasCycle?_spec htype with ⟨-, found, hfound, -⟩ | ⟨hacyclic, -⟩
  · obtain ⟨hcycle, -⟩ := h.isAliasCycle_of_aliasCycle? htype hfound
    rw [hfound, cycle.eq_of_cons h hcycle]
  · exact absurd hback hacyclic

/-- An alias reports its cycle if it is the first declared one of the members. -/
theorem aliasCycles_eq (table : TypeTable) :
    table.aliasCycles = table.aliases.filterMap fun type =>
      (table.aliasCycle? table.aliases.length type).filter (isFirstOf type) := by
  unfold aliasCycles
  dsimp only
  congr 1
  funext type
  cases table.aliasCycle? table.aliases.length type <;> rfl

/-- The cycles that are reported: each begins with the first declared of its members. -/
theorem Consistent.mem_aliasCycles (h : table.Consistent) :
    members ∈ table.aliasCycles ↔ table.IsAliasCycle members ∧
      ∃ type, members.head? = some type ∧ isFirstOf type members = true := by
  rw [aliasCycles_eq, List.mem_filterMap]
  constructor
  · rintro ⟨type, htype, hsome⟩
    obtain ⟨hfound, hfirst⟩ := Option.filter_eq_some_iff.mp hsome
    obtain ⟨hcycle, hhead⟩ := h.isAliasCycle_of_aliasCycle? htype hfound
    exact ⟨hcycle, type, hhead, hfirst⟩
  · rintro ⟨hcycle, type, hhead, hfirst⟩
    obtain ⟨others, rfl⟩ := List.head?_eq_some_iff.mp hhead
    refine ⟨type, hcycle.aliases List.mem_cons_self, ?_⟩
    rw [h.aliasCycle?_of_isAliasCycle hcycle]
    exact Option.filter_eq_some_iff.mpr ⟨rfl, hfirst⟩

/-- Every cycle is reported from some member. -/
theorem Consistent.exists_aliasCycles (h : table.Consistent)
    (cycle : table.IsAliasCycle members) : ∃ reported ∈ table.aliasCycles, reported ~r members := by
  -- the member that was declared first
  obtain ⟨type, htype, hleast⟩ : ∃ type ∈ members, ∀ other ∈ members,
      type.id.number ≤ other.id.number := by
    have hnonempty : {type | type ∈ members}.Nonempty := List.exists_mem_of_ne_nil _ cycle.nonempty
    obtain ⟨type, htype, hleast⟩ :=
      (measure fun type : DeclaredType => type.id.number).wf.has_min _ hnonempty
    exact ⟨type, htype, fun other hother => Nat.le_of_not_lt (hleast other hother)⟩
  obtain ⟨others, hrotated, hcycle⟩ := cycle.exists_cons htype
  refine ⟨type :: others, h.mem_aliasCycles.mpr ⟨hcycle, type, rfl, ?_⟩, hrotated⟩
  rw [isFirstOf, List.all_eq_true]
  intro other hother
  exact decide_eq_true (hleast other (hrotated.mem_iff.mp hother))

theorem Consistent.aliases_nodup (h : table.Consistent) : table.aliases.Nodup := by
  have htypes : table.assigned.Nodup := (List.nodup_append.mp h.ids.of_map).2.1
  refine List.Nodup.filter _ (htypes.filterMap ?_)
  intro type other found htype hother
  cases type <;> cases other <;> cases htype <;> cases hother
  rfl

/-- Two cycles that are reported have no alias in common. -/
theorem Consistent.aliasCycles_disjoint (h : table.Consistent) :
    table.aliasCycles.Pairwise List.Disjoint := by
  rw [aliasCycles_eq, List.pairwise_filterMap]
  refine List.Pairwise.imp_of_mem ?_ h.aliases_nodup
  intro type other htype hother hne members hsome others hagain member hmember hin
  obtain ⟨hfound, hfirst⟩ := Option.filter_eq_some_iff.mp hsome
  obtain ⟨hsecond, hleast⟩ := Option.filter_eq_some_iff.mp hagain
  obtain ⟨hcycle, hhead⟩ := h.isAliasCycle_of_aliasCycle? htype hfound
  obtain ⟨hturned, hstart⟩ := h.isAliasCycle_of_aliasCycle? hother hsecond
  -- the cycles are the same, so the first declared members are
  have hrotated := hcycle.isRotated_of_mem h hturned hmember hin
  have hle := List.all_eq_true.mp hfirst other (hrotated.mem_iff.mpr (List.mem_of_mem_head? hstart))
  have hge := List.all_eq_true.mp hleast type (hrotated.mem_iff.mp (List.mem_of_mem_head? hhead))
  have hid : type.id = other.id := by
    have hnumber := Nat.le_antisymm (of_decide_eq_true hle) (of_decide_eq_true hge)
    exact congrArg TypeId.mk hnumber
  exact hne (h.alias_ids htype hother hid)

/-! ### Reports -/

/-- A problem reports a row of aliases: each of them once, with its place, in the order of the
names, which are distinct. -/
def ReportsAliases (members : List DeclaredType) (problem : Problem) : Prop :=
  ∃ first others, problem = .aliasCycle first others ∧
    (first :: others).Perm (members.map fun type => ⟨type.name, type.position⟩) ∧
    ((first :: others).map AliasMember.name).Pairwise (· < ·)

theorem Consistent.alias_names (h : table.Consistent) {type other : DeclaredType}
    (htype : type ∈ table.aliases) (hother : other ∈ table.aliases)
    (hname : type.name = other.name) : type = other := by
  have hnamed {found : DeclaredType} (hfound : found ∈ table.aliases) :
      .declared found ∈ table.named :=
    mem_named.mpr ⟨(mem_aliases.mp hfound).1, rfl⟩
  exact SchemaType.declared.inj (eq_of_key_eq h.names (hnamed htype) (hnamed hother) hname)

/-- A cycle has a problem, which reports it. -/
theorem Consistent.aliasCycleProblem?_reports (h : table.Consistent)
    (cycle : table.IsAliasCycle members) :
    ∃ problem, aliasCycleProblem? members = some problem ∧ ReportsAliases members problem := by
  have hcompare (a b : String) : (compare a b).isLE = true ↔ a ≤ b := Std.LawfulBCmp.isLE_iff_le
  let named : List AliasMember := members.map fun type => ⟨type.name, type.position⟩
  have hperm := List.mergeSort_perm named fun a b => (compare a.name b.name).isLE
  have hsorted := pairwise_mergeSort_key AliasMember.name named
  have hdistinct : (named.map AliasMember.name).Nodup := by
    rw [List.map_map]
    refine List.Nodup.map_on ?_ cycle.distinct
    intro type htype other hother hname
    exact h.alias_names (cycle.aliases htype) (cycle.aliases hother) hname
  unfold aliasCycleProblem?
  dsimp only
  split
  case h_1 hnil =>
    rw [hnil] at hperm
    exact absurd (List.map_eq_nil_iff.mp hperm.symm.eq_nil) cycle.nonempty
  case h_2 first others hcons =>
    rw [hcons] at hperm hsorted
    refine ⟨_, rfl, first, others, rfl, hperm, ?_⟩
    -- names that are in order and distinct are in strict order
    have hnames : ((first :: others).map AliasMember.name).Pairwise (· ≠ ·) :=
      (hperm.map AliasMember.name).nodup_iff.mpr hdistinct
    rw [List.pairwise_map] at hnames ⊢
    refine (hsorted.and hnames).imp ?_
    rintro a b ⟨hle, hne⟩
    exact lt_of_le_of_ne ((hcompare _ _).mp hle) hne

/-- What is known of the cycles of aliases that are reported. -/
structure AliasCyclesReported (table : TypeTable) : Prop where
  /-- The reports are those of a row of cycles, one for each.  No alias belongs to two of the
  cycles, and turned, they are all cycles that there are. -/
  bijective : ∃ cycles, List.Forall₂ ReportsAliases cycles table.aliasCycleProblems ∧
    cycles.Pairwise List.Disjoint ∧
    ∀ members, table.IsAliasCycle members ↔ ∃ cycle ∈ cycles, cycle ~r members
  /-- An alias is named in a report if and only if it leads back to itself. -/
  named : ∀ type ∈ table.aliases,
    (∃ first others, .aliasCycle first others ∈ table.aliasCycleProblems ∧
      type.name ∈ (first :: others).map AliasMember.name) ↔
    TransGen table.AliasStep type.id type.id

/-- The reports and the cycles of aliases correspond to each other. -/
theorem Consistent.aliasCyclesReported (h : table.Consistent) : table.AliasCyclesReported := by
  have hcycles (members : List DeclaredType) (hmem : members ∈ table.aliasCycles) :
      table.IsAliasCycle members := (h.mem_aliasCycles.mp hmem).1
  have hreports : List.Forall₂ ReportsAliases table.aliasCycles table.aliasCycleProblems :=
    forall₂_filterMap fun members hmem => h.aliasCycleProblem?_reports (hcycles members hmem)
  refine ⟨⟨table.aliasCycles, hreports, h.aliasCycles_disjoint, ?_⟩, ?_⟩
  · intro members
    constructor
    · exact h.exists_aliasCycles
    · rintro ⟨cycle, hcycle, hrotated⟩
      exact (hcycles cycle hcycle).of_isRotated hrotated
  · intro type htype
    constructor
    · rintro ⟨first, others, hproblem, hname⟩
      obtain ⟨members, hmembers, _, _, hsame, hperm, -⟩ := exists_left_of_forall₂ hreports hproblem
      cases hsame
      obtain ⟨member, hmember, hname⟩ := List.mem_map.mp hname
      obtain ⟨other, hother, rfl⟩ := List.mem_map.mp (hperm.mem_iff.mp hmember)
      obtain ⟨halias, hback⟩ := (hcycles members hmembers).leads h hother hother
      rw [← h.alias_names halias htype hname]
      exact hback
    · intro hback
      rcases h.aliasCycle?_spec htype with ⟨-, rest, hsome, -⟩ | ⟨hacyclic, -⟩
      · obtain ⟨hcycle, -⟩ := h.isAliasCycle_of_aliasCycle? htype hsome
        obtain ⟨members, hmembers, hrotated⟩ := h.exists_aliasCycles hcycle
        obtain ⟨problem, hproblem, first, others, rfl, hperm, -⟩ :=
          exists_right_of_forall₂ hreports hmembers
        refine ⟨first, others, hproblem, ?_⟩
        refine List.mem_map.mpr ⟨⟨type.name, type.position⟩, ?_, rfl⟩
        have hmem := hrotated.mem_iff.mpr (List.mem_cons_self (a := type) (l := rest))
        exact hperm.mem_iff.mpr (List.mem_map_of_mem hmem)
      · exact absurd hback hacyclic

end TypeTable

/-- The cycles of aliases are reported one by one, whatever is declared. -/
theorem Registry.aliasCyclesReported_linked (declarations : List Declaration) :
    (Registry.ofDeclarations declarations).linked.types.AliasCyclesReported :=
  (Registry.consistent_linked declarations).types.aliasCyclesReported

end GraphSchema
