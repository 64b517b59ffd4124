import GraphSchema.Analysis.AliasCycle
import GraphSchema.Proofs.Types.Targets
import Mathlib.Data.Set.Defs
import Mathlib.Order.WellFounded

/-!
# Cycles of aliases

The chain of an alias is what its steps reach, so an alias lies on a cycle if and only if its chain
comes back to it (`TypeTable.Consistent.aliasCycle?_spec`).  Of the aliases that lie on cycles the
first declared one reports its cycle, so there is no problem with cycles if and only if there are
none (`TypeTable.Consistent.aliasCycleProblems_eq_nil_iff`).
-/

namespace GraphSchema.TypeTable

open Relation

variable {table : TypeTable}

/-! ### Aliases -/

theorem mem_aliases {type : DeclaredType} :
    type ∈ table.aliases ↔ .declared type ∈ table.types ∧ type.isAlias = true := by
  rw [aliases, List.mem_filter, declared_mem_types_iff]

/-- A number stands for the alias that has it. -/
theorem Consistent.alias?_eq_some_iff (h : table.Consistent) {id : TypeId} {type : DeclaredType} :
    table.alias? id = some type ↔ type ∈ table.aliases ∧ type.id = id := by
  rw [alias?, Option.filter_eq_some_iff, Option.bind_eq_some_iff, mem_aliases]
  constructor
  · rintro ⟨⟨found, hfound, hdeclared⟩, halias⟩
    obtain ⟨hmem, hid⟩ := h.type?_eq_some_iff.mp hfound
    cases found with
    | declared other =>
      obtain rfl := Option.some.inj hdeclared
      exact ⟨⟨hmem, halias⟩, hid⟩
    | primitive _ => cases hdeclared
    | container _ => cases hdeclared
  · rintro ⟨⟨hmem, halias⟩, hid⟩
    exact ⟨⟨.declared type, h.type?_eq_some_iff.mpr ⟨hmem, hid⟩, rfl⟩, halias⟩

/-- Aliases are told apart by their numbers. -/
theorem Consistent.alias_ids (h : table.Consistent) {type other : DeclaredType}
    (htype : type ∈ table.aliases) (hother : other ∈ table.aliases)
    (hid : type.id = other.id) : type = other := by
  have hfound := h.alias?_eq_some_iff.mpr ⟨htype, hid⟩
  rw [h.alias?_eq_some_iff.mpr ⟨hother, rfl⟩] at hfound
  exact (Option.some.inj hfound).symm

/-- Whatever leads to a type as an alias is an alias of the table. -/
theorem Consistent.aliasStep_iff (h : table.Consistent) {id next : TypeId} :
    table.AliasStep id next ↔
      ∃ type ∈ table.aliases, type.id = id ∧ type.aliased? = some next := by
  constructor
  · rintro ⟨type, htype, haliased⟩
    obtain ⟨hmem, hid⟩ := h.type?_eq_some_iff.mp htype
    cases type with
    | primitive _ => cases haliased
    | container _ => cases haliased
    | declared type =>
      obtain ⟨number, name, position, body⟩ := type
      cases body with
      | typeAlias target aliased =>
        exact ⟨_, mem_aliases.mpr ⟨hmem, rfl⟩, hid, Option.some.inj haliased⟩
      | enum values => cases haliased
      | union options => cases haliased
      | struct fields => cases haliased
      | resolver properties => cases haliased
  · rintro ⟨type, hmem, hid, haliased⟩
    obtain ⟨htype, halias⟩ := mem_aliases.mp hmem
    refine ⟨.declared type, h.type?_eq_some_iff.mpr ⟨htype, hid⟩, ?_⟩
    obtain ⟨number, name, position, body⟩ := type
    cases body with
    | typeAlias target aliased => exact congrArg some haliased
    | enum values => cases halias
    | union options => cases halias
    | struct fields => cases halias
    | resolver properties => cases halias

/-! ### Chains -/

/-- An alias has the step that it is declared with. -/
theorem Consistent.aliasStep_of_alias (h : table.Consistent) {type : DeclaredType}
    (htype : type ∈ table.aliases) {next : TypeId} :
    table.AliasStep type.id next ↔ type.aliased? = some next := by
  rw [h.aliasStep_iff]
  constructor
  · rintro ⟨same, hsame, hid, haliased⟩
    obtain rfl := h.alias_ids hsame htype hid
    exact haliased
  · intro haliased
    exact ⟨type, htype, rfl, haliased⟩

theorem aliasChain_none (table : TypeTable) (steps : Nat) : table.aliasChain steps none = [] := by
  cases steps <;> rfl

/-- A chain consists of its first alias and of the chain after the first step. -/
theorem Consistent.mem_aliasChain_succ (h : table.Consistent) {steps : Nat} {id : TypeId}
    {type : DeclaredType} :
    type ∈ table.aliasChain (steps + 1) (some id) ↔ type ∈ table.aliases ∧ type.id = id ∨
      ∃ next, table.AliasStep id next ∧ type ∈ table.aliasChain steps (some next) := by
  rw [aliasChain]
  cases halias : table.alias? id with
  | none =>
    -- the chain ends at a type that is no alias
    have hnone {other : DeclaredType} (hother : other ∈ table.aliases) : other.id ≠ id := by
      intro hid
      rw [h.alias?_eq_some_iff.mpr ⟨hother, hid⟩] at halias
      cases halias
    constructor
    · intro hmem
      cases hmem
    · rintro (⟨hmem, hid⟩ | ⟨next, hstep, -⟩)
      · exact absurd hid (hnone hmem)
      · obtain ⟨first, hfirst, hid, -⟩ := h.aliasStep_iff.mp hstep
        exact absurd hid (hnone hfirst)
  | some first =>
    obtain ⟨hfirst, rfl⟩ := h.alias?_eq_some_iff.mp halias
    rw [List.mem_cons]
    constructor
    · rintro (rfl | hmem)
      · exact .inl ⟨hfirst, rfl⟩
      · cases haliased : first.aliased? with
        | none =>
          rw [haliased, aliasChain_none] at hmem
          cases hmem
        | some next =>
          rw [haliased] at hmem
          exact .inr ⟨next, (h.aliasStep_of_alias hfirst).mpr haliased, hmem⟩
    · rintro (⟨hmem, hid⟩ | ⟨next, hstep, hmem⟩)
      · -- a number stands for one alias
        have hsame := h.alias?_eq_some_iff.mpr ⟨hmem, hid⟩
        rw [halias] at hsame
        exact .inl (Option.some.inj hsame).symm
      · rw [(h.aliasStep_of_alias hfirst).mp hstep]
        exact .inr hmem

/-- A chain consists of the aliases that its steps reach. -/
theorem Consistent.mem_aliasChain (h : table.Consistent) {steps : Nat} {id : TypeId}
    {type : DeclaredType} :
    type ∈ table.aliasChain steps (some id) ↔
      type ∈ table.aliases ∧ ∃ n < steps, Steps table.AliasStep n id type.id := by
  induction steps generalizing id with
  | zero =>
    constructor
    · intro hmem
      cases hmem
    · rintro ⟨-, n, hn, -⟩
      exact absurd hn (Nat.not_lt_zero n)
  | succ steps ih =>
    rw [h.mem_aliasChain_succ]
    constructor
    · rintro (⟨hmem, hid⟩ | ⟨next, hstep, hmem⟩)
      · exact ⟨hmem, 0, Nat.zero_lt_succ _, hid.symm⟩
      · obtain ⟨halias, n, hn, hsteps⟩ := ih.mp hmem
        exact ⟨halias, n + 1, Nat.succ_lt_succ hn, next, hstep, hsteps⟩
    · rintro ⟨hmem, n, hn, hsteps⟩
      cases n with
      | zero => exact .inl ⟨hmem, hsteps.symm⟩
      | succ n =>
        obtain ⟨next, hstep, hrest⟩ := hsteps
        exact .inr ⟨next, hstep, ih.mpr ⟨hmem, n, Nat.lt_of_succ_lt_succ hn, hrest⟩⟩

/-- The chain of an alias consists of the aliases that are reached after its first step. -/
theorem Consistent.mem_chain_of_alias (h : table.Consistent) {first type : DeclaredType}
    (hfirst : first ∈ table.aliases) {steps : Nat} :
    type ∈ table.aliasChain steps first.aliased? ↔ type ∈ table.aliases ∧
      ∃ next, table.AliasStep first.id next ∧
        ∃ n < steps, Steps table.AliasStep n next type.id := by
  cases haliased : first.aliased? with
  | none =>
    -- an alias whose target is not known has no step
    rw [aliasChain_none]
    constructor
    · intro hmem
      cases hmem
    · rintro ⟨-, next, hstep, -⟩
      rw [(h.aliasStep_of_alias hfirst).mp hstep] at haliased
      cases haliased
  | some id =>
    have hid := (h.aliasStep_of_alias hfirst).mpr haliased
    rw [h.mem_aliasChain]
    refine and_congr_right fun _ => ⟨fun hsteps => ⟨id, hid, hsteps⟩, ?_⟩
    rintro ⟨next, hstep, hsteps⟩
    rw [hid.unique hstep]
    exact hsteps

/-! ### Cycles -/

/-- The chain of an alias comes back to it if and only if it lies on a cycle. -/
theorem Consistent.comes_back_iff (h : table.Consistent) {type : DeclaredType}
    (htype : type ∈ table.aliases) :
    type ∈ table.aliasChain table.aliases.length type.aliased? ↔
      TransGen table.AliasStep type.id type.id := by
  rw [h.mem_chain_of_alias htype, TransGen.head'_iff]
  constructor
  · rintro ⟨-, next, hstep, n, -, hsteps⟩
    exact ⟨next, hstep, hsteps.reflTransGen⟩
  · rintro ⟨next, hstep, hreaches⟩
    have hsources : ∀ a b, table.AliasStep a b → a ∈ table.aliases.map DeclaredType.id := by
      intro a b hab
      obtain ⟨other, hother, rfl, -⟩ := h.aliasStep_iff.mp hab
      exact List.mem_map_of_mem hother
    -- there are no more steps back than there are aliases
    obtain ⟨n, hn, hsteps⟩ := exists_steps_lt hsources (List.mem_map_of_mem htype) hreaches
    rw [List.length_map] at hn
    exact ⟨htype, next, hstep, n, hn, hsteps⟩

theorem Consistent.any_chain_iff (h : table.Consistent) {type : DeclaredType}
    (htype : type ∈ table.aliases) :
    ((table.aliasChain table.aliases.length type.aliased?).any fun other => other.id == type.id) =
      true ↔ TransGen table.AliasStep type.id type.id := by
  rw [← h.comes_back_iff htype, List.any_eq_true]
  constructor
  · rintro ⟨other, hother, hid⟩
    have halias := ((h.mem_chain_of_alias htype).mp hother).1
    obtain rfl := h.alias_ids halias htype (beq_iff_eq.mp hid)
    exact hother
  · intro hmem
    exact ⟨type, hmem, beq_self_eq_true _⟩

/-- An alias has a cycle if and only if it lies on one, and all members lie on it. -/
theorem Consistent.aliasCycle?_spec (h : table.Consistent) {type : DeclaredType}
    (htype : type ∈ table.aliases) :
    (TransGen table.AliasStep type.id type.id ∧
      ∃ others, table.aliasCycle? table.aliases.length type = some (type :: others) ∧
        ∀ other ∈ others, other ∈ table.aliases ∧ TransGen table.AliasStep other.id other.id) ∨
    ¬ TransGen table.AliasStep type.id type.id ∧
      table.aliasCycle? table.aliases.length type = none := by
  by_cases hcycle : TransGen table.AliasStep type.id type.id
  · refine .inl ⟨hcycle, (table.aliasChain table.aliases.length type.aliased?).takeWhile
      fun other => other.id != type.id, ?_, ?_⟩
    · unfold aliasCycle?
      exact if_pos ((h.any_chain_iff htype).mpr hcycle)
    · intro other hother
      obtain ⟨hmem, next, hstep, n, -, hsteps⟩ :=
        (h.mem_chain_of_alias htype).mp ((List.takeWhile_sublist _).subset hother)
      have hreaches : ReflTransGen table.AliasStep type.id other.id :=
        .head hstep hsteps.reflTransGen
      -- aliases have one step, so the member leads back to the alias
      have hsingle : ∀ a b c, table.AliasStep a b → table.AliasStep a c → b = c :=
        fun a b c hb hc => hb.unique hc
      have hback := transGen_of_cycle hsingle hcycle hreaches
      exact ⟨hmem, hback.trans_left hreaches⟩
  · refine .inr ⟨hcycle, ?_⟩
    unfold aliasCycle?
    apply if_neg
    intro hany
    exact hcycle ((h.any_chain_iff htype).mp hany)

theorem aliasCycleProblem?_cons (type : DeclaredType) (others : List DeclaredType) :
    aliasCycleProblem? (type :: others) ≠ none := by
  unfold aliasCycleProblem?
  dsimp only
  split
  case h_1 hnil =>
    have hlength := congrArg List.length hnil
    rw [List.length_mergeSort, List.length_map] at hlength
    cases hlength
  case h_2 => exact Option.some_ne_none _

/-- There is no problem with cycles of aliases if and only if there are none. -/
theorem Consistent.aliasCycleProblems_eq_nil_iff (h : table.Consistent) :
    table.aliasCycleProblems = [] ↔ ∀ id, ¬ TransGen table.AliasStep id id := by
  unfold aliasCycleProblems aliasCycles
  rw [List.filterMap_eq_nil_iff]
  constructor
  · intro hnone id hcycle
    -- of all aliases on cycles the first one reports its cycle
    have hcyclic : {type | type ∈ table.aliases ∧
        TransGen table.AliasStep type.id type.id}.Nonempty := by
      obtain ⟨next, hstep, -⟩ := TransGen.head'_iff.mp hcycle
      obtain ⟨type, htype, rfl, -⟩ := h.aliasStep_iff.mp hstep
      exact ⟨type, htype, hcycle⟩
    obtain ⟨type, ⟨htype, hcycle⟩, hleast⟩ :=
      (measure fun type : DeclaredType => type.id.number).wf.has_min _ hcyclic
    rcases h.aliasCycle?_spec htype with ⟨-, others, hsome, hothers⟩ | ⟨hacyclic, -⟩
    · have hfirst : isFirstOf type (type :: others) = true := by
        rw [isFirstOf, List.all_eq_true]
        intro other hother
        rw [decide_eq_true_eq]
        rcases List.mem_cons.mp hother with rfl | hother
        · exact Nat.le_refl _
        · exact Nat.le_of_not_lt (hleast other (hothers other hother))
      refine aliasCycleProblem?_cons type others (hnone _ ?_)
      refine List.mem_filterMap.mpr ⟨type, htype, ?_⟩
      rw [hsome]
      exact if_pos hfirst
    · exact hacyclic hcycle
  · intro hacyclic members hmembers
    obtain ⟨type, htype, hcycle⟩ := List.mem_filterMap.mp hmembers
    rcases h.aliasCycle?_spec htype with ⟨hcyclic, -⟩ | ⟨-, hnone⟩
    · exact absurd hcyclic (hacyclic _)
    · rw [hnone] at hcycle
      cases hcycle

end GraphSchema.TypeTable
