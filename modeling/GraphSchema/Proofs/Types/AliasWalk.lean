import GraphSchema.Proofs.Descent.Repetition
import GraphSchema.Proofs.Types.AliasReports

/-!
# The walk over the aliases

The cycles of aliases can be found in one pass.  An alias that was not classified is followed until
its chain comes to an alias that was, to one that the chain met before, or to a type that is no
alias; then all aliases that it met are classified (`AliasWalk.follow`).

A chain that meets a cycle does not leave it, so a cycle with a member that is classified was found
(`AliasWalk.Sound`), and when all aliases are classified, all cycles were
(`TypeTable.Consistent.exists_aliasWalk`).  They are the cycles that are found alias by alias, each
turned in some way, so the problems with them are the same (`TypeTable.ListsCycles.problems_perm`).
-/

namespace GraphSchema

/-- A chain of aliases that is followed: those it met, and the type to which it leads. -/
structure AliasTrail where
  met : List DeclaredType
  current : TypeId

/-- A walk over the aliases: those that were classified, and the cycles that were found. -/
structure AliasWalk where
  classified : List TypeId
  cycles : List (List DeclaredType)

namespace AliasWalk

/-- Classifies what a chain met, and notes the cycle in which it ended. -/
def settle (walk : AliasWalk) (met : List DeclaredType) (found : Option (List DeclaredType)) :
    AliasWalk :=
  ⟨walk.classified ++ met.map DeclaredType.id, walk.cycles ++ found.toList⟩

/-- Follows a chain by one alias. -/
def follow (table : TypeTable) (walk : AliasWalk) (trail : AliasTrail) :
    Progress AliasTrail AliasWalk :=
  if walk.classified.contains trail.current then .done (walk.settle trail.met none)
  else
    match trail.met.findIdx? fun type => type.id == trail.current with
    | some start => .done (walk.settle trail.met (some (trail.met.drop start)))
    | none =>
      match table.alias? trail.current with
      | none => .done (walk.settle trail.met none)
      | some type =>
        match type.aliased? with
        | none => .done (walk.settle (trail.met ++ [type]) none)
        | some next => .more ⟨trail.met ++ [type], next⟩

/-- Follows the chain of an alias to its end, unless the alias was classified. -/
noncomputable def visit (table : TypeTable) (walk : AliasWalk) (type : DeclaredType) :
    Option AliasWalk :=
  if walk.classified.contains type.id then some walk
  else repeated (some ∘ follow table walk) ⟨[], type.id⟩

/-- Visits the aliases in the order of their declarations. -/
noncomputable def ofTable? (table : TypeTable) : Option AliasWalk :=
  table.aliases.foldlM (visit table) ⟨[], []⟩

variable {table : TypeTable} {walk : AliasWalk} {trail : AliasTrail}

/-- What following a chain can come to: an alias that was classified, one that was met, a type that
is no alias, an alias whose target is not known, or an alias that leads on. -/
inductive Turns (table : TypeTable) (walk : AliasWalk) (trail : AliasTrail) :
    Progress AliasTrail AliasWalk → Prop
  | classified (known : trail.current ∈ walk.classified) :
      Turns table walk trail (.done (walk.settle trail.met none))
  | back {front behind : List DeclaredType} {first : DeclaredType}
      (split : trail.met = front ++ first :: behind) (id : first.id = trail.current) :
      Turns table walk trail (.done (walk.settle trail.met (some (first :: behind))))
  | stray (missing : table.alias? trail.current = none) :
      Turns table walk trail (.done (walk.settle trail.met none))
  | dangling {type : DeclaredType} (found : table.alias? trail.current = some type)
      (missing : type.aliased? = none) :
      Turns table walk trail (.done (walk.settle (trail.met ++ [type]) none))
  | on {type : DeclaredType} {next : TypeId} (unknown : trail.current ∉ walk.classified)
      (new : ∀ other ∈ trail.met, other.id ≠ trail.current)
      (found : table.alias? trail.current = some type) (leads : type.aliased? = some next) :
      Turns table walk trail (.more ⟨trail.met ++ [type], next⟩)

theorem turns_follow (table : TypeTable) (walk : AliasWalk) (trail : AliasTrail) :
    Turns table walk trail (walk.follow table trail) := by
  unfold follow
  split
  case isTrue hknown => exact .classified (List.contains_iff_mem.mp hknown)
  case isFalse hunknown =>
    rw [List.contains_iff_mem] at hunknown
    split
    case h_1 start hstart =>
      -- the place at which the chain met the alias is within the chain
      obtain ⟨hlt, hid, -⟩ := List.findIdx?_eq_some_iff_getElem.mp hstart
      have hsplit : trail.met =
          trail.met.take start ++ trail.met[start] :: trail.met.drop (start + 1) := by
        rw [← List.drop_eq_getElem_cons hlt, List.take_append_drop]
      rw [List.drop_eq_getElem_cons hlt]
      exact .back hsplit (beq_iff_eq.mp hid)
    case h_2 hnone =>
      have hnew : ∀ other ∈ trail.met, other.id ≠ trail.current := by
        intro other hother
        exact beq_eq_false_iff_ne.mp (List.findIdx?_eq_none_iff.mp hnone other hother)
      split
      case h_1 hstray => exact .stray hstray
      case h_2 type hfound =>
        split
        case h_1 hdangling => exact .dangling hfound hdangling
        case h_2 next hleads => exact .on hunknown hnew hfound hleads

end AliasWalk

namespace TypeTable

variable {table : TypeTable} {members : List DeclaredType} {type other : DeclaredType}

/-! ### Chains and cycles -/

/-- What a member stands for is a member. -/
theorem IsAliasCycle.mem_of_standsFor (h : table.IsAliasCycle members)
    (consistent : table.Consistent) (htype : type ∈ members)
    (hstands : table.StandsFor type other) : other ∈ members := by
  obtain ⟨next, hnext, hsame⟩ := exists_next_of_chain h.chain htype
  rwa [consistent.standsFor_unique type other next hstands hsame]

/-- A chain that meets a cycle ends on it. -/
theorem IsAliasCycle.last_mem (h : table.IsAliasCycle members) (consistent : table.Consistent)
    {row : List DeclaredType} (chain : row.IsChain table.StandsFor) (hrow : type ∈ row)
    (htype : type ∈ members) : ∃ last ∈ row.getLast?, last ∈ members := by
  induction row generalizing type with
  | nil => cases hrow
  | cons first row ih =>
    cases row with
    | nil =>
      obtain rfl := List.mem_singleton.mp hrow
      exact ⟨type, rfl, htype⟩
    | cons next row =>
      obtain ⟨hstands, hrest⟩ := List.isChain_cons_cons.mp chain
      rw [List.getLast?_cons_cons]
      rcases List.mem_cons.mp hrow with rfl | hrow
      · exact ih hrest List.mem_cons_self (h.mem_of_standsFor consistent htype hstands)
      · exact ih hrest hrow htype

end TypeTable

/-! ### Trails -/

/-- A chain from an alias on: each alias of it stands for the next one, and none is met twice or was
classified before. -/
structure AliasTrail.Kept (table : TypeTable) (walk : AliasWalk) (first : DeclaredType)
    (trail : AliasTrail) : Prop where
  begins : first ∈ trail.met ∨ trail.met = [] ∧ trail.current = first.id
  chain : trail.met.IsChain table.StandsFor
  distinct : trail.met.Nodup
  aliases : ∀ type ∈ trail.met, type ∈ table.aliases
  leads : ∀ last ∈ trail.met.getLast?, last.aliased? = some trail.current
  new : ∀ type ∈ trail.met, type.id ∉ walk.classified

/-- The cycles that were found are cycles, and no alias is on two of them.  All that have a member
that was classified were found, and only these. -/
structure AliasWalk.Sound (table : TypeTable) (walk : AliasWalk) : Prop where
  cycles : ∀ members ∈ walk.cycles, table.IsAliasCycle members
  disjoint : walk.cycles.Pairwise List.Disjoint
  classified : ∀ members ∈ walk.cycles, ∀ type ∈ members, type.id ∈ walk.classified
  found : ∀ members, table.IsAliasCycle members → ∀ type ∈ members, type.id ∈ walk.classified →
    ∃ cycle ∈ walk.cycles, cycle ~r members

namespace AliasTrail

variable {table : TypeTable} {walk : AliasWalk} {trail : AliasTrail} {first type : DeclaredType}
  {members : List DeclaredType} {next : TypeId}

theorem kept_start (table : TypeTable) (walk : AliasWalk) (first : DeclaredType) :
    Kept table walk first ⟨[], first.id⟩ :=
  ⟨.inr ⟨rfl, rfl⟩, .nil, List.nodup_nil, nofun, nofun, nofun⟩

/-- A chain that meets a cycle leads to a member of it. -/
theorem Kept.exists_member (h : Kept table walk first trail) (consistent : table.Consistent)
    (cycle : table.IsAliasCycle members) (met : type ∈ trail.met) (htype : type ∈ members) :
    ∃ other ∈ members, other.id = trail.current := by
  obtain ⟨last, hlast, hmem⟩ := cycle.last_mem consistent h.chain met htype
  obtain ⟨other, hother, hstands⟩ := exists_next_of_chain cycle.chain hmem
  exact ⟨other, hother, Option.some.inj (hstands.aliased.symm.trans (h.leads last hlast))⟩

/-- A chain goes on with an alias that it did not meet. -/
theorem Kept.extend (h : Kept table walk first trail) (consistent : table.Consistent)
    (unknown : trail.current ∉ walk.classified)
    (new : ∀ other ∈ trail.met, other.id ≠ trail.current)
    (found : table.alias? trail.current = some type) (leads : type.aliased? = some next)
    (halias : first ∈ table.aliases) : Kept table walk first ⟨trail.met ++ [type], next⟩ := by
  obtain ⟨htype, hid⟩ := consistent.alias?_eq_some_iff.mp found
  refine ⟨?_, ?_, ?_, ?_, ?_, ?_⟩
  · rcases h.begins with hmem | ⟨-, hcurrent⟩
    · exact .inl (List.mem_append_left _ hmem)
    · have hsame : type = first := consistent.alias_ids htype halias (hid.trans hcurrent)
      exact .inl (List.mem_append_right _ (List.mem_singleton.mpr hsame.symm))
  · refine List.isChain_append.mpr ⟨h.chain, .singleton _, ?_⟩
    intro last hlast other hother
    obtain rfl := Option.some.inj hother
    have hmem : last ∈ trail.met := List.mem_of_getLast? hlast
    exact ⟨h.aliases last hmem, htype, by rw [h.leads last hlast, hid]⟩
  · rw [List.nodup_append_comm, List.singleton_append, List.nodup_cons]
    exact ⟨fun hmem => new type hmem hid, h.distinct⟩
  · intro other hother
    rcases List.mem_append.mp hother with hother | hother
    · exact h.aliases other hother
    · rw [List.mem_singleton.mp hother]
      exact htype
  · intro last hlast
    rw [List.getLast?_concat] at hlast
    obtain rfl := Option.some.inj hlast
    exact leads
  · intro other hother
    rcases List.mem_append.mp hother with hother | hother
    · exact h.new other hother
    · rw [List.mem_singleton.mp hother, hid]
      exact unknown

/-- A chain that comes back to an alias that it met closes a cycle. -/
theorem Kept.isAliasCycle (h : Kept table walk first trail) {front behind : List DeclaredType}
    {start : DeclaredType} (split : trail.met = front ++ start :: behind)
    (id : start.id = trail.current) : table.IsAliasCycle (start :: behind) := by
  have hsuffix : start :: behind <:+ trail.met := ⟨front, split.symm⟩
  have hstart : start ∈ trail.met := hsuffix.subset List.mem_cons_self
  refine ⟨List.cons_ne_nil _ _, h.distinct.sublist hsuffix.sublist, ?_⟩
  rw [Cycle.chain_coe_cons, ← List.cons_append]
  refine List.isChain_append.mpr ⟨h.chain.suffix hsuffix, .singleton _, ?_⟩
  -- the last alias of the chain stands for the one at which the cycle begins
  intro last hlast other hother
  obtain rfl := Option.some.inj hother
  have hlast : last ∈ trail.met.getLast? := by
    rw [split, List.getLast?_append_of_ne_nil _ (List.cons_ne_nil _ _)]
    exact hlast
  exact ⟨h.aliases last (List.mem_of_getLast? hlast), h.aliases start hstart,
    by rw [h.leads last hlast, id]⟩

end AliasTrail

/-! ### Walks -/

namespace AliasWalk

variable {table : TypeTable} {walk : AliasWalk} {trail : AliasTrail} {first type : DeclaredType}
  {met : List DeclaredType} {found : Option (List DeclaredType)}

theorem sound_nil (table : TypeTable) : Sound table ⟨[], []⟩ :=
  ⟨nofun, .nil, nofun, nofun⟩

/-- Classifying what a chain met, if the cycles on it were found. -/
theorem Sound.settle (h : walk.Sound table) (consistent : table.Consistent)
    (aliases : ∀ type ∈ met, type ∈ table.aliases)
    (cycles : ∀ members ∈ found, table.IsAliasCycle members ∧
      ∀ type ∈ members, type ∈ met ∧ type.id ∉ walk.classified)
    (complete : ∀ members, table.IsAliasCycle members → ∀ type ∈ met, type ∈ members →
      ∃ cycle ∈ walk.cycles ++ found.toList, cycle ~r members) :
    (walk.settle met found).Sound table := by
  refine ⟨?_, ?_, ?_, ?_⟩
  · intro members hmembers
    rcases List.mem_append.mp hmembers with hold | hnew
    · exact h.cycles members hold
    · exact (cycles members (Option.mem_toList.mp hnew)).1
  · refine List.pairwise_append.mpr ⟨h.disjoint, ?_, ?_⟩
    · cases found with
      | none => exact .nil
      | some members => exact List.pairwise_singleton _ _
    · -- what was found before was classified before
      intro members hold others hnew type htype hother
      have hunknown := ((cycles others (Option.mem_toList.mp hnew)).2 type hother).2
      exact hunknown (h.classified members hold type htype)
  · intro members hmembers type htype
    rcases List.mem_append.mp hmembers with hold | hnew
    · exact List.mem_append_left _ (h.classified members hold type htype)
    · have hmet := ((cycles members (Option.mem_toList.mp hnew)).2 type htype).1
      exact List.mem_append_right _ (List.mem_map_of_mem hmet)
  · intro members hcycle type htype hclassified
    rcases List.mem_append.mp hclassified with hold | hnew
    · obtain ⟨cycle, hmem, hrotated⟩ := h.found members hcycle type htype hold
      exact ⟨cycle, List.mem_append_left _ hmem, hrotated⟩
    · obtain ⟨same, hsame, hid⟩ := List.mem_map.mp hnew
      obtain rfl := consistent.alias_ids (aliases same hsame) (hcycle.aliases htype) hid
      exact complete members hcycle same hsame htype

/-- A cycle that a chain meets has the alias that was classified before. -/
theorem Sound.settle_classified (h : walk.Sound table) (consistent : table.Consistent)
    (kept : trail.Kept table walk first) (known : trail.current ∈ walk.classified) :
    (walk.settle trail.met none).Sound table := by
  refine h.settle consistent kept.aliases nofun fun members hcycle type hmet htype => ?_
  obtain ⟨other, hother, hid⟩ := kept.exists_member consistent hcycle hmet htype
  obtain ⟨cycle, hmem, hrotated⟩ := h.found members hcycle other hother (hid.symm ▸ known)
  exact ⟨cycle, List.mem_append_left _ hmem, hrotated⟩

/-- A cycle that a chain meets has the alias to which the chain comes back. -/
theorem Sound.settle_back (h : walk.Sound table) (consistent : table.Consistent)
    (kept : trail.Kept table walk first) {front behind : List DeclaredType} {start : DeclaredType}
    (split : trail.met = front ++ start :: behind) (id : start.id = trail.current) :
    (walk.settle trail.met (some (start :: behind))).Sound table := by
  have hfound : table.IsAliasCycle (start :: behind) := kept.isAliasCycle split id
  have hmet : start :: behind ⊆ trail.met := by
    rw [split]
    exact List.subset_append_right _ _
  refine h.settle consistent kept.aliases ?_ ?_
  · rintro _ ⟨⟩
    exact ⟨hfound, fun type htype => ⟨hmet htype, kept.new type (hmet htype)⟩⟩
  · intro members hcycle type hmem htype
    obtain ⟨other, hother, hid⟩ := kept.exists_member consistent hcycle hmem htype
    obtain rfl : other = start := consistent.alias_ids (hcycle.aliases hother)
      (kept.aliases start (hmet List.mem_cons_self)) (hid.trans id.symm)
    refine ⟨other :: behind, List.mem_append_right _ List.mem_cons_self, ?_⟩
    exact hfound.isRotated_of_mem consistent hcycle List.mem_cons_self hother

/-- No cycle leads to a type that is no alias. -/
theorem Sound.settle_stray (h : walk.Sound table) (consistent : table.Consistent)
    (kept : trail.Kept table walk first)
    (stray : ∀ other ∈ table.aliases, other.id ≠ trail.current) :
    (walk.settle trail.met none).Sound table := by
  refine h.settle consistent kept.aliases nofun fun members hcycle type hmet htype => ?_
  obtain ⟨other, hother, hid⟩ := kept.exists_member consistent hcycle hmet htype
  exact absurd hid (stray other (hcycle.aliases hother))

/-- No cycle leads to an alias whose target is not known. -/
theorem Sound.settle_dangling (h : walk.Sound table) (consistent : table.Consistent)
    (kept : trail.Kept table walk first) (halias : type ∈ table.aliases)
    (hid : type.id = trail.current) (missing : type.aliased? = none) :
    (walk.settle (trail.met ++ [type]) none).Sound table := by
  have hnone {members : List DeclaredType} (hcycle : table.IsAliasCycle members) :
      type ∉ members := by
    intro htype
    obtain ⟨next, -, hstands⟩ := exists_next_of_chain hcycle.chain htype
    rw [hstands.aliased] at missing
    cases missing
  refine h.settle consistent ?_ nofun ?_
  · intro other hother
    rcases List.mem_append.mp hother with hother | hother
    · exact kept.aliases other hother
    · rw [List.mem_singleton.mp hother]
      exact halias
  · intro members hcycle other hmet hother
    rcases List.mem_append.mp hmet with hmet | hmet
    · obtain ⟨same, hsame, hcurrent⟩ := kept.exists_member consistent hcycle hmet hother
      obtain rfl : same = type :=
        consistent.alias_ids (hcycle.aliases hsame) halias (hcurrent.trans hid.symm)
      exact absurd hsame (hnone hcycle)
    · rw [List.mem_singleton.mp hmet] at hother
      exact absurd hother (hnone hcycle)

/-- The walk has come further than another one: all that was classified is, and an alias more. -/
structure Passes (table : TypeTable) (walk : AliasWalk) (type : DeclaredType) (next : AliasWalk) :
    Prop where
  sound : next.Sound table
  classified : walk.classified ⊆ next.classified
  visited : type.id ∈ next.classified

theorem passes_settle (sound : (walk.settle met found).Sound table) (hmet : type ∈ met) :
    Passes table walk type (walk.settle met found) :=
  ⟨sound, List.subset_append_left _ _, List.mem_append_right _ (List.mem_map_of_mem hmet)⟩

/-- Following a chain either goes on with a longer one, or classifies the alias from which it
starts. -/
theorem follow_cases (consistent : table.Consistent) (sound : walk.Sound table)
    (kept : trail.Kept table walk first) (halias : first ∈ table.aliases)
    (hnew : first.id ∉ walk.classified) :
    (∃ next, walk.follow table trail = .more next ∧ next.Kept table walk first ∧
      next.met.length = trail.met.length + 1) ∨
    ∃ next, walk.follow table trail = .done next ∧ Passes table walk first next := by
  -- a chain that did not meet its first alias is about to
  have hmet (hne : trail.current ≠ first.id) : first ∈ trail.met :=
    kept.begins.resolve_right fun hempty => hne hempty.2
  generalize hturn : walk.follow table trail = progress
  cases hturn ▸ turns_follow table walk trail with
  | classified known =>
    have hfirst := hmet fun hcurrent => hnew (hcurrent ▸ known)
    exact .inr ⟨_, rfl, passes_settle (sound.settle_classified consistent kept known) hfirst⟩
  | @back front behind start split id =>
    have hfirst : first ∈ trail.met := by
      refine kept.begins.resolve_right fun hempty => ?_
      rw [hempty.1] at split
      exact List.append_ne_nil_of_right_ne_nil front (List.cons_ne_nil _ _) split.symm
    exact .inr ⟨_, rfl, passes_settle (sound.settle_back consistent kept split id) hfirst⟩
  | stray missing =>
    have hstray : ∀ other ∈ table.aliases, other.id ≠ trail.current := by
      intro other hother hid
      rw [consistent.alias?_eq_some_iff.mpr ⟨hother, hid⟩] at missing
      cases missing
    have hfirst := hmet (hstray first halias).symm
    exact .inr ⟨_, rfl, passes_settle (sound.settle_stray consistent kept hstray) hfirst⟩
  | @dangling last found missing =>
    obtain ⟨hlast, hid⟩ := consistent.alias?_eq_some_iff.mp found
    have hfirst : first ∈ trail.met ++ [last] := by
      rcases kept.begins with hmem | ⟨-, hcurrent⟩
      · exact List.mem_append_left _ hmem
      · have hsame : first = last :=
          consistent.alias_ids halias hlast (hcurrent.symm.trans hid.symm)
        exact List.mem_append_right _ (List.mem_singleton.mpr hsame)
    exact .inr ⟨_, rfl,
      passes_settle (sound.settle_dangling consistent kept hlast hid missing) hfirst⟩
  | @on next target unknown new found leads =>
    exact .inl ⟨_, rfl, kept.extend consistent unknown new found leads halias,
      List.length_append⟩

/-- A chain meets each alias once at most, so it comes to an end. -/
theorem exists_repeated_follow (consistent : table.Consistent) (sound : walk.Sound table)
    (kept : trail.Kept table walk first) (halias : first ∈ table.aliases)
    (hnew : first.id ∉ walk.classified) :
    ∃ next, repeated (some ∘ walk.follow table) trail = some next ∧
      Passes table walk first next := by
  -- the measure is the number of aliases that the chain did not meet
  induction hleft : table.aliases.length - trail.met.length generalizing trail with
  | zero =>
    rcases follow_cases consistent sound kept halias hnew with ⟨next, -, hkept, hlength⟩ |
      ⟨next, hdone, hpasses⟩
    · have hle : next.met.length ≤ table.aliases.length :=
        (hkept.distinct.subperm hkept.aliases).length_le
      omega
    · exact ⟨next, by rw [repeated_eq, Function.comp_apply, hdone], hpasses⟩
  | succ left ih =>
    rcases follow_cases consistent sound kept halias hnew with ⟨next, hmore, hkept, hlength⟩ |
      ⟨next, hdone, hpasses⟩
    · obtain ⟨last, hlast, hpasses⟩ := ih hkept (by omega)
      exact ⟨last, by rw [repeated_eq, Function.comp_apply, hmore]; exact hlast, hpasses⟩
    · exact ⟨next, by rw [repeated_eq, Function.comp_apply, hdone], hpasses⟩

theorem exists_visit (consistent : table.Consistent) (sound : walk.Sound table)
    (halias : first ∈ table.aliases) :
    ∃ next, walk.visit table first = some next ∧ Passes table walk first next := by
  unfold visit
  split
  case isTrue hknown =>
    exact ⟨walk, rfl, sound, List.Subset.refl _, List.contains_iff_mem.mp hknown⟩
  case isFalse hunknown =>
    rw [List.contains_iff_mem] at hunknown
    exact exists_repeated_follow consistent sound (AliasTrail.kept_start table walk first) halias
      hunknown

/-- All aliases that are visited are classified. -/
theorem exists_foldlM_visit (consistent : table.Consistent) (sound : walk.Sound table)
    {types : List DeclaredType} (aliases : ∀ type ∈ types, type ∈ table.aliases) :
    ∃ next, types.foldlM (visit table) walk = some next ∧ next.Sound table ∧
      walk.classified ⊆ next.classified ∧ ∀ type ∈ types, type.id ∈ next.classified := by
  induction types generalizing walk with
  | nil => exact ⟨walk, rfl, sound, List.Subset.refl _, nofun⟩
  | cons type types ih =>
    obtain ⟨htype, htypes⟩ := List.forall_mem_cons.mp aliases
    obtain ⟨middle, hvisit, hsound, hkept, hvisited⟩ := exists_visit consistent sound htype
    obtain ⟨next, hrest, hlast, hmore, hall⟩ := ih hsound htypes
    refine ⟨next, ?_, hlast, List.Subset.trans hkept hmore,
      List.forall_mem_cons.mpr ⟨hmore hvisited, hall⟩⟩
    rw [List.foldlM_cons, hvisit]
    exact hrest

end AliasWalk

/-! ### Listings of the cycles -/

namespace TypeTable

variable {table : TypeTable} {members others : List DeclaredType}
  {cycles again : List (List DeclaredType)} {problem : Problem}

/-- A list of all cycles, each of them once, turned in some way. -/
structure ListsCycles (table : TypeTable) (cycles : List (List DeclaredType)) : Prop where
  sound : ∀ members ∈ cycles, table.IsAliasCycle members
  disjoint : cycles.Pairwise List.Disjoint
  complete : ∀ members, table.IsAliasCycle members → ∃ cycle ∈ cycles, cycle ~r members

theorem Consistent.listsCycles_aliasCycles (h : table.Consistent) :
    table.ListsCycles table.aliasCycles :=
  ⟨fun _ hmem => (h.mem_aliasCycles.mp hmem).1, h.aliasCycles_disjoint,
    fun _ => h.exists_aliasCycles⟩

/-- The walk over the aliases ends, and finds every cycle once. -/
theorem Consistent.exists_aliasWalk (h : table.Consistent) :
    ∃ walk, AliasWalk.ofTable? table = some walk ∧ table.ListsCycles walk.cycles := by
  obtain ⟨walk, hwalk, hsound, -, hall⟩ :=
    AliasWalk.exists_foldlM_visit h (AliasWalk.sound_nil table) (fun _ hmem => hmem)
  refine ⟨walk, hwalk, hsound.cycles, hsound.disjoint, ?_⟩
  intro members hcycle
  obtain ⟨type, htype⟩ := List.exists_mem_of_ne_nil _ hcycle.nonempty
  exact hsound.found members hcycle type htype (hall type (hcycle.aliases htype))

/-- Wherever a cycle is entered, the problem with it is the same. -/
theorem Consistent.aliasCycleProblem?_eq_of_isRotated (h : table.Consistent)
    (cycle : table.IsAliasCycle members) (rotated : members ~r others) :
    aliasCycleProblem? members = aliasCycleProblem? others := by
  obtain ⟨_, hproblem, first, rest, rfl, hperm, hordered⟩ := h.aliasCycleProblem?_reports cycle
  obtain ⟨_, hother, second, tail, rfl, hagain, hsorted⟩ :=
    h.aliasCycleProblem?_reports (cycle.of_isRotated rotated)
  have hsame : (first :: rest).Perm (second :: tail) :=
    hperm.trans ((rotated.perm.map _).trans hagain.symm)
  rw [List.pairwise_map] at hordered hsorted
  -- members in the order of distinct names can be listed in one way only
  have heq : first :: rest = second :: tail :=
    hsame.eq_of_pairwise (fun a b _ _ hab hba => absurd hab (lt_asymm hba)) hordered hsorted
  obtain ⟨rfl, rfl⟩ := List.cons.inj heq
  rw [hproblem, hother]

/-- Cycles with the same problem have an alias in common. -/
theorem Consistent.exists_mem_of_problem (h : table.Consistent)
    (cycle : table.IsAliasCycle members) (hproblem : aliasCycleProblem? members = some problem)
    (other : table.IsAliasCycle others) (hsame : aliasCycleProblem? others = some problem) :
    ∃ type ∈ members, type ∈ others := by
  obtain ⟨_, hreported, first, rest, rfl, hperm, -⟩ := h.aliasCycleProblem?_reports cycle
  obtain ⟨_, hagain, second, tail, rfl, hturned, -⟩ := h.aliasCycleProblem?_reports other
  obtain ⟨rfl, rfl⟩ := Problem.aliasCycle.inj
    (Option.some.inj (hreported.symm.trans (hproblem.trans (hsame.symm.trans hagain))))
  obtain ⟨type, htype, hname⟩ := List.mem_map.mp (hperm.mem_iff.mp List.mem_cons_self)
  obtain ⟨found, hfound, hagain⟩ := List.mem_map.mp (hturned.mem_iff.mp List.mem_cons_self)
  have hnames : type.name = found.name := congrArg AliasMember.name (hname.trans hagain.symm)
  obtain rfl := h.alias_names (cycle.aliases htype) (other.aliases hfound) hnames
  exact ⟨type, htype, hfound⟩

theorem ListsCycles.nodup_problems (h : table.ListsCycles cycles) (consistent : table.Consistent) :
    (cycles.filterMap aliasCycleProblem?).Nodup := by
  rw [List.Nodup, List.pairwise_filterMap]
  refine h.disjoint.imp_of_mem fun {members others} hmembers hothers hdisjoint => ?_
  rintro problem hproblem _ hsame rfl
  obtain ⟨type, htype, hother⟩ := consistent.exists_mem_of_problem (h.sound members hmembers)
    hproblem (h.sound others hothers) hsame
  exact hdisjoint htype hother

theorem ListsCycles.mem_problems_iff (h : table.ListsCycles cycles)
    (consistent : table.Consistent) : problem ∈ cycles.filterMap aliasCycleProblem? ↔
      ∃ members, table.IsAliasCycle members ∧ aliasCycleProblem? members = some problem := by
  rw [List.mem_filterMap]
  constructor
  · rintro ⟨members, hmembers, hproblem⟩
    exact ⟨members, h.sound members hmembers, hproblem⟩
  · rintro ⟨members, hcycle, hproblem⟩
    obtain ⟨cycle, hmem, hrotated⟩ := h.complete members hcycle
    refine ⟨cycle, hmem, ?_⟩
    rw [consistent.aliasCycleProblem?_eq_of_isRotated (h.sound cycle hmem) hrotated, hproblem]

/-- However the cycles are listed, the problems with them are the same. -/
theorem ListsCycles.problems_perm (h : table.ListsCycles cycles) (consistent : table.Consistent)
    (hagain : table.ListsCycles again) :
    (cycles.filterMap aliasCycleProblem?).Perm (again.filterMap aliasCycleProblem?) := by
  refine (List.perm_ext_iff_of_nodup (h.nodup_problems consistent)
    (hagain.nodup_problems consistent)).mpr fun problem => ?_
  rw [h.mem_problems_iff consistent, hagain.mem_problems_iff consistent]

end TypeTable

end GraphSchema
