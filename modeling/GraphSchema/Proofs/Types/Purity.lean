import GraphSchema.Proofs.Total
import GraphSchema.Proofs.Types.Targets

/-!
# Purity

The search for impure types visits everything that a type refers to.  A type that is found impure is
reached from the first one (`TypeTable.exists_impure_of_pureWithin`).  Conversely the references of
the types that were visited are visited or pending, and each look at a pending type lowers the
number of references that can still become pending, so a search that finds nothing has visited all
that can be reached (`TypeTable.pure_of_pureWithin`).
-/

namespace GraphSchema.TypeTable

open Relation

variable {table : TypeTable}

/-- A type decides with another one whether that is pure. -/
def Refers (table : TypeTable) (id next : TypeId) : Prop :=
  next ∈ table.purityReferences id

/-- Every type that is found impure is reached from a pending one. -/
theorem exists_impure_of_pureWithin {steps : Nat} {visited pending : List TypeId}
    (h : table.pureWithin steps visited pending = false) :
    ∃ id ∈ pending, ∃ last, ReflTransGen table.Refers id last ∧ table.isImpure last = true := by
  induction steps generalizing visited pending with
  | zero => cases h
  | succ steps ih =>
    cases pending with
    | nil => cases h
    | cons id pending =>
      rw [pureWithin] at h
      by_cases hvisited : id ∈ visited
      · rw [if_pos hvisited] at h
        obtain ⟨other, hother, hreaches⟩ := ih h
        exact ⟨other, List.mem_cons_of_mem _ hother, hreaches⟩
      · rw [if_neg hvisited] at h
        by_cases himpure : table.isImpure id = true
        · exact ⟨id, List.mem_cons_self .., id, .refl, himpure⟩
        · rw [if_neg himpure] at h
          obtain ⟨other, hother, last, hreaches, hlast⟩ := ih h
          rcases List.mem_append.mp hother with hreference | hpending
          · exact ⟨id, List.mem_cons_self .., last, .head hreference hreaches, hlast⟩
          · exact ⟨other, List.mem_cons_of_mem _ hpending, last, hreaches, hlast⟩

/-- The number of references of the types that were not visited. -/
def unvisited (table : TypeTable) (visited : List TypeId) : Nat :=
  total (fun type => if type.id ∈ visited then 0 else type.purityReferences.length) table.types

/-- The references of a type that is visited need not be counted any more. -/
theorem Consistent.unvisited_cons (h : table.Consistent) {visited : List TypeId} {id : TypeId}
    (new : id ∉ visited) :
    table.unvisited (id :: visited) + (table.purityReferences id).length ≤
      table.unvisited visited := by
  have hless : ∀ type ∈ table.types,
      (if type.id ∈ id :: visited then 0 else type.purityReferences.length) ≤
        if type.id ∈ visited then 0 else type.purityReferences.length := by
    intro type _
    by_cases hvisited : type.id ∈ visited
    · rw [if_pos (List.mem_cons_of_mem _ hvisited)]
      exact Nat.zero_le _
    · rw [if_neg hvisited]
      split
      · exact Nat.zero_le _
      · exact Nat.le_refl _
  unfold purityReferences
  cases htype : table.type? id with
  | none => exact total_le_total hless
  | some type =>
    obtain ⟨hmem, rfl⟩ := h.type?_eq_some_iff.mp htype
    refine total_add_le_total hmem ?_ hless
    rw [if_pos (List.mem_cons_self ..), if_neg new]
    exact Nat.le_of_eq (Nat.zero_add _)

/-- The references of visited types are visited or pending, and no visited type is impure. -/
structure Explored (table : TypeTable) (visited pending : List TypeId) : Prop where
  references : ∀ id ∈ visited, ∀ next, table.Refers id next → next ∈ visited ∨ next ∈ pending
  pure : ∀ id ∈ visited, table.isImpure id = false

/-- If nothing is pending, only visited types can be reached. -/
theorem Explored.reaches {visited : List TypeId} (h : table.Explored visited []) {id last : TypeId}
    (hid : id ∈ visited) (hreaches : ReflTransGen table.Refers id last) : last ∈ visited := by
  induction hreaches with
  | refl => exact hid
  | tail _ hstep ih =>
    rcases h.references _ ih _ hstep with hvisited | hpending
    · exact hvisited
    · cases hpending

/-- If nothing is pending, nothing impure can be reached. -/
theorem Explored.pure_of_reaches {visited : List TypeId} (h : table.Explored visited [])
    {id last : TypeId} (hid : id ∈ visited ∨ id ∈ ([] : List TypeId))
    (hreaches : ReflTransGen table.Refers id last) : table.isImpure last = false := by
  rcases hid with hid | hid
  · exact h.pure last (h.reaches hid hreaches)
  · cases hid

/-- What is visited or pending stays so when a pending type is skipped that was visited before. -/
theorem mem_skip {visited pending : List TypeId} {id other : TypeId} (hid : id ∈ visited)
    (h : other ∈ visited ∨ other ∈ id :: pending) : other ∈ visited ∨ other ∈ pending := by
  rcases h with hvisited | hpending
  · exact .inl hvisited
  · rcases List.mem_cons.mp hpending with rfl | hpending
    · exact .inl hid
    · exact .inr hpending

/-- What is visited or pending stays so when a pending type is visited. -/
theorem mem_visit {visited pending references : List TypeId} {id other : TypeId}
    (h : other ∈ visited ∨ other ∈ id :: pending) :
    other ∈ id :: visited ∨ other ∈ references ++ pending := by
  rcases h with hvisited | hpending
  · exact .inl (List.mem_cons_of_mem _ hvisited)
  · rcases List.mem_cons.mp hpending with rfl | hpending
    · exact .inl (List.mem_cons_self ..)
    · exact .inr (List.mem_append_right _ hpending)

theorem Explored.skip {visited pending : List TypeId} {id : TypeId}
    (h : table.Explored visited (id :: pending)) (hid : id ∈ visited) :
    table.Explored visited pending := by
  refine ⟨?_, h.pure⟩
  intro other hother next hnext
  exact mem_skip hid (h.references other hother next hnext)

theorem Explored.visit {visited pending : List TypeId} {id : TypeId}
    (h : table.Explored visited (id :: pending)) (pure : table.isImpure id = false) :
    table.Explored (id :: visited) (table.purityReferences id ++ pending) := by
  refine ⟨?_, ?_⟩
  · intro other hother next hnext
    rcases List.mem_cons.mp hother with rfl | hother
    · -- the references of the visited type are pending from now on
      exact .inr (List.mem_append_left _ hnext)
    · exact mem_visit (h.references other hother next hnext)
  · intro other hother
    rcases List.mem_cons.mp hother with rfl | hother
    · exact pure
    · exact h.pure other hother

/-- A search that finds nothing impure has visited everything that can be reached. -/
theorem Consistent.pure_of_pureWithin (h : table.Consistent) {steps : Nat}
    {visited pending : List TypeId} (explored : table.Explored visited pending)
    (enough : pending.length + table.unvisited visited ≤ steps)
    (hpure : table.pureWithin steps visited pending = true) {id last : TypeId}
    (hid : id ∈ visited ∨ id ∈ pending) (hreaches : ReflTransGen table.Refers id last) :
    table.isImpure last = false := by
  induction steps generalizing visited pending with
  | zero =>
    have hnone : pending = [] := List.eq_nil_of_length_eq_zero (by omega)
    subst hnone
    exact explored.pure_of_reaches hid hreaches
  | succ steps ih =>
    cases pending with
    | nil => exact explored.pure_of_reaches hid hreaches
    | cons first pending =>
      rw [pureWithin] at hpure
      rw [List.length_cons] at enough
      by_cases hvisited : first ∈ visited
      · rw [if_pos hvisited] at hpure
        exact ih (explored.skip hvisited) (by omega) hpure (mem_skip hvisited hid)
      · rw [if_neg hvisited] at hpure
        by_cases himpure : table.isImpure first = true
        · rw [if_pos himpure] at hpure
          cases hpure
        · rw [if_neg himpure] at hpure
          -- what becomes pending is no longer counted among the unvisited
          have hfewer := h.unvisited_cons hvisited
          refine ih (explored.visit (Bool.eq_false_iff.mpr himpure)) ?_ hpure (mem_visit hid)
          rw [List.length_append]
          omega

/-- A type is pure if and only if nothing impure can be reached from it. -/
theorem Consistent.isPure_eq_true_iff (h : table.Consistent) {id : TypeId} :
    table.isPure id = true ↔
      ∀ last, ReflTransGen table.Refers id last → table.isImpure last = false := by
  constructor
  · intro hpure last hreaches
    have hnew : table.Explored [] [id] := by
      refine ⟨?_, ?_⟩
      · intro other hother
        cases hother
      · intro other hother
        cases hother
    have hcount :
        table.unvisited [] = total (fun type => type.purityReferences.length) table.types := rfl
    refine h.pure_of_pureWithin hnew ?_ hpure (.inr (List.mem_singleton.mpr rfl)) hreaches
    rw [hcount, purityBound, List.length_singleton]
    exact Nat.le_succ _
  · intro hall
    by_contra hpure
    obtain ⟨first, hfirst, last, hreaches, himpure⟩ :=
      exists_impure_of_pureWithin (Bool.eq_false_iff.mpr hpure)
    obtain rfl := List.mem_singleton.mp hfirst
    rw [hall last hreaches] at himpure
    cases himpure

end GraphSchema.TypeTable
