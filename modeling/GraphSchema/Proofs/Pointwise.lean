import Mathlib.Data.List.Forall2

/-!
# Lists that agree entry by entry

What follows for the entries of two lists if a relation holds between the entries at each place.
-/

namespace GraphSchema

section

variable {α β γ δ : Type} {Agree : α → β → Prop} {entries : List α} {others : List β}

theorem exists_left_of_forall₂ (h : List.Forall₂ Agree entries others) {other : β}
    (hother : other ∈ others) : ∃ entry ∈ entries, Agree entry other := by
  induction h with
  | nil => cases hother
  | cons hfirst _ ih =>
    rcases List.mem_cons.mp hother with rfl | hother
    · exact ⟨_, List.mem_cons_self .., hfirst⟩
    · obtain ⟨entry, hentry, hagree⟩ := ih hother
      exact ⟨entry, List.mem_cons_of_mem _ hentry, hagree⟩

theorem exists_right_of_forall₂ (h : List.Forall₂ Agree entries others) {entry : α}
    (hentry : entry ∈ entries) : ∃ other ∈ others, Agree entry other := by
  induction h with
  | nil => cases hentry
  | cons hfirst _ ih =>
    rcases List.mem_cons.mp hentry with rfl | hentry
    · exact ⟨_, List.mem_cons_self .., hfirst⟩
    · obtain ⟨other, hother, hagree⟩ := ih hentry
      exact ⟨other, List.mem_cons_of_mem _ hother, hagree⟩

/-- Entries that agree have the same images if related entries have. -/
theorem map_eq_map_of_forall₂ (h : List.Forall₂ Agree entries others) {left : α → γ} {right : β → γ}
    (same : ∀ entry other, Agree entry other → left entry = right other) :
    entries.map left = others.map right := by
  induction h with
  | nil => rfl
  | cons hfirst _ ih => rw [List.map_cons, List.map_cons, same _ _ hfirst, ih]

/-- Lists with the same images agree in the images of their entries. -/
theorem forall₂_of_map_eq_map {left : α → γ} {right : β → γ}
    (h : entries.map left = others.map right) :
    List.Forall₂ (fun entry other => left entry = right other) entries others := by
  rw [← List.forall₂_eq_eq_eq] at h
  rwa [List.forall₂_map_left_iff, List.forall₂_map_right_iff] at h

theorem exists_of_map_eq_map {left : α → γ} {right : β → γ}
    (h : entries.map left = others.map right) {entry : α} (hentry : entry ∈ entries) :
    ∃ other ∈ others, left entry = right other :=
  exists_right_of_forall₂ (forall₂_of_map_eq_map h) hentry

/-- Entries that agree have the same parts if related entries have. -/
theorem filterMap_eq_filterMap_of_forall₂ (h : List.Forall₂ Agree entries others)
    {left : α → Option γ} {right : β → Option γ}
    (same : ∀ entry other, Agree entry other → left entry = right other) :
    entries.filterMap left = others.filterMap right := by
  induction h with
  | nil => rfl
  | cons hfirst _ ih => rw [List.filterMap_cons, List.filterMap_cons, same _ _ hfirst, ih]

/-- The same for entries that are found first. -/
theorem map_filterMap_eq_map_of_forall₂ {find : β → Option δ} {left : δ → γ} {right : α → γ}
    (h : List.Forall₂ (fun entry other => ∃ found, find other = some found ∧
      left found = right entry) entries others) :
    (others.filterMap find).map left = entries.map right := by
  induction h with
  | nil => rfl
  | cons hfirst _ ih =>
    obtain ⟨found, hfound, hsame⟩ := hfirst
    rw [List.filterMap_cons_some hfound, List.map_cons, List.map_cons, hsame, ih]

/-- A relation may be replaced by one that follows for the entries of the lists. -/
theorem forall₂_imp_of_mem {Other : α → β → Prop} (h : List.Forall₂ Agree entries others)
    (imp : ∀ entry ∈ entries, ∀ other ∈ others, Agree entry other → Other entry other) :
    List.Forall₂ Other entries others := by
  induction h with
  | nil => exact .nil
  | cons hfirst _ ih =>
    refine .cons (imp _ (List.mem_cons_self ..) _ (List.mem_cons_self ..) hfirst) (ih ?_)
    intro entry hentry other hother
    exact imp entry (List.mem_cons_of_mem _ hentry) other (List.mem_cons_of_mem _ hother)

/-- A function that gives something for every entry of a list. -/
theorem forall₂_filterMap {select : α → Option β}
    (h : ∀ entry ∈ entries, ∃ other, select entry = some other ∧ Agree entry other) :
    List.Forall₂ Agree entries (entries.filterMap select) := by
  induction entries with
  | nil => exact .nil
  | cons first rest ih =>
    obtain ⟨other, hother, hagree⟩ := h first (List.mem_cons_self ..)
    rw [List.filterMap_cons_some hother]
    exact .cons hagree (ih fun entry hentry => h entry (List.mem_cons_of_mem _ hentry))

end

end GraphSchema
