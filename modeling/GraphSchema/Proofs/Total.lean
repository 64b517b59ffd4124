import GraphSchema.Total

/-!
# Comparing totals
-/

namespace GraphSchema

section

variable {α : Type} {quantity other : α → Nat} {entries : List α}

/-- A total grows with its terms. -/
theorem total_le_total (h : ∀ entry ∈ entries, quantity entry ≤ other entry) :
    total quantity entries ≤ total other entries := by
  induction entries with
  | nil => exact Nat.le_refl _
  | cons entry entries ih =>
    have hfirst := h entry (List.mem_cons_self ..)
    have hrest := ih fun entry hentry => h entry (List.mem_cons_of_mem _ hentry)
    rw [total_cons, total_cons]
    omega

/-- A total grows by as much as one of its terms at least. -/
theorem total_add_le_total {member : α} {amount : Nat} (hmember : member ∈ entries)
    (more : quantity member + amount ≤ other member)
    (h : ∀ entry ∈ entries, quantity entry ≤ other entry) :
    total quantity entries + amount ≤ total other entries := by
  induction entries with
  | nil => cases hmember
  | cons entry entries ih =>
    have hrest : ∀ entry ∈ entries, quantity entry ≤ other entry :=
      fun entry hentry => h entry (List.mem_cons_of_mem _ hentry)
    rw [total_cons, total_cons]
    rcases List.mem_cons.mp hmember with rfl | hmember
    · have hle := total_le_total hrest
      omega
    · have hfirst := h entry (List.mem_cons_self ..)
      have hle := ih hmember hrest
      omega

theorem total_add (entries : List α) :
    total (fun entry => quantity entry + other entry) entries =
      total quantity entries + total other entries := by
  induction entries with
  | nil => rfl
  | cons entry rest ih =>
    rw [total_cons, total_cons, total_cons, ih]
    omega

theorem length_eq_total (entries : List α) : entries.length = total (fun _ => 1) entries := by
  induction entries with
  | nil => rfl
  | cons entry rest ih => rw [List.length_cons, total_cons, ih, Nat.add_comm]

theorem length_flatMap_eq_total {β : Type} (row : α → List β) (entries : List α) :
    (entries.flatMap row).length = total (fun entry => (row entry).length) entries := by
  induction entries with
  | nil => rfl
  | cons entry rest ih => rw [List.flatMap_cons, List.length_append, total_cons, ih]

theorem total_map {β : Type} (f : β → α) (entries : List β) :
    total quantity (entries.map f) = total (fun entry => quantity (f entry)) entries := by
  induction entries with
  | nil => rfl
  | cons entry rest ih => rw [List.map_cons, total_cons, total_cons, ih]

end

end GraphSchema
