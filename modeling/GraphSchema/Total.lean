/-!
# Totals

The sum of a quantity over the entries of a list, for bounds and for the numbers in a summary.
-/

namespace GraphSchema

/-- The sum of what a function gives for the entries of a list. -/
def total {α : Type} (quantity : α → Nat) : List α → Nat
  | [] => 0
  | entry :: rest => quantity entry + total quantity rest

@[simp]
theorem total_nil {α : Type} (quantity : α → Nat) : total quantity [] = 0 := rfl

@[simp]
theorem total_cons {α : Type} (quantity : α → Nat) (entry : α) (rest : List α) :
    total quantity (entry :: rest) = quantity entry + total quantity rest := rfl

@[simp]
theorem total_append {α : Type} (quantity : α → Nat) (front back : List α) :
    total quantity (front ++ back) = total quantity front + total quantity back := by
  induction front with
  | nil => simp
  | cons entry front ih => simp [ih, Nat.add_assoc]

end GraphSchema
