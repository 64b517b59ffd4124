import GraphSchema.Diagnostic.Problem
import GraphSchema.Proofs.Lookup

/-!
# Sorted diagnostics

Places and codes, and so diagnostics, are compared by keys that are compared one after the other.
Hence diagnostics can be sorted, and sorting puts them in order (`Diagnostic.pairwise_sorted`).  One
that stands behind all others comes last (`Diagnostic.sorted_concat`).
-/

namespace GraphSchema

/-! ### Orders -/

instance : Std.TransOrd PathComponent :=
  inferInstanceAs (Std.TransCmp
    (compareLex (compareOn PathComponent.rank) (compareOn PathComponent.label)))

instance : Std.TransOrd Path :=
  inferInstanceAs (Std.TransCmp (compareOn Path.components))

instance : Std.TransOrd Cursor :=
  inferInstanceAs (Std.TransCmp (compareLex (compareOn Cursor.file) (compareOn Cursor.index)))

instance : Std.TransOrd ErrorCode :=
  inferInstanceAs (Std.TransCmp (compareOn ErrorCode.rank))

instance : Std.TransOrd Diagnostic :=
  inferInstanceAs (Std.TransCmp
    (compareLex (compareOn Diagnostic.position) (compareOn Diagnostic.code)))

/-- In one file a place stands in front of another one if there are fewer bytes before it. -/
theorem Cursor.compare_eq_lt {a b : Cursor} (file : a.file = b.file) (index : a.index < b.index) :
    compare a b = .lt := by
  have hsame : compare b.file b.file = .eq := Std.ReflCmp.compare_self
  show (compare a.file b.file).then (compare a.index b.index) = .lt
  rw [file, hsame]
  exact Nat.compare_eq_lt.mpr index

namespace Diagnostic

theorem compare_eq_lt {a b : Diagnostic} (position : compare a.position b.position = .lt) :
    compare a b = .lt := by
  show (compare a.position b.position).then (compare a.code b.code) = .lt
  rw [position]
  rfl

/-! ### Sorting -/

/-- Sorting loses no diagnostic and adds none. -/
theorem sorted_perm (diagnostics : List Diagnostic) : (sorted diagnostics).Perm diagnostics :=
  List.mergeSort_perm diagnostics _

/-- Sorted diagnostics stand in order. -/
theorem pairwise_sorted (diagnostics : List Diagnostic) :
    (sorted diagnostics).Pairwise fun a b => (compare a b).isLE = true :=
  pairwise_mergeSort_key id diagnostics

/-- What stands behind all other diagnostics comes last. -/
theorem sorted_concat {diagnostics : List Diagnostic} {last : Diagnostic}
    (behind : ∀ diagnostic ∈ diagnostics, compare diagnostic last = .lt) :
    ∃ others, sorted (diagnostics ++ [last]) = others ++ [last] ∧ others.Perm diagnostics := by
  have hperm := sorted_perm (diagnostics ++ [last])
  have hordered := pairwise_sorted (diagnostics ++ [last])
  have hlast : last ∈ sorted (diagnostics ++ [last]) :=
    hperm.mem_iff.mpr (List.mem_append_right _ (List.mem_singleton.mpr rfl))
  obtain ⟨others, back, hsorted⟩ := List.append_of_mem hlast
  rw [hsorted] at hperm hordered
  have hothers : (others ++ back).Perm diagnostics :=
    (List.perm_middle.symm.trans (hperm.trans (List.perm_append_singleton _ _))).cons_inv
  have hnone : back = [] := by
    refine List.eq_nil_iff_forall_not_mem.mpr fun diagnostic hdiagnostic => ?_
    have hle := (List.pairwise_cons.mp (List.pairwise_append.mp hordered).2.1).1 _ hdiagnostic
    have hlt := behind diagnostic (hothers.mem_iff.mp (List.mem_append_right _ hdiagnostic))
    rw [Std.OrientedCmp.gt_of_lt hlt] at hle
    cases hle
  rw [hnone, List.append_nil] at hothers
  exact ⟨others, by rw [hsorted, hnone], hothers⟩

end Diagnostic

end GraphSchema
