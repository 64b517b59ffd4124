import GraphSchema.Analysis.StructCycle
import GraphSchema.Proofs.Lookup
import Mathlib.Data.List.Cycle
import Mathlib.Data.String.Basic
import Mathlib.Order.Compare

/-!
# Turning cycles

A cycle is reported from the struct whose name comes first.  Turning a row of links rotates it so
that a least link comes first (`ContainmentWalk.turned_spec`), and if the structs are distinct, it
does not matter where the row began (`ContainmentWalk.turned_eq_of_isRotated`).
-/

namespace GraphSchema.ContainmentWalk

theorem isLeast_iff {links : List StructLink} {link : StructLink} :
    isLeast links link = true ↔ ∀ other ∈ links, link.structName ≤ other.structName := by
  have hcompare (a b : String) : (compare a b).isLE = true ↔ a ≤ b := Std.LawfulBCmp.isLE_iff_le
  simp [isLeast, hcompare]

/-- Some link of a row comes first by name. -/
theorem exists_isLeast {links : List StructLink} (h : links ≠ []) :
    ∃ link ∈ links, isLeast links link = true := by
  induction links with
  | nil => exact absurd rfl h
  | cons first links ih =>
    by_cases hempty : links = []
    · refine ⟨first, List.mem_cons_self .., isLeast_iff.mpr ?_⟩
      rw [hempty]
      intro other hother
      rw [List.mem_singleton.mp hother]
    · obtain ⟨least, hmem, hleast⟩ := ih hempty
      have hall := isLeast_iff.mp hleast
      rcases le_total first.structName least.structName with hle | hle
      · refine ⟨first, List.mem_cons_self .., isLeast_iff.mpr ?_⟩
        intro other hother
        rcases List.mem_cons.mp hother with rfl | hother
        · exact le_rfl
        · exact hle.trans (hall other hother)
      · refine ⟨least, List.mem_cons_of_mem _ hmem, isLeast_iff.mpr ?_⟩
        intro other hother
        rcases List.mem_cons.mp hother with rfl | hother
        · exact hle
        · exact hall other hother

/-- Turning a row of links rotates it so that a least link comes first. -/
theorem turned_spec {links : List StructLink} (h : links ≠ []) :
    ∃ first others, turned links = first :: others ∧ links ~r turned links ∧
      ∀ other ∈ links, first.structName ≤ other.structName := by
  obtain ⟨before, first, after, hlinks, hleast, hbefore⟩ := exists_first (exists_isLeast h)
  have hturned : turned links = first :: after ++ before := by
    unfold turned
    dsimp only
    rw [hbefore]
    nth_rewrite 1 [hlinks]
    rw [List.drop_left]
  refine ⟨first, after ++ before, hturned, ?_, isLeast_iff.mp hleast⟩
  rw [hturned, hlinks]
  exact List.isRotated_append

/-- Rotations of a row without repetitions that begin alike are alike. -/
theorem eq_of_isRotated_cons {α : Type} {first : α} {others rest : List α}
    (h : (first :: others) ~r (first :: rest)) (distinct : (first :: others).Nodup) :
    others = rest := by
  obtain ⟨count, hcount⟩ := h
  have hlt : count % (first :: others).length < (first :: others).length :=
    Nat.mod_lt _ (Nat.succ_pos _)
  have hhead : (first :: others)[0] = (first :: others)[count % (first :: others).length] := by
    have hget := List.getElem_rotate (first :: others) count 0 (by simp)
    simp only [hcount, Nat.zero_add] at hget
    exact hget
  have hzero : 0 = count % (first :: others).length := distinct.getElem_inj_iff.mp hhead
  rw [← List.rotate_mod, ← hzero, List.rotate_zero] at hcount
  exact (List.cons.inj hcount).2

/-- Wherever a row of links of distinct structs begins, turning it gives the same. -/
theorem turned_eq_of_isRotated {links others : List StructLink} (h : links ~r others)
    (distinct : (links.map StructLink.structName).Nodup) : turned links = turned others := by
  by_cases hempty : links = []
  · rw [hempty] at h
    rw [hempty, List.isRotated_nil_iff'.mp h]
  · have hothers : others ≠ [] := by
      intro hnil
      rw [hnil] at h
      exact hempty (List.isRotated_nil_iff.mp h)
    obtain ⟨first, rest, hfirst, hrotated, hleast⟩ := turned_spec hempty
    obtain ⟨second, tail, hsecond, hturned, hless⟩ := turned_spec hothers
    have hfirstMem : first ∈ links :=
      hrotated.mem_iff.mpr (by rw [hfirst]; exact List.mem_cons_self ..)
    have hsecondMem : second ∈ others :=
      hturned.mem_iff.mpr (by rw [hsecond]; exact List.mem_cons_self ..)
    -- both begin with the least link, and there is only one
    have hname : first.structName = second.structName :=
      le_antisymm (hleast second (h.mem_iff.mpr hsecondMem)) (hless first (h.mem_iff.mp hfirstMem))
    have hsame : first = second :=
      List.inj_on_of_nodup_map distinct hfirstMem (h.mem_iff.mpr hsecondMem) hname
    have hall : (first :: rest) ~r (first :: tail) := by
      have hchain := hrotated.symm.trans (h.trans hturned)
      rw [hfirst, hsecond, ← hsame] at hchain
      exact hchain
    have hnodup : (first :: rest).Nodup := by
      rw [← hfirst]
      exact hrotated.nodup_iff.mp distinct.of_map
    rw [hfirst, hsecond, ← hsame, eq_of_isRotated_cons hall hnodup]

end GraphSchema.ContainmentWalk
