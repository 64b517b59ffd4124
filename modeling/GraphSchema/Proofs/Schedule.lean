import GraphSchema.Proofs.Abort
import GraphSchema.Proofs.Document.Accepted
import GraphSchema.Proofs.Registry.Apart

/-!
# The order in which diagnostics are noted

The diagnostics of a rejected source text are sorted by place and code only.  Still nothing depends
on the order in which they were noted (`Schema.Settled`, `Schema.check_settled`): no two of them
have the same place and the same code (`Schema.separate_recorded`), so there is only one way to put
them in order.  In particular the searches for cycles of aliases and of structs may run side by side
and note what they find in any order (`Interleaves`).
-/

namespace GraphSchema

/-! ### Rows that are noted side by side -/

/-- A row consists of the entries of two rows, each of which keeps its order. -/
inductive Interleaves {α : Type} : List α → List α → List α → Prop where
  | nil : Interleaves [] [] []
  | left {entry : α} {one other row : List α} : Interleaves one other row →
      Interleaves (entry :: one) other (entry :: row)
  | right {entry : α} {one other row : List α} : Interleaves one other row →
      Interleaves one (entry :: other) (entry :: row)

theorem Interleaves.perm {α : Type} {one other row : List α} (h : Interleaves one other row) :
    row.Perm (one ++ other) := by
  induction h with
  | nil => exact .nil
  | left _ ih => exact ih.cons _
  | right _ ih => exact (ih.cons _).trans List.perm_middle.symm

/-! ### Sorting what is told apart -/

namespace Diagnostic

/-- A diagnostic is at an earlier place than another one, or at the same place with an earlier
code. -/
def Precedes (a b : Diagnostic) : Prop :=
  a.position.index < b.position.index ∨
    a.position.index = b.position.index ∧ a.code.rank < b.code.rank

/-- Diagnostics of one file, no two of which have the same place and the same code. -/
structure Separate (file : Path) (diagnostics : List Diagnostic) : Prop where
  file : ∀ diagnostic ∈ diagnostics, diagnostic.position.file = file
  keys : (diagnostics.map fun diagnostic => (diagnostic.position.index, diagnostic.code)).Nodup

variable {file : Path} {diagnostics others : List Diagnostic}

theorem Separate.of_perm (h : Separate file diagnostics) (perm : others.Perm diagnostics) :
    Separate file others := by
  refine ⟨fun diagnostic hmem => h.file diagnostic (perm.mem_iff.mp hmem), ?_⟩
  exact (perm.map _).nodup_iff.mpr h.keys

theorem precedes_of_isLE {a b : Diagnostic} (file : a.position.file = b.position.file)
    (h : (compare a b).isLE = true)
    (different : (a.position.index, a.code) ≠ (b.position.index, b.code)) : Precedes a b := by
  have hsame : compare b.position.file b.position.file = .eq := Std.ReflCmp.compare_self
  have hcompare : compare a b =
      ((compare a.position.file b.position.file).then
        (compare a.position.index b.position.index)).then (compare a.code.rank b.code.rank) := rfl
  rw [hcompare, file, hsame] at h
  change ((compare a.position.index b.position.index).then
    (compare a.code.rank b.code.rank)).isLE = true at h
  rcases Nat.lt_trichotomy a.position.index b.position.index with hlt | heq | hgt
  · exact .inl hlt
  · refine .inr ⟨heq, ?_⟩
    have hcode : a.code.rank ≠ b.code.rank := by
      intro hrank
      exact different (Prod.ext heq (ErrorCode.rank_injective hrank))
    rw [heq, Nat.compare_eq_eq.mpr rfl] at h
    have hle : a.code.rank ≤ b.code.rank := Nat.isLE_compare.mp h
    omega
  · rw [Nat.compare_eq_gt.mpr hgt] at h
    cases h

theorem Precedes.asymm {a b : Diagnostic} (h : Precedes a b) : ¬ Precedes b a := by
  unfold Precedes at *
  omega

/-- Sorted diagnostics that are told apart stand in strict order. -/
theorem Separate.pairwise_sorted (h : Separate file diagnostics) :
    (sorted diagnostics).Pairwise Precedes := by
  have hsorted := h.of_perm (sorted_perm diagnostics)
  have hkeys := hsorted.keys
  rw [List.Nodup, List.pairwise_map] at hkeys
  refine ((Diagnostic.pairwise_sorted diagnostics).and hkeys).imp_of_mem ?_
  rintro a b ha hb ⟨hle, hne⟩
  exact precedes_of_isLE ((hsorted.file a ha).trans (hsorted.file b hb).symm) hle hne

/-- There is one way to sort diagnostics that are told apart. -/
theorem Separate.sorted_eq (h : Separate file diagnostics) (perm : others.Perm diagnostics) :
    sorted others = sorted diagnostics := by
  refine List.Perm.eq_of_pairwise ?_ (h.of_perm perm).pairwise_sorted h.pairwise_sorted
    ((sorted_perm others).trans (perm.trans (sorted_perm diagnostics).symm))
  intro a b _ _ hab hba
  exact absurd hba hab.asymm

end Diagnostic

/-! ### What is noted is told apart -/

/-- Problems that are told apart by place and code are told apart by the number of bytes before
them and their code, when their places are places of a source text. -/
theorem Apart.indices {problems : List Problem} {places : List Cursor} (h : Apart problems)
    (ascending : Ascending places) (among : ∀ problem ∈ problems, problem.position ∈ places) :
    (problems.map fun problem => (problem.position.index, problem.code)).Nodup := by
  have hinjective : ∀ place ∈ places, ∀ other ∈ places, place.index = other.index →
      place = other := by
    have hindices : (places.map Cursor.index).Nodup :=
      List.pairwise_map.mpr (ascending.imp fun hlt => Nat.ne_of_lt hlt)
    exact fun place hplace other hother => List.inj_on_of_nodup_map hindices hplace hother
  rw [List.Nodup, List.pairwise_map]
  refine (List.pairwise_map.mp h).imp_of_mem ?_
  intro problem other hproblem hother hne hsame
  obtain ⟨hindex, hcode⟩ := Prod.mk.inj hsame
  have hposition := hinjective _ (among problem hproblem) _ (among other hother) hindex
  exact hne (Prod.ext hposition hcode)

namespace Schema

variable {file : Path} {source : String}

/-- The diagnostics in the order in which they are noted. -/
def recorded (file : Path) (source : String) : List Diagnostic :=
  (problems (Reading.ofStream (stream file source))).map Problem.diagnostic

theorem separate_of_problems {problems : List Problem}
    (file_eq : ∀ problem ∈ problems, problem.position.file = file)
    (keys : (problems.map fun problem => (problem.position.index, problem.code)).Nodup) :
    Diagnostic.Separate file (problems.map Problem.diagnostic) := by
  refine ⟨?_, ?_⟩
  · intro diagnostic hmem
    obtain ⟨problem, hproblem, rfl⟩ := List.mem_map.mp hmem
    exact file_eq problem hproblem
  · rw [List.map_map]
    exact keys

/-- What shows while a document is read and what is wrong with it as a whole are told apart. -/
theorem separate_document {document : Document} (ascending : Ascending (starts document.tokens))
    (file_eq : ∀ place ∈ starts document.tokens, place.file = file) :
    Diagnostic.Separate file
      ((problems (.body document.header document.declarations none, none)).map
        Problem.diagnostic) := by
  have htokens : (Reading.body document.header document.declarations none).tokens =
      document.tokens := by
    simp [Reading.tokens, Document.tokens]
  have hshown : Apart (Reading.body document.header document.declarations none).problems := by
    apply Reading.problems_apart
    rw [htokens]
    exact ascending.nodup
  have hproblems : problems (.body document.header document.declarations none, none) =
      (Reading.body document.header document.declarations none).problems ++
        problemsOf document := rfl
  have hplaces : ∀ found ∈ problems (.body document.header document.declarations none, none),
      found.position ∈ starts document.tokens := by
    intro found hfound
    rw [hproblems, List.mem_append] at hfound
    rcases hfound with hfound | hfound
    · have hplace := Reading.problems_places hfound
      rwa [htokens] at hplace
    · exact problemsOf_position ascending.nodup hfound
  refine separate_of_problems (fun found hfound => file_eq _ (hplaces found hfound)) ?_
  refine Apart.indices ?_ ascending hplaces
  rw [hproblems]
  exact hshown.append (problemsOf_apart ascending.nodup) (Reading.problems_codes _)
    (problemsOf_codes document) (by decide)

/-- The problem that ended a reading is told apart from what showed before, which stands in front
of it. -/
theorem separate_fatal {reading : Reading} {problem : Problem}
    (ascending : Ascending (starts reading.tokens)) (file_eq : problem.position.file = file)
    (before : ∀ place ∈ starts reading.tokens,
      place.file = file ∧ place.index < problem.position.index) :
    Diagnostic.Separate file ((problems (reading, some problem)).map Problem.diagnostic) := by
  have hshown : ∀ found ∈ reading.problems,
      found.position.file = file ∧ found.position.index < problem.position.index :=
    fun found hfound => before _ (Reading.problems_places hfound)
  refine separate_of_problems ?_ ?_
  · intro found hfound
    rcases List.mem_append.mp hfound with hfound | hfound
    · exact (hshown found hfound).1
    · rw [List.mem_singleton.mp hfound]
      exact file_eq
  · rw [problems, List.map_append, List.nodup_append]
    refine ⟨(Reading.problems_apart ascending.nodup).indices ascending
      fun found hfound => Reading.problems_places hfound, List.nodup_singleton _, ?_⟩
    intro entry hentry last hlast hsame
    obtain ⟨found, hfound, rfl⟩ := List.mem_map.mp hentry
    rw [List.map_singleton, List.mem_singleton] at hlast
    have hindex : found.position.index = problem.position.index :=
      (Prod.mk.inj (hsame.trans hlast)).1
    exact Nat.ne_of_lt (hshown found hfound).2 hindex

/-- No two diagnostics of a source text have the same place and the same code. -/
theorem separate_recorded (file : Path) (source : String) :
    Diagnostic.Separate file (recorded file source) := by
  have hplaced : (stream file source).Placed file := TokenStream.placed_ofSource file source
  have hascending : Ascending (starts (stream file source).tokens) :=
    List.pairwise_map.mpr hplaced.ordered
  unfold recorded
  rcases Reading.ofStream_spec (stream file source) with
    ⟨-, document, -, htokens, hread⟩ |
    ⟨front, item, hoffence, reading, problem, hread, hfront, hposition⟩
  · rw [hread]
    rw [← htokens] at hascending
    refine separate_document hascending fun place hplace => ?_
    rw [htokens] at hplace
    obtain ⟨token, htoken, rfl⟩ := List.mem_map.mp hplace
    exact (hplaced.inside token htoken).1
  · obtain ⟨hitem, hbefore⟩ := hplaced.index_lt hoffence
    have htokens : reading.tokens = front := (Reading.reads_keeps hfront trivial).2
    rw [hread]
    rw [← hposition] at hitem hbefore
    rw [← htokens] at hbefore
    refine separate_fatal ?_ hitem fun place hplace => ?_
    · rw [htokens]
      exact hascending.sublist (hoffence.isPrefix.sublist.map _)
    · obtain ⟨token, htoken, rfl⟩ := List.mem_map.mp hplace
      exact hbefore token htoken

/-! ### Any order gives the same list -/

/-- The problems of a document, when the searches for cycles note theirs in a given order. -/
def scheduled (document : Document) (cycles : List Problem) : List Problem :=
  let registry := Registry.ofDeclarations document.declarations
  (Reading.body document.header document.declarations none).problems ++
    registry.undefinedProblems ++ cycles ++ registry.linked.unionProblems ++
    registry.linked.purityProblems ++ registry.linked.endpointProblems document.header

/-- When the searches note their cycles one after the other, the problems are in the usual order. -/
theorem scheduled_eq (document : Document) :
    let registry := (Registry.ofDeclarations document.declarations).linked
    scheduled document (registry.types.aliasCycleProblems ++ registry.structCycleProblems) =
      problems (.body document.header document.declarations none, none) := by
  simp [scheduled, problems, Reading.document?, problemsOf, Registry.problems]

theorem scheduled_perm {document : Document} {cycles others : List Problem}
    (h : cycles.Perm others) : (scheduled document cycles).Perm (scheduled document others) :=
  ((((h.append_left _).append_right _).append_right _).append_right _)

/-- The diagnostics of a source text are what was noted, in strict order, and they are the same in
whatever order that was noted. -/
structure Settled (file : Path) (source : String) (found : List Diagnostic) : Prop where
  perm : found.Perm (recorded file source)
  strict : found.Pairwise Diagnostic.Precedes
  /-- Every order gives the same list. -/
  unordered : ∀ others, others.Perm (recorded file source) → Diagnostic.sorted others = found
  /-- So does every order in which the searches for cycles, side by side, note what they find. -/
  scheduled : ∀ document, (stream file source).Spells document → ∀ cycles,
    Interleaves (Registry.ofDeclarations document.declarations).linked.types.aliasCycleProblems
      (Registry.ofDeclarations document.declarations).linked.structCycleProblems cycles →
    Diagnostic.ofProblems (scheduled document cycles) = found

/-- The diagnostics of a rejected source text have no duplicates, and the order in which they are
noted does not matter. -/
theorem check_settled {file : Path} {source : String} {found : List Diagnostic}
    (rejected : (check file source).model = .error found) : Settled file source found := by
  have hseparate := separate_recorded file source
  have hfound : Diagnostic.sorted (recorded file source) = found := by
    have hdiagnostics : (check file source).diagnostics = found := by
      rw [Checked.diagnostics, rejected]
    rw [← hdiagnostics, check, diagnostics_outcome]
    rfl
  have hunordered (others : List Diagnostic) (perm : others.Perm (recorded file source)) :
      Diagnostic.sorted others = found := (hseparate.sorted_eq perm).trans hfound
  refine ⟨?_, ?_, hunordered, ?_⟩
  · rw [← hfound]
    exact Diagnostic.sorted_perm _
  · rw [← hfound]
    exact hseparate.pairwise_sorted
  · intro document hspells cycles hcycles
    refine hunordered _ ?_
    rw [recorded, Reading.ofStream_of_grammatical hspells.lexes hspells.grammatical hspells.tokens,
      ← scheduled_eq]
    exact (scheduled_perm hcycles.perm).map _

/-- A cycle of aliases, a cycle of structs and a type that is not declared. -/
theorem check_settled_cycles : ∃ found,
    (check default "schema s alias A = B alias B = A struct S \x7b f S g T \x7d").model =
      .error found ∧
    Settled default "schema s alias A = B alias B = A struct S \x7b f S g T \x7d" found := by
  have hnone : (check default "schema s alias A = B alias B = A struct S \x7b f S g T \x7d"
      ).model.toOption.isNone = true := by
    decide +kernel
  cases hrejected : (check default
      "schema s alias A = B alias B = A struct S \x7b f S g T \x7d").model with
  | ok model =>
    rw [hrejected] at hnone
    cases hnone
  | error found => exact ⟨found, rfl, check_settled hrejected⟩

end Schema

end GraphSchema
