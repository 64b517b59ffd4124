import GraphSchema.Proofs.Registry.Settled

/-!
# What is reported about references

In a schema that is read to its end the references of what is kept are resolved exactly as far as
their names are defined anywhere in the document, and each of the others is reported once, at its
name (`Schema.check_resolution`).  References in declarations, members and options that are left out
are neither resolved nor reported, and a reference whose name is not defined forms no container.
-/

namespace GraphSchema

/-- The references that are kept and whose name is not defined. -/
def Document.undefinedReferences (declarations : List Declaration) : List Designation :=
  ((kept declarations).flatMap Declaration.references).filter fun reference =>
    ¬ Defines declarations reference.terminal

/-- What is reported about a reference whose name is not defined. -/
def Designation.undefinedReport (reference : Designation) : Problem :=
  .typeUndefined reference.terminal reference.terminalPosition

/-- A registry holds what is kept, its references are settled, and containers are formed for the
parts of those that are resolved and of no others. -/
structure Registry.ResolvesKept (declarations : List Declaration) (registry : Registry) :
    Prop where
  records : Records (Document.kept declarations) registry
  settled : registry.Settled declarations
  formed : ∀ container ∈ registry.types.containers,
    ∃ reference ∈ (Document.kept declarations).flatMap Declaration.references,
      Document.Defines declarations reference.terminal ∧ reference.HasPart container.designation
  unformed : ∀ reference ∈ Document.undefinedReferences declarations,
    ∀ container ∈ registry.types.containers, ¬ reference.HasPart container.designation

namespace Registry

variable {declarations : List Declaration}

theorem resolvesKept_linked (names : PlainNames declarations)
    (plain : PlainReferences declarations) :
    (ofDeclarations declarations).linked.ResolvesKept declarations := by
  have hlinked := records_kept_linked declarations
  refine ⟨hlinked, settled_linked names plain, ?_, ?_⟩
  · intro container hcontainer
    obtain ⟨reference, hreference, hknown, hpart⟩ := linked_containers
      (consistent_ofDeclarations declarations) (containers_ofDeclarations declarations) hcontainer
    rw [(records_kept declarations).references] at hreference
    exact ⟨reference, hreference, (Document.defines_kept_iff _).mp
      ((hlinked.isSome_named?_iff (consistent_linked declarations) _).mp hknown), hpart⟩
  · intro reference hreference container hcontainer hpart
    obtain ⟨hmem, hundefined⟩ := List.mem_filter.mp hreference
    exact of_decide_eq_true hundefined
      ((exists_container_iff plain hmem hpart).mp ⟨container, hcontainer, rfl⟩)

/-- The references whose name is not found are those that are kept and whose name is not defined. -/
theorem undefinedProblems_ofDeclarations (declarations : List Declaration) :
    (ofDeclarations declarations).undefinedProblems =
      (Document.undefinedReferences declarations).map Designation.undefinedReport := by
  have hrecords := records_kept declarations
  rw [undefinedProblems, hrecords.references, Document.undefinedReferences,
    ← List.filterMap_eq_map, List.filterMap_filter]
  refine List.filterMap_congr fun reference _ => ?_
  have hdefines := (hrecords.isSome_named?_iff (consistent_ofDeclarations declarations)
    reference.terminal).trans (Document.defines_kept_iff reference.terminal)
  cases hnamed : (ofDeclarations declarations).types.named? reference.terminal with
  | some type =>
    have hdefined := hdefines.mp (by rw [hnamed]; rfl)
    exact (if_neg (by simpa using hdefined)).symm
  | none =>
    have hundefined : ¬ Document.Defines declarations reference.terminal := by
      rw [← hdefines, hnamed]
      exact Bool.false_ne_true
    exact (if_pos (by simpa using hundefined)).symm

end Registry

namespace Schema

/-- Of all problems of a document only names that are not defined have their code. -/
theorem filter_problems_typeUndef (document : Document) :
    ((Reading.body document.header document.declarations none).problems ++
        problemsOf document).filter (fun problem => problem.code == .typeUndef) =
      (Registry.ofDeclarations document.declarations).undefinedProblems := by
  have hpart : (problemParts document).filter (fun part => ErrorCode.typeUndef ∈ part.1) =
      [([.typeUndef], (Registry.ofDeclarations document.declarations).undefinedProblems)] := rfl
  rw [filter_problemParts, hpart, List.flatMap_singleton,
    (Registry.undefinedProblems_codes _).filter_eq_self]

/-- In a schema that is read to its end every reference that is kept is resolved if and only if its
name is defined, to what the first declaration of the name declares.  The others are reported once
each, at their names, and nothing else is reported with their code. -/
theorem check_resolution {file : Path} {source : String} (scans : (check file source).fatal = []) :
    ∃ document, (stream file source).Spells document ∧
      (Registry.ofDeclarations document.declarations).linked.ResolvesKept document.declarations ∧
      ((check file source).diagnostics.filter fun diagnostic => diagnostic.code == .typeUndef).Perm
        ((Document.undefinedReferences document.declarations).map fun reference =>
          reference.undefinedReport.diagnostic) := by
  obtain ⟨document, hspells⟩ := exists_spells_of_scans scans
  refine ⟨document, hspells,
    Registry.resolvesKept_linked hspells.plainNames hspells.plainName, ?_⟩
  have hperm := filter_diagnostics hspells .typeUndef
  rwa [filter_problems_typeUndef, Registry.undefinedProblems_ofDeclarations, List.map_map] at hperm

/-- A struct refers to a union that is declared after it and to a name that is not defined, also in
a field that is repeated and in a struct that is declared again. -/
theorem check_resolution_undefined :
    (check default
      "schema s struct A \x7b a []U b ?V b W \x7d struct A \x7b c X \x7d union U \x7b A A Int32 \x7d"
      ).fatal = [] ∧
    ∃ document, (stream default
      "schema s struct A \x7b a []U b ?V b W \x7d struct A \x7b c X \x7d union U \x7b A A Int32 \x7d"
      ).Spells document ∧
      (Registry.ofDeclarations document.declarations).linked.ResolvesKept
        document.declarations := by
  have hread : (Reading.ofStream (stream default
      "schema s struct A \x7b a []U b ?V b W \x7d struct A \x7b c X \x7d union U \x7b A A Int32 \x7d"
      )).2 = none := by
    decide +kernel
  have hscans := fatal_check default
    "schema s struct A \x7b a []U b ?V b W \x7d struct A \x7b c X \x7d union U \x7b A A Int32 \x7d"
  rw [← stream, hread] at hscans
  obtain ⟨document, hspells, hresolves, -⟩ := check_resolution hscans
  exact ⟨hscans, document, hspells, hresolves⟩

end Schema

end GraphSchema
