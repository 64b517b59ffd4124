import GraphSchema.Proofs.Document.Accepted
import GraphSchema.Proofs.Registry.Numbered

/-!
# Which numbers are assigned

The numbers of types, graph nodes and parameters are what a tool that uses a schema refers to.  They
are those of what is kept of the document, in the order of the source text, whether the schema is
accepted or not (`Schema.check_numbers`).  A declaration or a member that is left out, and a
reference whose name is not defined, take no number.
-/

namespace GraphSchema

/-- What is kept of the document of a source text is in the order of the source text. -/
theorem TokenStream.Spells.inOrder_kept {file : Path} {source : String} {document : Document}
    (h : (Schema.stream file source).Spells document) :
    Document.InOrder (Document.kept document.declarations) :=
  Document.inOrder_kept h.ascending

namespace Schema

/-- Types, containers, graph nodes and parameters are numbered in the order of the source text, and
only what is kept of the document has a number, also if the rules reject it. -/
theorem check_numbers {file : Path} {source : String} (scans : (check file source).fatal = []) :
    ∃ document, (stream file source).Spells document ∧
      (∀ model, (check file source).model = .ok model →
        model.registry = (Registry.ofDeclarations document.declarations).linked) ∧
      (Registry.ofDeclarations document.declarations).linked.Numbered
        (Document.kept document.declarations) ∧
      Document.InOrder (Document.kept document.declarations) := by
  obtain ⟨document, hspells⟩ := exists_spells_of_scans scans
  refine ⟨document, hspells, ?_, Registry.numbered_linked document.declarations,
    hspells.inOrder_kept⟩
  intro model hmodel
  obtain ⟨-, rfl⟩ := (check_eq_ok_iff_of_spells hspells).mp hmodel
  rfl

/-- A schema that is rejected: a type and a query are declared twice, a field and a parameter are
repeated, and the name of a designation is not defined. -/
theorem check_numbers_rejected :
    (check default
      "schema s struct T \x7b a []U a T \x7d enum T \x7b\x7d query q(x T, x T) ?[]T query q T"
      ).fatal = [] ∧
    ∃ document, (stream default
      "schema s struct T \x7b a []U a T \x7d enum T \x7b\x7d query q(x T, x T) ?[]T query q T"
      ).Spells document ∧
      (Registry.ofDeclarations document.declarations).linked.Numbered
        (Document.kept document.declarations) := by
  have hread : (Reading.ofStream (stream default
      "schema s struct T \x7b a []U a T \x7d enum T \x7b\x7d query q(x T, x T) ?[]T query q T"
      )).2 = none := by
    decide +kernel
  have hscans := fatal_check default
    "schema s struct T \x7b a []U a T \x7d enum T \x7b\x7d query q(x T, x T) ?[]T query q T"
  rw [← stream, hread] at hscans
  obtain ⟨document, hspells, -, hnumbered, -⟩ := check_numbers hscans
  exact ⟨hscans, document, hspells, hnumbered⟩

end Schema

end GraphSchema
