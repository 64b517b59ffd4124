import GraphSchema.Analysis.Rules
import GraphSchema.Document.Names
import GraphSchema.Model.Basic

/-!
# Checking a source text

A source text is read, its declarations are registered, its references resolved and the rules
checked. The result is the tree of what was read and either the model or every diagnostic. When the
reading stops early, only the problems that showed until then are reported, with the one that
stopped it.
-/

namespace GraphSchema

/-- The result of checking a source text. -/
structure Checked where
  fragment : Fragment
  model : Except (List Diagnostic) SchemaModel
deriving Inhabited

namespace Schema

/-- The problems of a document besides those that show while it is read. -/
def problemsOf (document : Document) : List Problem :=
  let registry := Registry.ofDeclarations document.declarations
  registry.undefinedProblems ++ registry.linked.problems document.header

/-- The model of a document without problems. -/
def modelOf (document : Document) : SchemaModel :=
  ⟨document.header.name.text, document.header.name.start,
    (Registry.ofDeclarations document.declarations).linked⟩

/-- Everything that is wrong with what was read. -/
def problems : Reading × Option Problem → List Problem
  | (reading, some fatal) => reading.problems ++ [fatal]
  | (reading, none) => reading.problems ++ (reading.document?.map problemsOf).getD []

/-- The model of what was read, or the diagnostics. -/
def outcome (read : Reading × Option Problem) : Except (List Diagnostic) SchemaModel :=
  match problems read, read.1.document? with
  | [], some document => .ok (modelOf document)
  | found, _ => .error (Diagnostic.ofProblems found)

/-- Checks a source text under the name of its file. -/
def check (file : Path) (source : String) : Checked :=
  let read := Reading.ofStream (TokenStream.ofSource file source).meaningful
  ⟨read.1.fragment file source.toList, outcome read⟩

end Schema

end GraphSchema
