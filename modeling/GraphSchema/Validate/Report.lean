import GraphSchema.Model.Export
import GraphSchema.Schema
import GraphSchema.Validate.Extension
import GraphSchema.Validate.FileTree

/-!
# Validating files

The files at or under the given paths are selected by their extension; a single file that is named
is validated whatever its extension. Every selected file is checked, and the reports are put in the
order of their paths before they are summed up. The summary of rejected schemas shows their
diagnostics; if all are accepted, it shows their export or says how much was validated. A diagnostic
whose place is too far to the right to be shown ends the command without any result.
-/

namespace GraphSchema

/-- A number and a noun, which takes an `s` unless the number is one. -/
def counted (count : Nat) (noun : String) : String :=
  if count = 1 then s!"{count} {noun}" else s!"{count} {noun}s"

/-- The mark of success. -/
def successMark : String := "✔"

/-- The mark of failure. -/
def failureMark : String := "✘"

/-- What a command prints, and whether it succeeded. -/
structure CommandResult where
  success : Bool
  stdout : Option String
  stderr : Option String
deriving DecidableEq, Repr, Inhabited

/-- Why nothing was validated. A walk from a path fails at the path or at a place under it. -/
inductive ValidateFailure where
  | walk (path place : Path) (reason : String)
  | noFiles
  | unreadable (path : Path) (reason : String)
deriving DecidableEq, Repr, Inhabited

/-- The text of a failure. -/
def ValidateFailure.message : ValidateFailure → String
  | walk path place reason =>
    s!"failed to walk {path.text}: IO error for operation on {place.text}: {reason}: {reason}"
  | noFiles => "no graphdef files found"
  | unreadable path reason => s!"failed to read {path.text}: {reason}"

/-- The result of a command that failed for a reason. -/
def ValidateFailure.result (failure : ValidateFailure) : CommandResult :=
  ⟨false, none, some (failureMark ++ " " ++ failure.message)⟩

/-- The reason given for a file that is not text. -/
def notText : String := "stream did not contain valid UTF-8"

/-- The files to be validated and the number of files that were passed over. -/
structure Selection where
  paths : List Path
  skipped : Nat
deriving DecidableEq, Repr, Inhabited

/-- Selects among what was found at or under each argument. -/
def Selection.of (extensions : List String) (found : List Reached) :
    Except ValidateFailure Selection :=
  let files := found.flatMap Reached.files
  let (chosen, others) := files.partition fun file => Extension.selects extensions file.reached
  match chosen, found with
  | [], [.file only] => .ok ⟨[only.location], 0⟩
  | [], _ => .error .noFiles
  | _, _ => .ok ⟨chosen.map FoundFile.location, others.length⟩

/-- The outcome for one file. -/
inductive FileReport where
  | valid (path : Path) (model : SchemaModel)
  | invalid (path : Path) (source : String) (diagnostics : List Diagnostic)
deriving Inhabited

namespace FileReport

/-- The path of the file. -/
def path : FileReport → Path
  | valid path _ | invalid path _ _ => path

/-- Checks the text of a file. -/
def of (path : Path) (source : String) : FileReport :=
  match (Schema.check path source).model with
  | .ok model => valid path model
  | .error diagnostics => invalid path source diagnostics

/-- The model of an accepted schema. -/
def model? : FileReport → Option SchemaModel
  | valid _ model => some model
  | invalid _ _ _ => none

/-- The source text and the diagnostics of a rejected schema. -/
def rejected? : FileReport → Option (String × List Diagnostic)
  | valid _ _ => none
  | invalid _ source diagnostics => some (source, diagnostics)

/-- Is there room for every snippet of the report? -/
def fits : FileReport → Bool
  | valid _ _ => true
  | invalid _ source diagnostics => diagnostics.all (Diagnostic.fits source)

/-- Puts reports in the order of their paths. -/
def sorted (reports : List FileReport) : List FileReport :=
  reports.mergeSort fun a b => (compare a.path b.path).isLE

/-- The summary of reports that are in order. -/
def summary (json : Bool) (skipped : Nat) (reports : List FileReport) : CommandResult :=
  match reports.filterMap rejected? with
  | [] =>
    let models := reports.filterMap model?
    if json then
      ⟨true, some ("\n".intercalate (models.map fun model => model.json.pretty)), none⟩
    else
      let types := total (fun model => model.declared.length) models
      let endpoints := total (fun model => model.queries.length + model.mutations.length) models
      ⟨true,
        some
          (successMark ++ " All graphdef schemas validated successfully:\n" ++
          s!"  * Analyzed {reports.length} files.\n" ++
          s!"  * Skipped {skipped} files with other extensions.\n" ++
          s!"  * Validated {types} type declarations.\n" ++
          s!"  * Validated {endpoints} endpoints."),
        none⟩
  | rejected =>
    let details := rejected.map fun (source, diagnostics) => Diagnostic.detailedAll source diagnostics
    let diagnostics := total (fun entry => entry.2.length) rejected
    ⟨false, none,
      some
        ("\n".intercalate details ++ "\n" ++
        s!"{failureMark} {rejected.length} of " ++ counted reports.length "schema" ++
        " failed validation with " ++ counted diagnostics "diagnostic" ++ ".")⟩

/-- The summary of reports that are in order, if there is room for all their snippets. -/
def summary? (json : Bool) (skipped : Nat) (reports : List FileReport) : Option CommandResult :=
  if reports.all fits then some (summary json skipped reports) else none

end FileReport

namespace FileTree

/-- The text of the file at a full path, if there is a file and it is text. -/
def text? (tree : FileTree) (root path : Path) : Option String := do
  let inner ← root.under? path
  match tree.lookup inner with
  | .ok (file bytes, _) => String.fromUTF8? bytes
  | _ => none

/-- Walks from every path. -/
def walkAll (tree : FileTree) (root : Path) (paths : List Path) :
    Except ValidateFailure (List Reached) :=
  paths.mapM fun path =>
    match tree.walk root path with
    | .ok reached => .ok reached
    | .error error => .error (.walk path error.place error.reason.message)

/-- Checks files of a tree whose root has the path `root`. -/
def reports (tree : FileTree) (root : Path) (paths : List Path) :
    Except ValidateFailure (List FileReport) :=
  paths.mapM fun path =>
    match tree.text? root path with
    | some source => .ok (.of path source)
    | none => .error (.unreadable path notText)

/-- Runs the command `validate` in a tree. -/
def validate (tree : FileTree) (root : Path) (extensions : List String) (json : Bool)
    (paths : List Path) : Option CommandResult :=
  let outcome : Except ValidateFailure (Option CommandResult) := do
    let selection ← Selection.of (Extension.normalized extensions) (← tree.walkAll root paths)
    let reports ← tree.reports root selection.paths
    pure (FileReport.summary? json selection.skipped (FileReport.sorted reports))
  match outcome with
  | .ok result => result
  | .error failure => some failure.result

end FileTree

end GraphSchema
