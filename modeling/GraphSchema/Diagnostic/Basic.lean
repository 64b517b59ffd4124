import GraphSchema.Cursor
import GraphSchema.Diagnostic.Code
import GraphSchema.Text.Split

/-!
# Diagnostics

A diagnostic says what is wrong, where, and with which places it has to do. It is shown on one line,
or with the lines of the source that it is about and a caret under each place. The list that a
rejected source text yields is ordered by place, then by code.
-/

namespace GraphSchema

/-- A remark on a diagnostic, about another place or about none. -/
structure Note where
  message : String
  position : Option Cursor
deriving DecidableEq, Repr, Inhabited

/-- One thing that is wrong with a source text. -/
structure Diagnostic where
  code : ErrorCode
  message : String
  position : Cursor
  notes : List Note
deriving DecidableEq, Repr, Inhabited

/-- The part of a source text that shows a place: the text of its line, the number of columns for
line numbers, and the number of blanks in front of the caret. -/
structure Snippet where
  number : Nat
  line : String
  gutter : Nat
  offset : Nat
deriving DecidableEq, Repr, Inhabited

namespace Snippet

/-- The snippet of a place, if its line is a line of the source text. -/
def of? (source : String) (position : Cursor) : Option Snippet :=
  match position.line with
  | 0 => none
  | above + 1 =>
    (Text.lines source.toList)[above]?.map fun line =>
      ⟨position.line, String.ofList line, max 2 (toString position.line).length, position.column - 1⟩

/-- A number of blanks. -/
def blanks (count : Nat) : String :=
  String.ofList (List.replicate count ' ')

/-- The snippet as three lines: an empty one, the line of the source, and the caret. -/
def render (snippet : Snippet) : String :=
  let number := toString snippet.number
  blanks snippet.gutter ++ " |\n" ++
  blanks (snippet.gutter - number.length) ++ number ++ " | " ++ snippet.line ++ "\n" ++
  blanks snippet.gutter ++ " | " ++ blanks snippet.offset ++ "^\n"

/-- The largest number of columns that can be left blank in front of a caret. -/
def widest : Nat := 65535

/-- Is there room for the snippet? -/
def fits (snippet : Snippet) : Bool :=
  snippet.gutter ≤ widest && snippet.offset ≤ widest

end Snippet

namespace Diagnostic

/-- The diagnostic on one line. -/
def oneline (diagnostic : Diagnostic) : String :=
  s!"{diagnostic.position}: {diagnostic.code}: {diagnostic.message}"

instance : ToString Diagnostic := ⟨oneline⟩

/-- The snippet of a place as text; nothing for a place outside the lines of the source. -/
def snippetAt (source : String) (position : Cursor) : String :=
  ((Snippet.of? source position).map Snippet.render).getD ""

/-- A note with its place and snippet, if it has one. -/
def noteText (source : String) (note : Note) : String :=
  match note.position with
  | some position => s!"   = note: {note.message} ({position})\n" ++ snippetAt source position
  | none => s!"   = note: {note.message}\n"

/-- The diagnostic with the lines of the source it is about. -/
def detailed (source : String) (diagnostic : Diagnostic) : String :=
  s!"error[{diagnostic.code}]: {diagnostic.message}\n  --> {diagnostic.position}\n" ++
  snippetAt source diagnostic.position ++
  String.join (diagnostic.notes.map (noteText source))

/-- Every place that a diagnostic shows. -/
def positions (diagnostic : Diagnostic) : List Cursor :=
  diagnostic.position :: diagnostic.notes.filterMap Note.position

/-- Is there room for all snippets of the diagnostic? -/
def fits (source : String) (diagnostic : Diagnostic) : Bool :=
  diagnostic.positions.all fun position => (Snippet.of? source position).all Snippet.fits

/-- Diagnostics compare by place, then by code. -/
protected def compare (a b : Diagnostic) : Ordering :=
  (Ord.compare a.position b.position).then (Ord.compare a.code b.code)

instance : Ord Diagnostic := ⟨Diagnostic.compare⟩

/-- Orders diagnostics by place and code; equals keep their order. -/
def sorted (diagnostics : List Diagnostic) : List Diagnostic :=
  diagnostics.mergeSort fun a b => (Ord.compare a b).isLE

/-- The details of all diagnostics, with an empty line between two of them. -/
def detailedAll (source : String) (diagnostics : List Diagnostic) : String :=
  "\n".intercalate (diagnostics.map (detailed source))

/-- The number of diagnostics and each of them on its line. -/
def summary (diagnostics : List Diagnostic) : String :=
  s!"{diagnostics.length} diagnostic(s):\n" ++
  "\n".intercalate (diagnostics.map fun diagnostic => "  " ++ diagnostic.oneline)

end Diagnostic

end GraphSchema
