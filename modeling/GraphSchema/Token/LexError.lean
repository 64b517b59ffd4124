import GraphSchema.Cursor
import GraphSchema.Text.Escape

/-!
# Lexical errors

A source text stops being a sequence of tokens at a character that starts none, at a `[` without its
`]`, or at a carriage return without its line feed.
-/

namespace GraphSchema

/-- Why no token can be formed at a place. -/
inductive LexErrorKind where
  | unexpectedCharacter (character : Char)
  | unterminatedListMarker
  | bareCarriageReturn
deriving DecidableEq, Repr, Inhabited

/-- The names of the invisible characters that most often end up in a file by accident. -/
def invisibleNames : List (Char × String) :=
  [(Char.ofNat 0x0000, "NULL"), (Char.ofNat 0x0009, "HORIZONTAL TAB"),
   (Char.ofNat 0x000A, "LINE FEED"), (Char.ofNat 0x000B, "VERTICAL TAB"),
   (Char.ofNat 0x000C, "FORM FEED"), (Char.ofNat 0x000D, "CARRIAGE RETURN"),
   (Char.ofNat 0x001B, "ESCAPE"), (Char.ofNat 0x007F, "DELETE"),
   (Char.ofNat 0x00A0, "NO-BREAK SPACE"), (Char.ofNat 0x200B, "ZERO WIDTH SPACE"),
   (Char.ofNat 0x200C, "ZERO WIDTH NON-JOINER"), (Char.ofNat 0x200D, "ZERO WIDTH JOINER"),
   (Char.ofNat 0x2028, "LINE SEPARATOR"), (Char.ofNat 0x2029, "PARAGRAPH SEPARATOR"),
   (Char.ofNat 0x3000, "IDEOGRAPHIC SPACE"), (Char.ofNat 0xFEFF, "BYTE ORDER MARK")]

/-- The name of an invisible character, if it is one of the well-known ones. -/
def invisibleName? (c : Char) : Option String :=
  (invisibleNames.find? fun entry => entry.1 == c).map Prod.snd

namespace LexErrorKind

/-- How a character is shown in a message: a visible one as it is, an invisible one by its code
point and, if it has one, its name. -/
def describeCharacter (c : Char) : String :=
  match invisibleName? c with
  | some name => "`" ++ Text.asciiEscape c ++ "` (U+" ++ Text.hexCapitals 4 c.toNat ++ ": " ++ name ++ ")"
  | none =>
    if Text.isControl c || (Text.isBlank c && c != ' ') then
      "(U+" ++ Text.hexCapitals 4 c.toNat ++ ")"
    else "`" ++ c.toString ++ "`"

/-- The message of a lexical error. -/
def message : LexErrorKind → String
  | unexpectedCharacter c => "unexpected character " ++ describeCharacter c
  | unterminatedListMarker => "unterminated list marker: expected `]` immediately after `[`"
  | bareCarriageReturn => "bare carriage return: `\\r` must be followed by `\\n`"

end LexErrorKind

/-- A lexical error and its place. -/
structure LexError where
  kind : LexErrorKind
  position : Cursor
deriving DecidableEq, Repr, Inhabited

instance : ToString LexError :=
  ⟨fun error => s!"{error.kind.message} at {error.position}"⟩

end GraphSchema
