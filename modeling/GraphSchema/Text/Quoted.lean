import GraphSchema.Text.Escape
import GraphSchema.Text.Unprintable

/-!
# Quoted text

A text is quoted for a reader who has to see every character of it: it stands between double quotes,
quotes and backslashes inside it get a backslash, the common controls are written as a letter, and
what would not show by itself is written by its code point. Apostrophes end nothing and stay as they
are.
-/

namespace GraphSchema.Text

/-- Would the character not show by itself? -/
def isHidden (c : Char) : Bool :=
  isControl c ||
    (0x80 ≤ c.toNat && (inRanges unprintableRanges c.toNat || inRanges extenderRanges c.toNat))

/-- A character inside a quoted text. -/
def quotedCharacter (c : Char) : String :=
  if c.toNat = 0 then "\\0"
  else if c = '\t' then "\\t"
  else if c = '\r' then "\\r"
  else if c = '\n' then "\\n"
  else if c = '"' then "\\\""
  else if c = '\\' then "\\\\"
  else if isHidden c then braced c
  else c.toString

/-- A text between double quotes. -/
def quoted (text : String) : String :=
  "\"" ++ String.join (text.toList.map quotedCharacter) ++ "\""

end GraphSchema.Text
