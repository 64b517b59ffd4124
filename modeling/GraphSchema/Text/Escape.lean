import GraphSchema.Text.Blank

/-!
# Escapes

How a character is written where it could not be seen: as a backslash followed by one letter, or by
`u` and the code point in braces.
-/

namespace GraphSchema.Text

/-- The hexadecimal digits of a number in capitals, at least `width` of them. -/
def hexCapitals (width number : Nat) : String :=
  let digits := (Nat.toDigits 16 number).map Char.toUpper
  String.ofList (List.replicate (width - digits.length) '0' ++ digits)

/-- A code point between braces, in lower-case hexadecimal digits. -/
def braced (c : Char) : String :=
  "\\u\x7b" ++ String.ofList (Nat.toDigits 16 c.toNat) ++ "\x7d"

/-- A character in printable ASCII: tabs, line breaks, quotes and backslashes by their letter, other
printable ASCII characters as they are, all else by its code point. -/
def asciiEscape (c : Char) : String :=
  if c = '\t' then "\\t"
  else if c = '\r' then "\\r"
  else if c = '\n' then "\\n"
  else if c = '\'' then "\\'"
  else if c = '"' then "\\\""
  else if c = '\\' then "\\\\"
  else if 0x20 ≤ c.toNat ∧ c.toNat ≤ 0x7E then c.toString
  else braced c

end GraphSchema.Text
