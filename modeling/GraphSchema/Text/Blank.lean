/-!
# Blank and control characters

Two character classes decide how text is shown and trimmed: the characters with the Unicode property
`White_Space`, called *blank* here, and the control characters of the general category `Cc`. Both
are tables of closed ranges of code points. The language of schemas itself knows only four blanks;
those are in `Token.Lexer`.
-/

namespace GraphSchema.Text

/-- The ranges of the Unicode property `White_Space`, in increasing order. -/
def blankRanges : List (Nat × Nat) :=
  [(0x0009, 0x000D), (0x0020, 0x0020), (0x0085, 0x0085), (0x00A0, 0x00A0), (0x1680, 0x1680),
   (0x2000, 0x200A), (0x2028, 0x2029), (0x202F, 0x202F), (0x205F, 0x205F), (0x3000, 0x3000)]

/-- The ranges of the control characters. -/
def controlRanges : List (Nat × Nat) :=
  [(0x0000, 0x001F), (0x007F, 0x009F)]

/-- Does a code point lie in one of the ranges? -/
def inRanges (ranges : List (Nat × Nat)) (code : Nat) : Bool :=
  ranges.any fun range => range.1 ≤ code && code ≤ range.2

/-- Is the character white space? -/
def isBlank (c : Char) : Bool :=
  inRanges blankRanges c.toNat

/-- Is the character a control character? -/
def isControl (c : Char) : Bool :=
  inRanges controlRanges c.toNat

/-- Removes the blanks on both sides of a text. -/
def trim (text : String) : String :=
  String.ofList (((text.toList.dropWhile isBlank).reverse.dropWhile isBlank).reverse)

end GraphSchema.Text
