/-!
# Segments and lines

Cutting a text at every occurrence of one character, and cutting it into lines. A line ends at `\n`
or `\r\n`; a text that ends with a line break has no empty line after it, and a `\r` that no `\n`
follows belongs to its line.
-/

namespace GraphSchema.Text

/-- The parts of a text between the occurrences of `separator`; always one more than there are
occurrences. -/
def segments (separator : Char) : List Char → List (List Char)
  | [] => [[]]
  | c :: rest =>
    if c = separator then [] :: segments separator rest
    else match segments separator rest with
      | [] => [[c]]
      | segment :: others => (c :: segment) :: others

/-- The lines of a text without their line breaks. -/
def lines : List Char → List (List Char)
  | [] => []
  | '\n' :: rest => [] :: lines rest
  | '\r' :: '\n' :: rest => [] :: lines rest
  | c :: rest =>
    match lines rest with
    | [] => [[c]]
    | line :: others => (c :: line) :: others

theorem segments_ne_nil (separator : Char) (text : List Char) : segments separator text ≠ [] := by
  cases text with
  | nil => simp [segments]
  | cons c rest =>
    unfold segments
    split
    · simp
    · split <;> simp

end GraphSchema.Text
