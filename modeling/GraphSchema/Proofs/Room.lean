import GraphSchema.Proofs.Snippets
import Mathlib.Data.Nat.Digits.Defs

/-!
# Room for snippets

A snippet has room if there are not too many blanks in front of its caret and in front of the number
of its line (`Snippet.widest`).  The numbers of lines never need too many: in a source text of less
than 2^32 - 1 bytes they have ten digits at most (`Snippet.gutter_le`).  So a diagnostic has room if
and only if none of its places is too far to the right on its line (`Schema.fits_iff`).  Nothing
bounds the column of a place but the length of its line (`Schema.column_le`).
-/

namespace GraphSchema

/-- A source text is short if its offsets are numbers of 32 bits. -/
def Schema.IsShort (source : String) : Prop :=
  Text.byteLength source.toList < 2 ^ 32 - 1

variable {file : Path} {source : String} {place : Cursor}

/-! ### Numbers of lines -/

theorem Text.length_le_byteLength (text : List Char) : text.length ≤ byteLength text := by
  induction text with
  | nil => exact Nat.le_refl _
  | cons c text ih =>
    have hsize := c.utf8Size_pos
    rw [List.length_cons, byteLength]
    omega

/-- There are no more lines than bytes in front of a place. -/
theorem Cursor.StandsIn.line_le (h : place.StandsIn file source) :
    place.line ≤ 1 + Text.byteLength source.toList := by
  obtain ⟨-, front, hfront, hbehind⟩ := h
  have hcount : front.count '\n' ≤ front.length := List.count_le_length
  have hlength := hfront.length_le
  have hbytes := Text.length_le_byteLength source.toList
  rw [hbehind.line]
  omega

namespace Snippet

variable {snippet : Snippet}

theorem of?_eq_some (h : of? source place = some snippet) :
    snippet.gutter = max 2 (toString place.line).length ∧ snippet.offset = place.column - 1 := by
  unfold of? at h
  split at h
  case h_1 => cases h
  case h_2 above hline =>
    obtain ⟨line, -, rfl⟩ := Option.map_eq_some_iff.mp h
    exact ⟨rfl, rfl⟩

/-- The number of a line has ten digits at most. -/
theorem gutter_le (h : of? source place = some snippet) (stands : place.StandsIn file source)
    (short : Schema.IsShort source) : snippet.gutter ≤ 10 := by
  have hline := stands.line_le
  unfold Schema.IsShort at short
  have hdigits : (toString place.line).length ≤ 10 :=
    Nat.repr_length place.line 10 (by decide) (by omega)
  rw [(of?_eq_some h).1]
  omega

end Snippet

/-! ### Columns -/

namespace Schema

variable {diagnostic : Diagnostic}

/-- A place has a snippet, or it is in the first column. -/
theorem snippet?_of_mem (mem : diagnostic ∈ (check file source).diagnostics)
    (shown : place ∈ diagnostic.positions) :
    (∃ snippet before behind, Snippet.of? source place = some snippet ∧
      place.column = 1 + before.length ∧ before ++ behind ∈ Text.lines source.toList) ∨
      Snippet.of? source place = none ∧ place.column = 1 := by
  obtain ⟨rest, hcomes, hbreak⟩ := comesTo_of_mem_positions (diagnostics_positions mem shown)
  obtain ⟨-, front, -, hbehind⟩ := hcomes.standsIn
  rcases hcomes.snippet? hbreak with ⟨above, before, behind, below, hline, -, hsnippet⟩ |
    ⟨hnone, hcolumn, -⟩
  · refine .inl ⟨_, before, behind, hsnippet, ?_, List.mem_of_getElem? hline.listed⟩
    have hoffset : before.length = place.column - 1 := (Snippet.of?_eq_some hsnippet).2
    rw [hoffset, hbehind.column]
    omega
  · exact .inr ⟨hnone, hcolumn⟩

/-- A place is on its line or right behind it. -/
theorem column_le {bound : Nat} (narrow : ∀ line ∈ Text.lines source.toList, line.length ≤ bound)
    (mem : diagnostic ∈ (check file source).diagnostics) (shown : place ∈ diagnostic.positions) :
    place.column ≤ bound + 1 := by
  rcases snippet?_of_mem mem shown with ⟨snippet, before, behind, -, hcolumn, hline⟩ | ⟨-, hcolumn⟩
  · have hlength := narrow _ hline
    rw [List.length_append] at hlength
    omega
  · omega

/-- Where there is room for a diagnostic, none of its places is too far to the right. -/
theorem column_le_of_fits (mem : diagnostic ∈ (check file source).diagnostics)
    (fits : diagnostic.fits source = true) (shown : place ∈ diagnostic.positions) :
    place.column ≤ Snippet.widest + 1 := by
  have hplace := List.all_eq_true.mp fits place shown
  rcases snippet?_of_mem mem shown with ⟨snippet, before, behind, hsnippet, -⟩ | ⟨-, hcolumn⟩
  · rw [hsnippet, Option.all_some, Snippet.fits, Bool.and_eq_true, decide_eq_true_eq,
      decide_eq_true_eq, (Snippet.of?_eq_some hsnippet).2] at hplace
    omega
  · omega

/-- There is room for a diagnostic of a short text if and only if none of its places is too far to
the right. -/
theorem fits_iff (short : IsShort source) (mem : diagnostic ∈ (check file source).diagnostics) :
    diagnostic.fits source = true ↔
      ∀ place ∈ diagnostic.positions, place.column ≤ Snippet.widest + 1 := by
  refine ⟨fun fits _ => column_le_of_fits mem fits, fun columns => ?_⟩
  rw [Diagnostic.fits, List.all_eq_true]
  intro place shown
  obtain ⟨rest, hcomes, -⟩ := comesTo_of_mem_positions (diagnostics_positions mem shown)
  cases hsnippet : Snippet.of? source place with
  | none => rfl
  | some snippet =>
    have hgutter := Snippet.gutter_le hsnippet hcomes.standsIn short
    have hcolumn := columns place shown
    have hwidest : Snippet.widest = 65535 := rfl
    rw [Option.all_some, Snippet.fits, Bool.and_eq_true, decide_eq_true_eq, decide_eq_true_eq,
      (Snippet.of?_eq_some hsnippet).2]
    omega

end Schema

end GraphSchema
