import GraphSchema.Proofs.Positions

/-!
# Snippets show the places

A snippet is the line with the number of a place among the lines of the source text, and a caret
under the column of the place.  Cutting a text into lines knows nothing of cursors, which count line
feeds; but both begin a line behind every line feed (`Text.exists_lines_above`), and no place that a
diagnostic shows is inside or in front of a line break (`Schema.comesTo_of_mem_positions`).  So the
line is the one in which the place is, and the caret is under the character there
(`Schema.check_snippets`).  There is no such line only behind the last line break of the text.
-/

namespace GraphSchema

/-! ### Lines -/

namespace Text

/-- Lines end at the end of a text: it is empty, or it ends with a line feed. -/
def EndsLines (text : List Char) : Prop :=
  ∀ c ∈ text.getLast?, c = '\n'

/-- A line ends where the text ends or a line break begins, and there is no line break before. -/
structure IsLineBefore (line below : List Char) : Prop where
  inside : '\n' ∉ line
  ends : below = [] ∨ StartsBreak below
  whole : ∀ front, line = front ++ ['\r'] → below.head? ≠ some '\n'

/-- A line of a text without its line break, between what stands above it and what stands below it,
and with its number among the lines of the text. -/
structure IsLine (text above line below : List Char) : Prop extends IsLineBefore line below where
  split : text = above ++ (line ++ below)
  begins : EndsLines above
  listed : (lines text)[above.count '\n']? = some line

theorem lines_cons {c : Char} {rest : List Char} (hfeed : c ≠ '\n')
    (hreturn : c = '\r' → rest.head? ≠ some '\n') :
    lines (c :: rest) = match lines rest with
      | [] => [[c]]
      | line :: others => (c :: line) :: others := by
  refine lines.eq_4 c rest hfeed ?_
  rintro others hc rfl
  exact hreturn hc rfl

theorem lines_eq_nil_iff {text : List Char} : lines text = [] ↔ text = [] := by
  constructor
  · intro h
    unfold lines at h
    split at h
    · rfl
    · cases h
    · cases h
    · split at h <;> cases h
  · rintro rfl
    rfl

theorem EndsLines.of_cons {c : Char} {rest : List Char} (h : EndsLines (c :: rest)) :
    EndsLines rest := by
  cases rest with
  | nil => exact fun _ hc => nomatch hc
  | cons next rest => rwa [EndsLines, List.getLast?_cons_cons] at h

/-- Behind a text that ends with a line feed the lines begin anew, and the text has as many lines as
line feeds. -/
theorem exists_lines_above {above : List Char} (ends : EndsLines above) :
    ∃ upper, upper.length = above.count '\n' ∧
      ∀ text, lines (above ++ text) = upper ++ lines text := by
  fun_induction lines above with
  | case1 => exact ⟨[], rfl, fun _ => rfl⟩
  | case2 rest ih =>
    obtain ⟨upper, hlength, hlines⟩ := ih ends.of_cons
    refine ⟨[] :: upper, ?_, fun text => congrArg ([] :: ·) (hlines text)⟩
    rw [List.length_cons, hlength, List.count_cons_self]
  | case3 rest ih =>
    obtain ⟨upper, hlength, hlines⟩ := ih ends.of_cons.of_cons
    refine ⟨[] :: upper, ?_, fun text => congrArg ([] :: ·) (hlines text)⟩
    rw [List.length_cons, hlength, List.count_cons_of_ne (by decide), List.count_cons_self]
  | case4 c rest hfeed _ hnone _ =>
    -- a single character that is no line feed ends no line
    obtain rfl := lines_eq_nil_iff.mp hnone
    exact absurd (ends c rfl) hfeed
  | case5 c rest hfeed hreturn line others hsome ih =>
    obtain ⟨upper, hlength, hlines⟩ := ih ends.of_cons
    have hupper : upper = line :: others := by
      rw [← hsome, ← List.append_nil rest, hlines]
      exact (List.append_nil upper).symm
    have hrest : rest ≠ [] := by
      rintro rfl
      cases hsome
    refine ⟨(c :: line) :: others, ?_, fun text => ?_⟩
    · rw [List.count_cons_of_ne hfeed, ← hlength, hupper]
      rfl
    · rw [List.cons_append, lines_cons hfeed, hlines, hupper]
      · rfl
      · intro hc hhead
        rw [List.head?_append_of_ne_nil _ hrest] at hhead
        obtain ⟨back, hback⟩ := List.head?_eq_some_iff.mp hhead
        exact hreturn back hc hback

theorem IsLineBefore.of_cons {c : Char} {line below : List Char}
    (h : IsLineBefore (c :: line) below) : IsLineBefore line below where
  inside := (not_or.mp (List.mem_cons.not.mp h.inside)).2
  ends := h.ends
  whole front hline := h.whole (c :: front) (congrArg (c :: ·) hline)

theorem isLineBefore_nil {below : List Char} (ends : below = [] ∨ StartsBreak below) :
    IsLineBefore [] below where
  inside := List.not_mem_nil
  ends := ends
  whole front h := absurd h.symm (List.append_ne_nil_of_right_ne_nil front (List.cons_ne_nil _ _))

/-- The first line of a text stands before its first line break. -/
theorem head?_lines {line below : List Char} (h : IsLineBefore line below)
    (nonempty : line ++ below ≠ []) : (lines (line ++ below)).head? = some line := by
  induction line with
  | nil =>
    rcases h.ends with rfl | hfeed | ⟨rest, rfl⟩
    · exact absurd rfl nonempty
    · obtain ⟨rest, rfl⟩ := List.head?_eq_some_iff.mp hfeed
      rfl
    · rfl
  | cons c line ih =>
    have hfeed : c ≠ '\n' := by
      rintro rfl
      exact h.inside (List.mem_cons_self ..)
    have hreturn : c = '\r' → (line ++ below).head? ≠ some '\n' := by
      rintro rfl hhead
      cases line with
      | nil => exact h.whole [] rfl hhead
      | cons next line =>
        obtain rfl := Option.some.inj hhead
        exact h.of_cons.inside (List.mem_cons_self ..)
    rw [List.cons_append, lines_cons hfeed hreturn]
    by_cases hnil : line ++ below = []
    · rw [hnil, (List.append_eq_nil_iff.mp hnil).1]
      rfl
    · obtain ⟨others, hothers⟩ := List.head?_eq_some_iff.mp (ih h.of_cons hnil)
      rw [hothers]
      rfl

/-- Every text has a first line. -/
theorem exists_line (text : List Char) :
    ∃ line below, text = line ++ below ∧ IsLineBefore line below := by
  induction text with
  | nil => exact ⟨[], [], rfl, isLineBefore_nil (.inl rfl)⟩
  | cons c text ih =>
    by_cases hbreak : StartsBreak (c :: text)
    · exact ⟨[], c :: text, rfl, isLineBefore_nil (.inr hbreak)⟩
    · -- without a line break in front the character belongs to the line of what follows
      obtain ⟨line, below, rfl, hinside, hends, hwhole⟩ := ih
      refine ⟨c :: line, below, rfl, ?_, hends, ?_⟩
      · refine List.mem_cons.not.mpr (not_or.mpr ⟨?_, hinside⟩)
        rintro rfl
        exact hbreak (.inl rfl)
      · intro front hfront hhead
        cases front with
        | nil =>
          obtain ⟨rfl, rfl⟩ := List.cons.inj hfront
          obtain ⟨rest, rfl⟩ := List.head?_eq_some_iff.mp hhead
          exact hbreak (.inr ⟨rest, rfl⟩)
        | cons first front => exact hwhole front (List.cons.inj hfront).2 hhead

/-- What stands before a place on its line belongs to the line, if no line break begins there. -/
theorem IsLineBefore.append {before behind below : List Char} (h : IsLineBefore behind below)
    (inside : '\n' ∉ before) (noBreak : ¬ StartsBreak (behind ++ below)) :
    IsLineBefore (before ++ behind) below where
  inside := by
    rw [List.mem_append]
    exact not_or.mpr ⟨inside, h.inside⟩
  ends := h.ends
  whole front hfront hhead := by
    rcases List.eq_nil_or_concat behind with rfl | ⟨others, last, rfl⟩
    · exact noBreak (.inl hhead)
    · rw [List.concat_eq_append, ← List.append_assoc] at hfront
      obtain ⟨-, hlast⟩ := List.append_inj' hfront rfl
      rw [List.concat_eq_append, hlast] at h
      exact h.whole others rfl hhead

/-- A place that is not in front of a line break is on a line, unless nothing stands on its line. -/
theorem exists_isLine {above before rest : List Char} (begins : EndsLines above)
    (inside : '\n' ∉ before) (noBreak : ¬ StartsBreak rest) (nonempty : before ++ rest ≠ []) :
    ∃ behind below, rest = behind ++ below ∧
      IsLine (above ++ (before ++ rest)) above (before ++ behind) below := by
  obtain ⟨behind, below, rfl, hbehind⟩ := exists_line rest
  have hline := hbehind.append inside noBreak
  rw [← List.append_assoc] at nonempty
  obtain ⟨upper, hlength, hlines⟩ := exists_lines_above begins
  refine ⟨behind, below, rfl, hline, ?_, begins, ?_⟩
  · rw [List.append_assoc]
  · rw [← List.append_assoc before, hlines, ← hlength, List.getElem?_append_right (Nat.le_refl _),
      Nat.sub_self, ← List.head?_eq_getElem?]
    exact head?_lines hline nonempty

/-- A text is its last line and what stands above it. -/
theorem exists_above (front : List Char) : ∃ above, front = above ++ lastLine front ∧
    EndsLines above ∧ '\n' ∉ lastLine front ∧ above.count '\n' = front.count '\n' := by
  have hinside : '\n' ∉ lastLine front := by
    intro hmem
    have hother := List.mem_rtakeWhile_imp hmem
    simp at hother
  have hsplit : front = front.rdropWhile (fun c => c ≠ '\n') ++ lastLine front :=
    List.rdropWhile_append_rtakeWhile.symm
  refine ⟨front.rdropWhile fun c => c ≠ '\n', hsplit, ?_, hinside, ?_⟩
  · intro c hc
    obtain ⟨hne, rfl⟩ := List.mem_getLast?_eq_getLast hc
    simpa using List.rdropWhile_last_not _ _ hne
  · conv_rhs => rw [hsplit]
    rw [List.count_append, List.count_eq_zero_of_not_mem hinside, Nat.add_zero]

end Text

/-! ### What is shown of a place -/

namespace Diagnostic

/-- The line of a place is shown, with its number, and under it a caret behind as many blanks as
there are characters of the line before the place. -/
structure PointsAt (source : String) (place : Cursor) (above before behind below : List Char) :
    Prop where
  line : Text.IsLine source.toList above (before ++ behind) below
  index : place.index = Text.byteLength (above ++ before)
  text :
    let digits := toString (above.count '\n' + 1)
    let gutter := max 2 digits.length
    snippetAt source place =
      Snippet.blanks gutter ++ " |\n" ++
      Snippet.blanks (gutter - digits.length) ++ digits ++ " | " ++
        String.ofList (before ++ behind) ++ "\n" ++
      Snippet.blanks gutter ++ " | " ++ Snippet.blanks before.length ++ "^\n"

/-- Nothing is shown of the end of a text that is empty or ends with a line break. -/
structure ShowsNothing (source : String) (place : Cursor) : Prop where
  text : snippetAt source place = ""
  index : place.index = Text.byteLength source.toList
  ends : Text.EndsLines source.toList

end Diagnostic

/-- The snippet of a place behind ASCII text that is not in front of a line break is the line of the
place, with a caret behind what stands before the place.  There is none only at the end of a text
that is empty or ends with a line break. -/
theorem Cursor.ComesTo.snippet? {file : Path} {source : String} {place : Cursor} {rest : List Char}
    (h : place.ComesTo file source rest) (noBreak : ¬ Text.StartsBreak rest) :
    (∃ above before behind below,
      Text.IsLine source.toList above (before ++ behind) below ∧
      place.index = Text.byteLength (above ++ before) ∧
      Snippet.of? source place = some ⟨above.count '\n' + 1, String.ofList (before ++ behind),
        max 2 (toString (above.count '\n' + 1)).length, before.length⟩) ∨
      Snippet.of? source place = none ∧ place.column = 1 ∧
        place.index = Text.byteLength source.toList ∧ Text.EndsLines source.toList := by
  obtain ⟨front, hsource, hascii, rfl⟩ := h
  obtain ⟨hindex, hline, hcolumn, -⟩ := standsBehind_after file hascii
  obtain ⟨above, hfront, hbegins, hinside, hcount⟩ := Text.exists_above front
  generalize Text.lastLine front = before at *
  have hnumber : ((startOf file).after front).line = above.count '\n' + 1 := by
    rw [hline, hcount, Nat.add_comm]
  have hoffset : ((startOf file).after front).column - 1 = before.length := by
    rw [hcolumn, Nat.add_sub_cancel_left]
  have hplace : ((startOf file).after front).index = Text.byteLength (above ++ before) := by
    rw [hindex, ← hfront]
  rw [hfront, List.append_assoc] at hsource
  have hsnippet : Snippet.of? source ((startOf file).after front) =
      (Text.lines source.toList)[above.count '\n']?.map fun line =>
        ⟨above.count '\n' + 1, String.ofList line,
          max 2 (toString (above.count '\n' + 1)).length, before.length⟩ := by
    unfold Snippet.of?
    rw [hnumber, hoffset]
  by_cases hnil : before ++ rest = []
  · -- nothing stands on the line, so there is no such line
    right
    rw [hnil, List.append_nil] at hsource
    obtain ⟨upper, hlength, hlines⟩ := Text.exists_lines_above hbegins
    have hnone : (Text.lines source.toList)[above.count '\n']? = none := by
      rw [hsource, ← List.append_nil above, hlines, Text.lines, List.append_nil, List.append_nil,
        ← hlength]
      exact List.getElem?_eq_none (Nat.le_refl _)
    have hbefore : before = [] := (List.append_eq_nil_iff.mp hnil).1
    refine ⟨?_, ?_, ?_, ?_⟩
    · rw [hsnippet, hnone]
      rfl
    · rw [hcolumn, hbefore]
      rfl
    · rw [hplace, hbefore, List.append_nil, hsource]
    · rwa [hsource]
  · left
    obtain ⟨behind, below, rfl, hshown⟩ := Text.exists_isLine hbegins hinside noBreak hnil
    rw [← hsource] at hshown
    refine ⟨above, before, behind, below, hshown, hplace, ?_⟩
    rw [hsnippet, hshown.listed]
    rfl

/-- What is shown of a place behind ASCII text, if it is not in front of a line break. -/
theorem Cursor.ComesTo.snippetAt {file : Path} {source : String} {place : Cursor} {rest : List Char}
    (h : place.ComesTo file source rest) (noBreak : ¬ Text.StartsBreak rest) :
    (∃ above before behind below, Diagnostic.PointsAt source place above before behind below) ∨
      Diagnostic.ShowsNothing source place := by
  rcases h.snippet? noBreak with ⟨above, before, behind, below, hline, hindex, hsnippet⟩ |
    ⟨hnone, -, hindex, hends⟩
  · refine .inl ⟨above, before, behind, below, hline, hindex, ?_⟩
    dsimp only
    rw [Diagnostic.snippetAt, hsnippet]
    rfl
  · refine .inr ⟨?_, hindex, hends⟩
    rw [Diagnostic.snippetAt, hnone]
    rfl

namespace Schema

/-- Whatever place a diagnostic of a source text or one of its notes is about, the line of the place
is shown with a caret under the place; only of the end of a source text that is empty or ends with a
line break nothing is shown. -/
theorem check_snippets {file : Path} {source : String} {diagnostic : Diagnostic}
    (mem : diagnostic ∈ (check file source).diagnostics) {place : Cursor}
    (shown : place ∈ diagnostic.positions) :
    (∃ above before behind below, Diagnostic.PointsAt source place above before behind below) ∨
      Diagnostic.ShowsNothing source place := by
  obtain ⟨rest, hcomes, hbreak⟩ := comesTo_of_mem_positions (diagnostics_positions mem shown)
  exact hcomes.snippetAt hbreak

/-- A character that begins no token, behind a line break with a carriage return. -/
theorem check_snippets_unexpected : ∃ diagnostic place,
    diagnostic ∈ (check default "schema s\r\nalias é = A").diagnostics ∧
    place ∈ diagnostic.positions ∧
    ((∃ above before behind below, Diagnostic.PointsAt "schema s\r\nalias é = A" place
        above before behind below) ∨
      Diagnostic.ShowsNothing "schema s\r\nalias é = A" place) := by
  have hsome : (Reading.ofStream (stream default "schema s\r\nalias é = A")).2.isSome = true := by
    decide +kernel
  obtain ⟨problem, hproblem⟩ := Option.isSome_iff_exists.mp hsome
  have hfatal := fatal_check default "schema s\r\nalias é = A"
  rw [← stream, hproblem] at hfatal
  have hmem : problem.diagnostic ∈ (check default "schema s\r\nalias é = A").fatal := by
    rw [hfatal]
    exact List.mem_singleton.mpr rfl
  have hreported := (List.mem_filter.mp hmem).1
  have hplace : problem.position ∈ problem.diagnostic.positions := List.mem_cons_self ..
  exact ⟨problem.diagnostic, problem.position, hreported, hplace, check_snippets hreported hplace⟩

end Schema

end GraphSchema
