import GraphSchema.Proofs.Lookup
import GraphSchema.Proofs.Token.Tiling
import Mathlib.Data.List.Infix

/-!
# Passages

A passage is a row of lexemes, each of which may end in front of the next one, that neither begins
nor ends with white space.  Passages with a line break between them are a passage again
(`IsPassage.join`), and a passage is cut into the lexemes it is made of (`exists_cut`).  So texts
that are made of passages of other texts have the tokens of these passages.

The part of a source text from one token to another one is a passage (`Cut.exists_passage`).
-/

namespace GraphSchema

/-- The text of a row of lexemes. -/
def rowText (row : List (TokenKind × String)) : List Char :=
  row.flatMap fun lexeme => lexeme.2.toList

/-- Lexemes that may stand one behind the other, without white space at the two ends. -/
structure IsPassage (row : List (TokenKind × String)) : Prop where
  lexemes : ∀ lexeme ∈ row, IsLexeme lexeme.1 lexeme.2.toList
  contiguous : row.IsChain fun lexeme following => MayEndBefore lexeme.1 following.2.toList
  first : ∀ lexeme ∈ row.head?, lexeme.1 ≠ .space
  last : ∀ lexeme ∈ row.getLast?, lexeme.1 ≠ .space
  nonempty : row ≠ []

/-- A line break as a token. -/
def lineBreak : TokenKind × String := (.space, "\n")

/-! ### Passages and line breaks -/

theorem mayEndBefore_nil (kind : TokenKind) : MayEndBefore kind [] := by
  constructor <;> simp

/-- Only the next character decides where a token may end. -/
theorem mayEndBefore_append {kind : TokenKind} {front : List Char} (nonempty : front ≠ [])
    (back : List Char) : MayEndBefore kind (front ++ back) ↔ MayEndBefore kind front := by
  unfold MayEndBefore
  rw [List.head?_append_of_ne_nil _ nonempty]

/-- Any token but white space may end in front of a line break. -/
theorem mayEndBefore_lineBreak {kind : TokenKind} (h : kind ≠ .space) :
    MayEndBefore kind lineBreak.2.toList := by
  refine ⟨fun hspace => absurd hspace h, fun _ c hc hmore => ?_⟩
  obtain rfl := Option.some.inj hc
  rw [← isWordPart_iff] at hmore
  exact absurd hmore (by decide)

/-- What a lexeme begins with, if it is not white space. -/
theorem IsLexeme.first {kind : TokenKind} {lexeme : List Char} (h : IsLexeme kind lexeme)
    (notSpace : kind ≠ .space) :
    ∀ c ∈ lexeme.head?, isWordStart c = true ∨ symbolKind? c ≠ none ∨ c = '[' := by
  intro c hc
  cases h with
  | space => exact absurd rfl notSpace
  | word word _ =>
    cases lexeme with
    | nil => exact absurd word id
    | cons first _ =>
      obtain rfl := Option.some.inj hc
      exact .inl (isWordStart_iff.mpr word.1)
  | symbol spelling notWord =>
    right
    rcases symbolKind?_of_symbol? spelling notWord with ⟨-, htext⟩ | ⟨first, htext, hsymbol⟩
    · rw [htext] at hc
      exact .inr (Option.some.inj hc).symm
    · rw [htext] at hc
      obtain rfl := Option.some.inj hc
      rw [hsymbol]
      exact .inl (Option.some_ne_none kind)

/-- A line break may end in front of any lexeme but white space. -/
theorem lineBreak_mayEndBefore {kind : TokenKind} {lexeme : List Char}
    (h : IsLexeme kind lexeme) (notSpace : kind ≠ .space) :
    MayEndBefore lineBreak.1 lexeme := by
  refine ⟨fun _ c hc => ?_, fun hword => by cases hword⟩
  have hfirst := h.first notSpace c hc
  refine ⟨?_, ?_, ?_, ?_⟩ <;> rintro rfl <;> exact absurd hfirst (by decide)

theorem isLexeme_lineBreak : IsLexeme lineBreak.1 lineBreak.2.toList :=
  .space (.blank (.inr (.inr rfl)) .nil) (List.cons_ne_nil _ _)

/-- Two passages with a line break between them are a passage. -/
theorem IsPassage.join {row others : List (TokenKind × String)} (h : IsPassage row)
    (hothers : IsPassage others) : IsPassage (row ++ [lineBreak] ++ others) := by
  have hbefore : (row ++ [lineBreak]).IsChain
      fun lexeme following => MayEndBefore lexeme.1 following.2.toList := by
    refine List.isChain_append.mpr ⟨h.contiguous, .singleton _, ?_⟩
    intro lexeme hlexeme following hfollowing
    obtain rfl := Option.some.inj hfollowing
    exact mayEndBefore_lineBreak (h.last lexeme hlexeme)
  refine ⟨?_, List.isChain_append.mpr ⟨hbefore, hothers.contiguous, ?_⟩, ?_, ?_, ?_⟩
  · intro lexeme hlexeme
    rcases List.mem_append.mp hlexeme with hlexeme | hlexeme
    · rcases List.mem_append.mp hlexeme with hlexeme | hlexeme
      · exact h.lexemes lexeme hlexeme
      · obtain rfl := List.mem_singleton.mp hlexeme
        exact isLexeme_lineBreak
    · exact hothers.lexemes lexeme hlexeme
  · intro lexeme hlexeme following hfollowing
    rw [List.getLast?_append_of_ne_nil _ (List.cons_ne_nil _ _)] at hlexeme
    obtain rfl := Option.some.inj hlexeme
    exact lineBreak_mayEndBefore (hothers.lexemes _ (List.mem_of_head? hfollowing))
      (hothers.first following hfollowing)
  · rw [List.append_assoc, List.head?_append_of_ne_nil _ h.nonempty]
    exact h.first
  · rw [List.getLast?_append_of_ne_nil _ hothers.nonempty]
    exact hothers.last
  · exact List.append_ne_nil_of_right_ne_nil _ hothers.nonempty

/-- Passages with line breaks between them are a passage. -/
theorem isPassage_intercalate {rows : List (List (TokenKind × String))} (nonempty : rows ≠ [])
    (h : ∀ row ∈ rows, IsPassage row) : IsPassage ([lineBreak].intercalate rows) := by
  induction rows with
  | nil => exact absurd rfl nonempty
  | cons row rows ih =>
    have hrow := h row (List.mem_cons_self ..)
    cases rows with
    | nil =>
      rw [List.intercalate_singleton]
      exact hrow
    | cons other rows =>
      rw [List.intercalate_cons_cons]
      refine hrow.join (ih (List.cons_ne_nil _ _) ?_)
      intro row hmem
      exact h row (List.mem_cons_of_mem _ hmem)

theorem rowText_append (row others : List (TokenKind × String)) :
    rowText (row ++ others) = rowText row ++ rowText others := List.flatMap_append

/-- The texts of passages with line breaks between them. -/
theorem rowText_intercalate (rows : List (List (TokenKind × String))) :
    rowText ([lineBreak].intercalate rows) = ['\n'].intercalate (rows.map rowText) := by
  induction rows with
  | nil => rfl
  | cons row rows ih =>
    cases rows with
    | nil => rw [List.intercalate_singleton, List.map_singleton, List.intercalate_singleton]
    | cons other rows =>
      rw [List.map_cons, List.map_cons, List.intercalate_cons_cons, List.intercalate_cons_cons,
        rowText_append, rowText_append, ih]
      rfl

/-- Without the white space of a row. -/
def meaningful (row : List (TokenKind × String)) : List (TokenKind × String) :=
  row.filter fun lexeme => !lexeme.1.isTrivia

/-- Line breaks add nothing but white space. -/
theorem meaningful_intercalate (rows : List (List (TokenKind × String))) :
    meaningful ([lineBreak].intercalate rows) = rows.flatMap meaningful := by
  induction rows with
  | nil => rfl
  | cons row rows ih =>
    cases rows with
    | nil => rw [List.intercalate_singleton, List.flatMap_singleton]
    | cons other rows =>
      have hbreak : [lineBreak].filter (fun lexeme => !lexeme.1.isTrivia) = [] := rfl
      rw [List.intercalate_cons_cons, List.flatMap_cons, ← ih, meaningful, meaningful, meaningful,
        List.filter_append, List.filter_append, hbreak, List.append_nil]

/-! ### Cutting passages -/

/-- Lexemes that may stand one behind the other are cut apart again. -/
theorem exists_cut (cursor : Cursor) {row : List (TokenKind × String)}
    (lexemes : ∀ lexeme ∈ row, IsLexeme lexeme.1 lexeme.2.toList)
    (contiguous : row.IsChain fun lexeme following => MayEndBefore lexeme.1 following.2.toList) :
    ∃ tokens, Cut cursor (rowText row) tokens none ∧ tokens.map Token.spelling = row := by
  induction row generalizing cursor with
  | nil => exact ⟨[], .ended cursor, rfl⟩
  | cons lexeme row ih =>
    obtain ⟨hlexeme, hrow⟩ := List.forall_mem_cons.mp lexemes
    obtain ⟨hends, hchain⟩ := List.isChain_cons.mp contiguous
    obtain ⟨tokens, hcut, hspelling⟩ := ih (cursor.after lexeme.2.toList) hrow hchain
    have hnext : MayEndBefore lexeme.1 (rowText row) := by
      cases row with
      | nil => exact mayEndBefore_nil lexeme.1
      | cons following row =>
        have hne := (hrow following (List.mem_cons_self ..)).ne_nil
        exact (mayEndBefore_append hne _).mpr (hends following rfl)
    refine ⟨_, .token hlexeme hnext hcut, ?_⟩
    rw [List.map_cons, hspelling, Token.spelling, String.ofList_toList]

/-- The tokens of a text are lexemes that may stand one behind the other. -/
theorem Cut.contiguous {cursor : Cursor} {text : List Char} {tokens : List Token}
    (h : Cut cursor text tokens none) :
    (∀ token ∈ tokens, IsLexeme token.kind token.text.toList) ∧
      tokens.IsChain fun token following => MayEndBefore token.kind following.text.toList := by
  generalize hnone : none = error? at h
  induction h with
  | ended => exact ⟨List.forall_mem_nil _, .nil⟩
  | refused => cases hnone
  | @token cursor kind lexeme rest tokens error? isLexeme ends others ih =>
    obtain ⟨hlexemes, hchain⟩ := ih hnone
    refine ⟨List.forall_mem_cons.mpr ⟨?_, hlexemes⟩, List.isChain_cons.mpr ⟨?_, hchain⟩⟩
    · rw [String.toList_ofList]
      exact isLexeme
    · intro following hfollowing
      have hcovered := others.covers.1 hnone.symm
      obtain ⟨behind, rfl⟩ := List.head?_eq_some_iff.mp hfollowing
      rw [covered_cons] at hcovered
      rw [← hcovered] at ends
      exact (mayEndBefore_append (hlexemes following (List.mem_cons_self ..)).ne_nil _).mp ends

/-! ### Passages of a source text -/

theorem Cut.start_eq {cursor : Cursor} {text : List Char} {first : Token} {tokens : List Token}
    {error? : Option LexError} (h : Cut cursor text (first :: tokens) error?) :
    first.start = cursor := by
  cases h
  rfl

/-- What is behind some tokens is cut from the place where they end. -/
theorem Cut.behind {cursor : Cursor} {text : List Char} {front back : List Token}
    {error? : Option LexError} (h : Cut cursor text (front ++ back) error?) :
    ∃ rest, text = covered front ++ rest ∧ Cut (cursor.after (covered front)) rest back error? ∧
      ∀ last ∈ front.getLast?, last.stop = cursor.after (covered front) := by
  induction front generalizing cursor text with
  | nil => exact ⟨text, rfl, h, fun _ hlast => by cases hlast⟩
  | cons token front ih =>
    cases h with
    | @token _ kind lexeme rest _ _ isLexeme ends others =>
      obtain ⟨behind, rfl, hcut, hlast⟩ := ih others
      have hlexeme : (String.ofList lexeme).toList = lexeme := String.toList_ofList
      rw [covered_cons, hlexeme]
      refine ⟨behind, (List.append_assoc ..).symm, ?_, ?_⟩
      · rw [Cursor.after_append]
        exact hcut
      · intro last hmem
        rw [Cursor.after_append]
        cases front with
        | nil =>
          obtain rfl := Option.some.inj hmem
          rfl
        | cons following front =>
          rw [List.getLast?_cons_cons] at hmem
          exact hlast last hmem

/-- The part of a source text from the first of some tokens to the last one consists of them. -/
theorem Cut.slice_covered {file : Path} {text : List Char} {front segment back : List Token}
    {error? : Option LexError} (h : Cut (.startOf file) text (front ++ segment ++ back) error?)
    {first last : Token} (hfirst : segment.head? = some first)
    (hlast : segment.getLast? = some last) :
    Text.slice text first.start.index last.stop.index = some (covered segment) := by
  rw [List.append_assoc] at h
  obtain ⟨behind, rfl, hbehind, -⟩ := h.behind
  obtain ⟨rest, rfl, -, hstop⟩ := hbehind.behind
  obtain ⟨others, rfl⟩ := List.head?_eq_some_iff.mp hfirst
  have hstart : first.start = (Cursor.startOf file).after (covered front) := hbehind.start_eq
  have hindex : ((Cursor.startOf file).after (covered front)).index =
      Text.byteLength (covered front) := (Cursor.after_index _ _).trans (Nat.zero_add _)
  have hend := Cursor.after_index ((Cursor.startOf file).after (covered front))
    (covered (first :: others))
  rw [hstart, hstop last hlast, hend, hindex, ← List.append_assoc]
  exact Text.slice_append _ _ rest

/-- Consecutive meaningful tokens of a source text, with the white space between them, are a
passage, and its text is the part of the source text from the first one to the last one. -/
theorem Cut.exists_passage {file : Path} {text : List Char} {tokens before row after : List Token}
    (h : Cut (.startOf file) text tokens none)
    (consecutive : (tokens.filter fun token => !token.kind.isTrivia) = before ++ row ++ after)
    {first last : Token} (hfirst : row.head? = some first) (hlast : row.getLast? = some last) :
    ∃ passage, IsPassage passage ∧ meaningful passage = row.map Token.spelling ∧
      Text.slice text first.start.index last.stop.index = some (rowText passage) := by
  have hne : row ≠ [] := by
    rintro rfl
    cases hfirst
  obtain ⟨front, segment, back, rfl, hfiltered, hhead, hend⟩ := exists_segment consecutive hne
  rw [hfirst] at hhead
  rw [hlast] at hend
  obtain ⟨hlexemes, hchain⟩ := h.contiguous
  have hpart : segment <:+: front ++ segment ++ back := ⟨front, back, rfl⟩
  have hinner := List.IsChain.infix hchain hpart
  have hmeaningful : ∀ token ∈ row, token.kind ≠ .space := by
    intro token htoken hspace
    rw [← hfiltered, List.mem_filter, hspace] at htoken
    exact absurd htoken.2 (by decide)
  refine ⟨segment.map Token.spelling, ⟨?_, ?_, ?_, ?_, ?_⟩, ?_, ?_⟩
  · rintro lexeme hlexeme
    obtain ⟨token, htoken, rfl⟩ := List.mem_map.mp hlexeme
    exact hlexemes token (hpart.subset htoken)
  · exact (List.isChain_map Token.spelling).mpr hinner
  · rw [List.head?_map, hhead]
    rintro lexeme hlexeme
    obtain rfl := Option.some.inj hlexeme
    exact hmeaningful first (List.mem_of_head? hfirst)
  · rw [List.getLast?_map, hend]
    rintro lexeme hlexeme
    obtain rfl := Option.some.inj hlexeme
    exact hmeaningful last (List.mem_of_getLast? hlast)
  · rw [Ne, List.map_eq_nil_iff]
    rintro rfl
    cases hhead
  · rw [meaningful, List.filter_map, ← hfiltered]
    rfl
  · rw [h.slice_covered hhead hend, rowText, List.flatMap_map]
    rfl

end GraphSchema
