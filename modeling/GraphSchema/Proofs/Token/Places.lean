import GraphSchema.Proofs.Sorting
import GraphSchema.Proofs.Token.Tiling
import Mathlib.Data.List.DropRight
import Mathlib.Logic.Relation

/-!
# Places in a source text

A place in a source text is known by what stands before it: its offset is the length of that in
bytes, its line counts the line feeds, and its column counts the characters after the last of them
(`Cursor.StandsBehind`).  A cursor that moves over a text character by character stands behind it
(`Cursor.standsBehind_after`).  All that is moved over by a lexer is ASCII (`IsLexeme.isAscii`,
`IsRefusal.isAscii`), so its cursor is where it is if bytes are counted in place of characters, and
a carriage return with its line feed as one line break (`Cursor.scan_eq_after`).

So two places in one source text with the same offset are the same (`Cursor.StandsIn.compare_iff`).
-/

namespace GraphSchema

/-! ### Texts -/

/-- What stands on the last line of a text. -/
def Text.lastLine (text : List Char) : List Char :=
  text.rtakeWhile fun c => c ≠ '\n'

/-- A text of characters of one byte. -/
def Text.IsAscii (text : List Char) : Prop :=
  ∀ c ∈ text, c.utf8Size = 1

namespace Text

variable {text front back : List Char}

theorem lastLine_concat_lineFeed (text : List Char) : lastLine (text ++ ['\n']) = [] :=
  List.rtakeWhile_concat_neg _ _ _ (by decide)

theorem lastLine_concat {c : Char} (h : c ≠ '\n') (text : List Char) :
    lastLine (text ++ [c]) = lastLine text ++ [c] :=
  List.rtakeWhile_concat_pos _ _ _ (by simpa using h)

/-- The last line stands at the end of a text. -/
theorem lastLine_suffix (text : List Char) : lastLine text <:+ text :=
  List.rtakeWhile_suffix _ _

theorem IsAscii.append (h : IsAscii front) (hback : IsAscii back) : IsAscii (front ++ back) :=
  List.forall_mem_append.mpr ⟨h, hback⟩

theorem IsAscii.of_suffix (h : IsAscii text) (suffix : back <:+ text) : IsAscii back :=
  fun c hc => h c (suffix.subset hc)

/-- An ASCII text has as many bytes as characters. -/
theorem IsAscii.byteLength_eq (h : IsAscii text) : byteLength text = text.length := by
  induction text with
  | nil => rfl
  | cons c text ih =>
    obtain ⟨hc, htext⟩ := List.forall_mem_cons.mp h
    rw [byteLength, hc, ih htext, List.length_cons, Nat.add_comm]

/-- A part of a text from its start is known by its number of bytes. -/
theorem eq_of_byteLength_eq {other : List Char} (hfront : front <+: text) (hother : other <+: text)
    (same : byteLength front = byteLength other) : front = other := by
  have hshorter {short long : List Char} (hbegins : short <+: long)
      (hsame : byteLength short = byteLength long) : short = long := by
    obtain ⟨more, rfl⟩ := hbegins
    rw [byteLength_append] at hsame
    by_contra hmore
    have hne : more ≠ [] := fun hnil => hmore (by rw [hnil, List.append_nil])
    have hpositive := byteLength_pos hne
    omega
  rcases List.prefix_or_prefix_of_prefix hfront hother with hbegins | hbegins
  · exact hshorter hbegins same
  · exact (hshorter hbegins same.symm).symm

end Text

/-! ### Where a cursor stands -/

namespace Cursor

/-- A cursor stands behind a text: its index is the number of bytes of the text, its line is one
more than the number of line feeds, and its column is one more than the number of characters after
the last of them, which is also the number of bytes there. -/
structure StandsBehind (front : List Char) (cursor : Cursor) : Prop where
  index : cursor.index = Text.byteLength front
  line : cursor.line = 1 + front.count '\n'
  column : cursor.column = 1 + (Text.lastLine front).length
  bytes : cursor.column = 1 + Text.byteLength (Text.lastLine front)

/-- A cursor stands in a source text, behind a part of it from its start. -/
def StandsIn (file : Path) (source : String) (cursor : Cursor) : Prop :=
  cursor.file = file ∧ ∃ front, front <+: source.toList ∧ cursor.StandsBehind front

theorem after_line (cursor : Cursor) (text : List Char) :
    (cursor.after text).line = cursor.line + text.count '\n' := by
  induction text generalizing cursor with
  | nil => rfl
  | cons c text ih =>
    rw [after_cons, ih, step]
    by_cases hc : c = '\n'
    · rw [if_pos hc, hc, List.count_cons_self, Nat.add_assoc, Nat.add_comm 1]
    · rw [if_neg hc, List.count_cons_of_ne hc]

theorem after_startOf_column (file : Path) (text : List Char) :
    ((startOf file).after text).column = 1 + (Text.lastLine text).length := by
  induction text using List.reverseRecOn with
  | nil => rfl
  | append_singleton text c ih =>
    rw [after_append, after_cons, after_nil, step]
    by_cases hc : c = '\n'
    · rw [if_pos hc, hc, Text.lastLine_concat_lineFeed]
      rfl
    · rw [if_neg hc, Text.lastLine_concat hc, List.length_append]
      exact congrArg (· + 1) ih

/-- A cursor that moves over ASCII text stands behind it. -/
theorem standsBehind_after (file : Path) {text : List Char} (ascii : Text.IsAscii text) :
    ((startOf file).after text).StandsBehind text := by
  have hcolumn := after_startOf_column file text
  refine ⟨?_, after_line (startOf file) text, hcolumn, ?_⟩
  · rw [after_index]
    exact Nat.zero_add _
  · rw [hcolumn, (ascii.of_suffix (Text.lastLine_suffix text)).byteLength_eq]

/-! ### Counting bytes -/

/-- The place a number of bytes further on the same line. -/
def advance (cursor : Cursor) (bytes : Nat) : Cursor :=
  ⟨cursor.index + bytes, cursor.line, cursor.column + bytes, cursor.file⟩

/-- The place behind a line break of a number of bytes. -/
def breakLine (cursor : Cursor) (bytes : Nat) : Cursor :=
  ⟨cursor.index + bytes, cursor.line + 1, 1, cursor.file⟩

/-- The place behind a text whose bytes are counted.  A line feed is a line break, and so is one
with a carriage return before it. -/
def scan (cursor : Cursor) : List Char → Cursor
  | [] => cursor
  | '\r' :: '\n' :: rest => (cursor.breakLine 2).scan rest
  | '\n' :: rest => (cursor.breakLine 1).scan rest
  | c :: rest => (cursor.advance c.utf8Size).scan rest

/-- Over ASCII text it makes no difference whether bytes or characters are counted. -/
theorem scan_eq_after {text : List Char} (ascii : Text.IsAscii text) (cursor : Cursor) :
    cursor.scan text = cursor.after text := by
  fun_induction scan cursor text with
  | case1 cursor => rfl
  | case2 cursor rest ih =>
    exact ih (List.forall_mem_cons.mp (List.forall_mem_cons.mp ascii).2).2
  | case3 cursor rest ih => exact ih (List.forall_mem_cons.mp ascii).2
  | case4 cursor c rest _ hfeed ih =>
    obtain ⟨hc, hrest⟩ := List.forall_mem_cons.mp ascii
    have hstep : cursor.step c = cursor.advance c.utf8Size := by
      rw [step, if_neg hfeed, hc]
      rfl
    rw [after_cons, hstep, ih hrest]

/-! ### Offsets -/

variable {file : Path} {source : String} {a b : Cursor}

theorem StandsBehind.unique {front : List Char} (ha : a.StandsBehind front)
    (hb : b.StandsBehind front) (hfile : a.file = b.file) : a = b := by
  obtain ⟨index, line, column, path⟩ := a
  obtain ⟨otherIndex, otherLine, otherColumn, otherPath⟩ := b
  rw [Cursor.mk.injEq]
  exact ⟨ha.index.trans hb.index.symm, ha.line.trans hb.line.symm, ha.column.trans hb.column.symm,
    hfile⟩

/-- A place in a source text is known by its offset. -/
theorem StandsIn.eq_of_index_eq (ha : a.StandsIn file source) (hb : b.StandsIn file source)
    (index : a.index = b.index) : a = b := by
  obtain ⟨hfile, front, hfront, hbehind⟩ := ha
  obtain ⟨hsame, other, hother, hagain⟩ := hb
  rw [hbehind.index, hagain.index] at index
  obtain rfl := Text.eq_of_byteLength_eq hfront hother index
  exact hbehind.unique hagain (hfile.trans hsame.symm)

/-- Places in a source text compare as equal only if they are the same. -/
theorem StandsIn.compare_iff (ha : a.StandsIn file source) (hb : b.StandsIn file source) :
    compare a b = .eq ↔ a = b := by
  constructor
  · intro hcompare
    refine ha.eq_of_index_eq hb ?_
    have hboth : (compare a.file b.file).then (compare a.index b.index) = .eq := hcompare
    exact Nat.compare_eq_eq.mp (Ordering.then_eq_eq.mp hboth).2
  · rintro rfl
    exact Std.ReflCmp.compare_self

end Cursor

/-! ### What is moved over -/

theorem IsAlphanumeric.utf8Size_eq {c : Char} (h : IsAlphanumeric c) : c.utf8Size = 1 := by
  have hbelow {last : Char} (hc : c ≤ last) (hlast : last.val ≤ 127) : c.utf8Size = 1 :=
    Char.utf8Size_eq_one_iff.mpr (UInt32.le_trans (Char.le_def.mp hc) hlast)
  rcases h with ⟨-, hupper⟩ | ⟨-, hlower⟩ | ⟨-, hdigit⟩
  · exact hbelow hupper (by decide)
  · exact hbelow hlower (by decide)
  · exact hbelow hdigit (by decide)

theorem IsSpaceRun.isAscii {text : List Char} (h : IsSpaceRun text) : Text.IsAscii text := by
  induction h with
  | nil => exact List.forall_mem_nil _
  | blank hc _ ih =>
    refine List.forall_mem_cons.mpr ⟨?_, ih⟩
    rcases hc with rfl | rfl | rfl <;> decide
  | lineBreak _ ih =>
    exact List.forall_mem_cons.mpr ⟨by decide, List.forall_mem_cons.mpr ⟨by decide, ih⟩⟩

theorem IsWord.isAscii {text : List Char} (h : IsWord text) : Text.IsAscii text := by
  have hpart {c : Char} (hc : IsAlphanumeric c ∨ c = '_') : c.utf8Size = 1 := by
    rcases hc with hc | rfl
    · exact hc.utf8Size_eq
    · decide
  cases text with
  | nil => exact absurd h id
  | cons first rest =>
    obtain ⟨hfirst, hrest⟩ := h
    refine List.forall_mem_cons.mpr ⟨hpart ?_, fun c hc => hpart (hrest c hc)⟩
    rcases hfirst with hupper | hlower | hunderscore
    · exact .inl (.inl hupper)
    · exact .inl (.inr (.inl hlower))
    · exact .inr hunderscore

/-- Lexemes are ASCII. -/
theorem IsLexeme.isAscii {kind : TokenKind} {lexeme : List Char} (h : IsLexeme kind lexeme) :
    Text.IsAscii lexeme := by
  cases h with
  | space run _ => exact run.isAscii
  | word word _ => exact word.isAscii
  | symbol spelling notWord =>
    rcases symbolKind?_of_symbol? spelling notWord with ⟨-, htext⟩ | ⟨c, htext, hsymbol⟩
    · rw [htext]
      exact List.forall_mem_cons.mpr ⟨rfl, List.forall_mem_singleton.mpr rfl⟩
    · rw [htext]
      refine List.forall_mem_singleton.mpr ?_
      unfold symbolKind? at hsymbol
      repeat
        split at hsymbol
        case isTrue hc =>
          subst hc
          rfl
      cases hsymbol

/-- White space that is skipped in front of an error is ASCII. -/
theorem IsRefusal.isAscii {kind : LexErrorKind} {skipped rest : List Char}
    (h : IsRefusal kind skipped rest) : Text.IsAscii skipped := by
  cases h with
  | unterminated | unexpected => exact List.forall_mem_nil _
  | bareReturn run _ => exact run.isAscii

/-- A cursor has come over ASCII text to the rest of a source text. -/
def Cursor.ComesTo (file : Path) (source : String) (rest : List Char) (cursor : Cursor) : Prop :=
  ∃ front, source.toList = front ++ rest ∧ Text.IsAscii front ∧
    cursor = (Cursor.startOf file).after front

section

variable {file : Path} {source : String}

theorem Cursor.comesTo_startOf (file : Path) (source : String) :
    (Cursor.startOf file).ComesTo file source source.toList :=
  ⟨[], rfl, List.forall_mem_nil _, rfl⟩

theorem Cursor.ComesTo.after {cursor : Cursor} {text rest : List Char}
    (h : cursor.ComesTo file source (text ++ rest)) (ascii : Text.IsAscii text) :
    (cursor.after text).ComesTo file source rest := by
  obtain ⟨front, hsource, hfront, rfl⟩ := h
  refine ⟨front ++ text, ?_, hfront.append ascii, ?_⟩
  · rw [hsource, List.append_assoc]
  · rw [Cursor.after_append]

/-- A cursor that has come over ASCII text stands in the source text. -/
theorem Cursor.ComesTo.standsIn {cursor : Cursor} {rest : List Char}
    (h : cursor.ComesTo file source rest) : cursor.StandsIn file source := by
  obtain ⟨front, hsource, hfront, rfl⟩ := h
  exact ⟨Cursor.after_file _ front, front, ⟨rest, hsource.symm⟩,
    Cursor.standsBehind_after file hfront⟩

/-! ### The tokens of a source text -/

namespace TokenStream

/-- The tokens of a stream stand in front of their texts in a source text, and the stream ends at
the end of the source text, or in front of what is refused. -/
structure Marks (file : Path) (source : String) (stream : TokenStream) : Prop where
  tokens : ∀ token ∈ stream.tokens, IsLexeme token.kind token.text.toList ∧ ∃ rest,
    token.start.ComesTo file source (token.text.toList ++ rest) ∧
      token.stop.ComesTo file source rest
  finished : ∀ position, stream.ending = .endOfInput position → position.ComesTo file source []
  failed : ∀ failure, stream.ending = .error failure → ∃ skipped rest,
    IsRefusal failure.kind skipped rest ∧ failure.position.ComesTo file source rest

/-- The tokens of what is left of a source text stand in it. -/
theorem marks_ofText {cursor : Cursor} {text : List Char}
    (comesTo : cursor.ComesTo file source text) : (ofText cursor text).Marks file source := by
  fun_induction ofText cursor text with
  | case1 cursor text hfront =>
    have hnil : text = [] := by
      revert hfront
      fun_cases Lexer.front text <;> simp
    rw [hnil] at comesTo
    refine ⟨List.forall_mem_nil _, ?_, ?_⟩
    · intro position hposition
      obtain rfl := Ending.endOfInput.inj hposition
      exact comesTo
    · intro failure hfailure
      cases hfailure
  | case2 cursor text kind skipped rest hfront =>
    obtain ⟨rfl, hrefusal⟩ := Lexer.front_refused hfront
    refine ⟨List.forall_mem_nil _, ?_, ?_⟩
    · intro position hposition
      cases hposition
    · intro failure hfailure
      obtain rfl := Ending.error.inj hfailure
      exact ⟨skipped, rest, hrefusal, comesTo.after hrefusal.isAscii⟩
  | case3 cursor text kind lexeme rest hfront _ others ih =>
    obtain ⟨rfl, hlexeme, -⟩ := Lexer.front_eq_token_iff.mp hfront
    have hbehind := comesTo.after hlexeme.isAscii
    obtain ⟨htokens, hfinished, hfailed⟩ := ih hbehind
    refine ⟨List.forall_mem_cons.mpr ⟨?_, htokens⟩, hfinished, hfailed⟩
    rw [String.toList_ofList]
    exact ⟨hlexeme, rest, comesTo, hbehind⟩

theorem marks_ofSource (file : Path) (source : String) :
    (ofSource file source).Marks file source :=
  marks_ofText (Cursor.comesTo_startOf file source)

theorem Marks.ending {stream : TokenStream} (h : stream.Marks file source) :
    ∃ rest, stream.ending.position.ComesTo file source rest := by
  cases hending : stream.ending with
  | endOfInput position => exact ⟨[], h.finished position hending⟩
  | error failure =>
    obtain ⟨skipped, rest, -, hrest⟩ := h.failed failure hending
    exact ⟨rest, hrest⟩

end TokenStream

/-! ### The states of a lexer -/

namespace Lexer

/-- The places of what a lexer gives. -/
def itemCursors : Except LexError Token → List Cursor
  | .ok token => [token.start, token.stop]
  | .error error => [error.position]

/-- The places that a lexer shows: its own, and those of what it gives next or gives at all. -/
def cursors (lexer : Lexer) : List Cursor :=
  lexer.cursor :: (lexer.next.1.toList ++ lexer.drain.1).flatMap itemCursors

/-- A lexer becomes another one by being asked for the next item, or for all of them. -/
inductive Asked : Lexer → Lexer → Prop
  | next (lexer : Lexer) : Asked lexer lexer.next.2
  | drain (lexer : Lexer) : Asked lexer lexer.drain.2

/-- A lexer has come over ASCII text to what is left, which it keeps until it is finished. -/
def ComesTo (file : Path) (source : String) (lexer : Lexer) : Prop :=
  ∃ rest, lexer.cursor.ComesTo file source rest ∧ (lexer.finished = false → rest = lexer.rest)

theorem ComesTo.marks {lexer : Lexer} (h : lexer.ComesTo file source)
    (running : lexer.finished = false) :
    (TokenStream.ofText lexer.cursor lexer.rest).Marks file source := by
  obtain ⟨rest, hcursor, hrest⟩ := h
  rw [hrest running] at hcursor
  exact TokenStream.marks_ofText hcursor

/-- Asking a lexer moves it over ASCII text. -/
theorem ComesTo.asked {lexer following : Lexer} (h : lexer.ComesTo file source)
    (asked : Asked lexer following) : following.ComesTo file source := by
  cases hfinished : lexer.finished with
  | true =>
    -- a lexer that is finished stays as it is
    cases asked with
    | next => rwa [next, if_pos hfinished]
    | drain => rwa [drain, if_pos hfinished]
  | false =>
    have hmarks := h.marks hfinished
    obtain ⟨rest, hcursor, hrest⟩ := h
    obtain rfl := hrest hfinished
    cases asked with
    | drain =>
      obtain ⟨last, hlast⟩ := hmarks.ending
      simp only [drain, hfinished, Bool.false_eq_true, if_false]
      exact ⟨last, hlast, fun hrunning => by cases hrunning⟩
    | next =>
      simp only [next, hfinished, Bool.false_eq_true, if_false]
      cases hfront : front lexer.rest with
      | ended => exact ⟨lexer.rest, hcursor, fun hrunning => by cases hrunning⟩
      | refused kind skipped rest =>
        obtain ⟨hsplit, hrefusal⟩ := front_refused hfront
        rw [hsplit] at hcursor
        exact ⟨rest, hcursor.after hrefusal.isAscii, fun hrunning => by cases hrunning⟩
      | token kind lexeme rest =>
        obtain ⟨hsplit, hlexeme, -⟩ := front_eq_token_iff.mp hfront
        rw [hsplit] at hcursor
        exact ⟨rest, hcursor.after hlexeme.isAscii, fun _ => rfl⟩

/-- A lexer of a source text moves over ASCII text only. -/
theorem comesTo_of_asked {lexer : Lexer}
    (asked : Relation.ReflTransGen Asked (.ofSource file source) lexer) :
    lexer.ComesTo file source := by
  induction asked with
  | refl => exact ⟨source.toList, Cursor.comesTo_startOf file source, fun _ => rfl⟩
  | tail _ hasked ih => exact ih.asked hasked

/-- A lexer moves its cursor over what it takes by counting bytes. -/
theorem exists_passed (lexer : Lexer) : ∃ passed, lexer.rest = passed ++ lexer.next.2.rest ∧
    lexer.next.2.cursor = lexer.cursor.scan passed := by
  cases hfinished : lexer.finished with
  | true =>
    rw [next, if_pos hfinished]
    exact ⟨[], rfl, rfl⟩
  | false =>
    simp only [next, hfinished, Bool.false_eq_true, if_false]
    cases hfront : front lexer.rest with
    | ended => exact ⟨[], rfl, rfl⟩
    | refused kind skipped rest =>
      obtain ⟨hsplit, hrefusal⟩ := front_refused hfront
      exact ⟨skipped, hsplit, (Cursor.scan_eq_after hrefusal.isAscii lexer.cursor).symm⟩
    | token kind lexeme rest =>
      obtain ⟨hsplit, hlexeme, -⟩ := front_eq_token_iff.mp hfront
      exact ⟨lexeme, hsplit, (Cursor.scan_eq_after hlexeme.isAscii lexer.cursor).symm⟩

/-- What a lexer gives next is the first of what it gives at all. -/
theorem next_eq_head?_drain (lexer : Lexer) : lexer.next.1 = lexer.drain.1.head? := by
  obtain ⟨source, rest, cursor, finished⟩ := lexer
  cases finished with
  | true => rfl
  | false =>
    have hgives := gives_ofText source cursor rest
    have hdrain : (drain ⟨source, rest, cursor, false⟩).1 =
        (TokenStream.ofText cursor rest).tokens.map Except.ok ++
          ((TokenStream.ofText cursor rest).ending.error?.map Except.error).toList := rfl
    rw [← hdrain] at hgives
    generalize (drain ⟨source, rest, cursor, false⟩).1 = items at hgives ⊢
    cases hgives with
    | ended hnext _ => rw [hnext]; rfl
    | item hnext _ => rw [hnext]; rfl

/-- What a lexer of a source text gives stands in the source text. -/
theorem ComesTo.items_standIn {lexer : Lexer} (h : lexer.ComesTo file source)
    {item : Except LexError Token} (mem : item ∈ lexer.drain.1) :
    ∀ cursor ∈ itemCursors item, cursor.StandsIn file source := by
  cases hfinished : lexer.finished with
  | true =>
    rw [drain, if_pos hfinished] at mem
    cases mem
  | false =>
    have hmarks := h.marks hfinished
    simp only [drain, hfinished, Bool.false_eq_true, if_false] at mem
    intro cursor hcursor
    rcases List.mem_append.mp mem with hitem | herror
    · obtain ⟨token, htoken, rfl⟩ := List.mem_map.mp hitem
      obtain ⟨-, rest, hstart, hstop⟩ := hmarks.tokens token htoken
      rcases List.mem_cons.mp hcursor with rfl | hcursor
      · exact hstart.standsIn
      · obtain rfl := List.mem_singleton.mp hcursor
        exact hstop.standsIn
    · obtain ⟨rest, hending⟩ := hmarks.ending
      cases hlast : (TokenStream.ofText lexer.cursor lexer.rest).ending with
      | endOfInput position =>
        rw [hlast] at herror
        cases herror
      | error failure =>
        rw [hlast] at herror hending
        obtain rfl := List.mem_singleton.mp herror
        obtain rfl := List.mem_singleton.mp hcursor
        exact hending.standsIn

/-- Every place that a lexer of a source text shows stands in the source text. -/
theorem ComesTo.standsIn {lexer : Lexer} (h : lexer.ComesTo file source) :
    ∀ cursor ∈ lexer.cursors, cursor.StandsIn file source := by
  intro cursor hcursor
  rcases List.mem_cons.mp hcursor with rfl | hcursor
  · obtain ⟨rest, hrest, -⟩ := h
    exact hrest.standsIn
  · obtain ⟨item, hitem, hcursor⟩ := List.mem_flatMap.mp hcursor
    refine h.items_standIn ?_ cursor hcursor
    rcases List.mem_append.mp hitem with hnext | hitem
    · rw [next_eq_head?_drain, Option.mem_toList] at hnext
      exact List.mem_of_head? hnext
    · exact hitem

end Lexer

end

end GraphSchema
