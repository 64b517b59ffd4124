import GraphSchema.Proofs.Token.Lexemes
import GraphSchema.Text.Slice
import Mathlib.Data.List.Chain

/-!
# What a lexer gives

A text is cut into tokens up to its end or to the first place where no lexeme begins (`Cut`), and
`TokenStream.ofText` finds such a cut (`cut_ofText`), the only one if there is no error
(`Cut.ofText_eq`).  A lexer that is asked again and again gives the tokens of that cut, then the
error if there is one, and then nothing more (`Lexer.gives_ofText`).

So the tokens tile the source text from its start (`Tiles`), and they cover all of it unless an
error tells why no token stands behind them (`Lexer.gives_tiles`).
-/

namespace GraphSchema

/-! ### Places -/

theorem Text.byteLength_append (front back : List Char) :
    byteLength (front ++ back) = byteLength front + byteLength back := by
  induction front with
  | nil => exact (Nat.zero_add _).symm
  | cons c front ih => rw [List.cons_append, byteLength, byteLength, ih, Nat.add_assoc]

theorem Text.byteLength_pos {text : List Char} (h : text ≠ []) : 0 < byteLength text := by
  cases text with
  | nil => exact absurd rfl h
  | cons c rest => exact Nat.add_pos_left c.utf8Size_pos _

namespace Cursor

theorem step_index (cursor : Cursor) (c : Char) :
    (cursor.step c).index = cursor.index + c.utf8Size := by
  unfold step
  split <;> rfl

theorem step_file (cursor : Cursor) (c : Char) : (cursor.step c).file = cursor.file := by
  unfold step
  split <;> rfl

/-- A cursor counts the bytes that it moves over. -/
theorem after_index (cursor : Cursor) (text : List Char) :
    (cursor.after text).index = cursor.index + Text.byteLength text := by
  induction text generalizing cursor with
  | nil => rfl
  | cons c text ih => rw [after_cons, ih, step_index, Text.byteLength, Nat.add_assoc]

/-- A cursor stays in its file. -/
theorem after_file (cursor : Cursor) (text : List Char) :
    (cursor.after text).file = cursor.file := by
  induction text generalizing cursor with
  | nil => rfl
  | cons c text ih => rw [after_cons, ih, step_file]

end Cursor

/-! ### Cutting a text -/

/-- A text that starts at a cursor is cut into tokens, up to its end or to an error. -/
inductive Cut : Cursor → List Char → List Token → Option LexError → Prop
  | ended (cursor : Cursor) : Cut cursor [] [] none
  | refused (cursor : Cursor) {kind : LexErrorKind} {skipped rest : List Char}
      (refusal : IsRefusal kind skipped rest) :
      Cut cursor (skipped ++ rest) [] (some ⟨kind, cursor.after skipped⟩)
  | token {cursor : Cursor} {kind : TokenKind} {lexeme rest : List Char} {tokens : List Token}
      {error? : Option LexError} (isLexeme : IsLexeme kind lexeme) (ends : MayEndBefore kind rest)
      (others : Cut (cursor.after lexeme) rest tokens error?) :
      Cut cursor (lexeme ++ rest)
        (⟨kind, String.ofList lexeme, cursor, cursor.after lexeme⟩ :: tokens) error?

/-- Every text is cut. -/
theorem cut_ofText (cursor : Cursor) (text : List Char) :
    Cut cursor text (TokenStream.ofText cursor text).tokens
      (TokenStream.ofText cursor text).ending.error? := by
  fun_induction TokenStream.ofText cursor text with
  | case1 cursor text hfront =>
    have hnil : text = [] := by
      revert hfront
      fun_cases Lexer.front text <;> simp
    rw [hnil]
    exact .ended cursor
  | case2 cursor text kind skipped rest hfront =>
    obtain ⟨rfl, hrefusal⟩ := Lexer.front_refused hfront
    exact .refused cursor hrefusal
  | case3 cursor text kind lexeme rest hfront _ others ih =>
    obtain ⟨rfl, hlexeme, hends⟩ := Lexer.front_eq_token_iff.mp hfront
    exact .token hlexeme hends ih

theorem ofText_of_token {cursor : Cursor} {text lexeme rest : List Char} {kind : TokenKind}
    (h : Lexer.front text = .token kind lexeme rest) : TokenStream.ofText cursor text =
      ⟨⟨kind, String.ofList lexeme, cursor, cursor.after lexeme⟩ ::
        (TokenStream.ofText (cursor.after lexeme) rest).tokens,
        (TokenStream.ofText (cursor.after lexeme) rest).ending⟩ := by
  rw [TokenStream.ofText]
  split <;> rename_i hfront <;> rw [h] at hfront
  · cases hfront
  · cases hfront
  · obtain ⟨rfl, rfl, rfl⟩ := Lexer.Front.token.inj hfront
    rfl

/-- A text that is cut without an error is cut in that way only. -/
theorem Cut.ofText_eq {cursor : Cursor} {text : List Char} {tokens : List Token}
    (h : Cut cursor text tokens none) :
    TokenStream.ofText cursor text = ⟨tokens, .endOfInput (cursor.after text)⟩ := by
  generalize hnone : none = error? at h
  induction h with
  | ended cursor =>
    rw [TokenStream.ofText]
    rfl
  | refused => cases hnone
  | @token cursor kind lexeme rest tokens error? isLexeme ends others ih =>
    rw [ofText_of_token (Lexer.front_eq_token_iff.mpr ⟨rfl, isLexeme, ends⟩), ih hnone,
      Cursor.after_append]

/-- The texts of tokens, one after the other. -/
def covered (tokens : List Token) : List Char :=
  tokens.flatMap fun token => token.text.toList

theorem covered_cons (token : Token) (tokens : List Token) :
    covered (token :: tokens) = token.text.toList ++ covered tokens := List.flatMap_cons

/-- A text is covered, unless there is an error in front of what is left of it. -/
theorem Cut.covers {cursor : Cursor} {text : List Char} {tokens : List Token}
    {error? : Option LexError} (h : Cut cursor text tokens error?) :
    (error? = none → covered tokens = text) ∧
      ∀ error ∈ error?, ∃ skipped rest, text = covered tokens ++ skipped ++ rest ∧
        error.position = cursor.after (covered tokens ++ skipped) ∧
        IsRefusal error.kind skipped rest := by
  induction h with
  | ended cursor =>
    refine ⟨fun _ => rfl, ?_⟩
    intro error herror
    cases herror
  | refused cursor refusal =>
    refine ⟨fun hnone => (Option.some_ne_none _ hnone).elim, ?_⟩
    intro error herror
    obtain rfl := Option.some.inj herror
    exact ⟨_, _, rfl, rfl, refusal⟩
  | @token cursor kind lexeme rest tokens error? isLexeme ends others ih =>
    rw [covered_cons, String.toList_ofList]
    refine ⟨fun hnone => by rw [ih.1 hnone], ?_⟩
    intro error herror
    obtain ⟨skipped, back, hrest, hposition, hrefusal⟩ := ih.2 error herror
    refine ⟨skipped, back, ?_, ?_, hrefusal⟩
    · rw [hrest]
      simp only [List.append_assoc]
    · rw [hposition, List.append_assoc, Cursor.after_append cursor]

/-! ### The order of tokens -/

namespace TokenStream

/-- Tokens stand in one file, one behind the other, and in front of the place where they end. -/
structure Placed (file : Path) (stream : TokenStream) : Prop where
  ordered : stream.tokens.Pairwise fun token following =>
    token.start.index < following.start.index
  inside : ∀ token ∈ stream.tokens,
    token.start.file = file ∧ token.start.index < stream.ending.position.index
  ending : stream.ending.position.file = file

/-- The tokens of a text stand one behind the other, and none of them in front of its start. -/
theorem placed_ofText (cursor : Cursor) (text : List Char) :
    (ofText cursor text).Placed cursor.file ∧
      cursor.index ≤ (ofText cursor text).ending.position.index ∧
      ∀ token ∈ (ofText cursor text).tokens, cursor.index ≤ token.start.index := by
  fun_induction ofText cursor text with
  | case1 cursor text =>
    exact ⟨⟨.nil, List.forall_mem_nil _, rfl⟩, Nat.le_refl _, List.forall_mem_nil _⟩
  | case2 cursor text kind skipped rest =>
    refine ⟨⟨.nil, List.forall_mem_nil _, Cursor.after_file cursor skipped⟩, ?_,
      List.forall_mem_nil _⟩
    have hafter := Cursor.after_index cursor skipped
    show cursor.index ≤ (cursor.after skipped).index
    omega
  | case3 cursor text kind lexeme rest hfront _ others ih =>
    obtain ⟨⟨hordered, hinside, hending⟩, hend, hbehind⟩ := ih
    rw [Cursor.after_file] at hinside hending
    have hafter := Cursor.after_index cursor lexeme
    have hpositive :=
      Text.byteLength_pos (Lexer.front_eq_token_iff.mp hfront).2.1.ne_nil
    refine ⟨⟨?_, ?_, hending⟩, ?_, ?_⟩
    · refine List.pairwise_cons.mpr ⟨fun following hfollowing => ?_, hordered⟩
      have hlater := hbehind following hfollowing
      show cursor.index < following.start.index
      omega
    · refine List.forall_mem_cons.mpr ⟨⟨rfl, ?_⟩, hinside⟩
      show cursor.index < (ofText (cursor.after lexeme) rest).ending.position.index
      omega
    · show cursor.index ≤ (ofText (cursor.after lexeme) rest).ending.position.index
      omega
    · refine List.forall_mem_cons.mpr ⟨Nat.le_refl _, fun following hfollowing => ?_⟩
      have hlater := hbehind following hfollowing
      omega

theorem Placed.meaningful {file : Path} {stream : TokenStream} (h : stream.Placed file) :
    stream.meaningful.Placed file :=
  ⟨h.ordered.filter _, fun token htoken => h.inside token (List.mem_of_mem_filter htoken),
    h.ending⟩

/-- The tokens of a source text stand one behind the other. -/
theorem placed_ofSource (file : Path) (source : String) :
    (ofSource file source).meaningful.Placed file :=
  (placed_ofText (.startOf file) source.toList).1.meaningful

end TokenStream

/-! ### Tiles -/

/-- Tokens tile a source text from a place on: the first begins there, each other one where the one
before it ended, and each is the part of the text between its ends, not empty, and the longest of
its class. -/
structure Tiles (source : List Char) (start : Cursor) (tokens : List Token) : Prop where
  first : ∀ token ∈ tokens.head?, token.start = start
  contiguous : tokens.IsChain fun token following => following.start = token.stop
  stop : ∀ token ∈ tokens, token.stop = token.start.after token.text.toList
  slice : ∀ token ∈ tokens,
    Text.slice source token.start.index token.stop.index = some token.text.toList
  nonempty : ∀ token ∈ tokens, token.text.toList ≠ []
  munch : ∀ token ∈ tokens, ∃ rest, Text.dropBytes token.start.index source = some rest ∧
    IsMunch rest token.kind token.text.toList

/-- The tokens of a text tile it, also as the back of a longer text. -/
theorem Cut.tiles {cursor : Cursor} {text : List Char} {tokens : List Token}
    {error? : Option LexError} (h : Cut cursor text tokens error?) (front : List Char)
    (index : cursor.index = Text.byteLength front) : Tiles (front ++ text) cursor tokens := by
  induction h generalizing front with
  | ended | refused =>
    constructor <;> simp
  | @token cursor kind lexeme rest tokens error? isLexeme ends others ih =>
    have hafter := Cursor.after_index cursor lexeme
    have htiles := ih (front ++ lexeme) (by rw [hafter, index, Text.byteLength_append])
    rw [List.append_assoc] at htiles
    have hlexeme : (String.ofList lexeme).toList = lexeme := String.toList_ofList
    refine ⟨?_, ?_, ?_, ?_, ?_, ?_⟩
    · rintro token htoken
      obtain rfl := Option.some.inj htoken
      rfl
    · exact List.isChain_cons.mpr ⟨fun following hfollowing => htiles.first following hfollowing,
        htiles.contiguous⟩
    · exact List.forall_mem_cons.mpr ⟨congrArg cursor.after hlexeme.symm, htiles.stop⟩
    · refine List.forall_mem_cons.mpr ⟨?_, htiles.slice⟩
      rw [hlexeme, hafter, index, ← List.append_assoc]
      exact Text.slice_append front lexeme rest
    · refine List.forall_mem_cons.mpr ⟨?_, htiles.nonempty⟩
      rw [hlexeme]
      exact isLexeme.ne_nil
    · refine List.forall_mem_cons.mpr ⟨⟨lexeme ++ rest, ?_, ?_⟩, htiles.munch⟩
      · rw [index]
        exact Text.dropBytes_append front (lexeme ++ rest)
      · rw [hlexeme]
        exact isLexeme.isMunch ends

/-! ### Asking a lexer again and again -/

namespace Lexer

/-- What a lexer gives until it gives nothing more. -/
inductive Gives : Lexer → List (Except LexError Token) → Prop
  | ended {lexer last : Lexer} (next : lexer.next = (none, last))
      (stays : last.next = (none, last)) : Gives lexer []
  | item {lexer following : Lexer} {item : Except LexError Token}
      {items : List (Except LexError Token)} (next : lexer.next = (some item, following))
      (others : Gives following items) : Gives lexer (item :: items)

theorem Gives.unique {lexer : Lexer} {items others : List (Except LexError Token)}
    (h : Gives lexer items) (hothers : Gives lexer others) : items = others := by
  induction h generalizing others with
  | ended next _ =>
    cases hothers with
    | ended => rfl
    | item hnext _ =>
      rw [next] at hnext
      cases hnext
  | item next _ ih =>
    cases hothers with
    | ended hnext _ =>
      rw [next] at hnext
      cases hnext
    | item hnext hrest =>
      rw [next] at hnext
      cases hnext
      rw [ih hrest]

/-- A lexer that is finished gives nothing. -/
theorem gives_of_finished {lexer : Lexer} (h : lexer.finished = true) : Gives lexer [] := by
  have hnext : lexer.next = (none, lexer) := if_pos h
  exact .ended hnext hnext

/-- A lexer that is running gives the tokens of what is left, and then the error that ends them. -/
theorem gives_ofText (source : String) (cursor : Cursor) (rest : List Char) :
    Gives ⟨source, rest, cursor, false⟩ ((TokenStream.ofText cursor rest).tokens.map Except.ok ++
      ((TokenStream.ofText cursor rest).ending.error?.map Except.error).toList) := by
  fun_induction TokenStream.ofText cursor rest with
  | case1 cursor text hfront =>
    have hnext : next ⟨source, text, cursor, false⟩ = (none, ⟨source, text, cursor, true⟩) := by
      simp only [next, hfront, Bool.false_eq_true, if_false]
    exact .ended hnext (if_pos rfl)
  | case2 cursor text kind skipped rest hfront =>
    have hnext : next ⟨source, text, cursor, false⟩ = (some (.error ⟨kind, cursor.after skipped⟩),
        ⟨source, rest, cursor.after skipped, true⟩) := by
      simp only [next, hfront, Bool.false_eq_true, if_false]
    exact .item hnext (gives_of_finished rfl)
  | case3 cursor text kind lexeme rest hfront _ others ih =>
    have hnext : next ⟨source, text, cursor, false⟩ =
        (some (.ok ⟨kind, String.ofList lexeme, cursor, cursor.after lexeme⟩),
          ⟨source, rest, cursor.after lexeme, false⟩) := by
      simp only [next, hfront, Bool.false_eq_true, if_false]
    exact .item hnext ih

/-- A lexer of a source text gives tokens that tile the text from its start, and then nothing if
they cover it; else one error, behind the tokens and the white space that was skipped, where no
lexeme begins. -/
theorem gives_tiles (file : Path) (source : String) :
    ∃ tokens error?,
      (∀ items, Gives (ofSource file source) items ↔
        items = tokens.map Except.ok ++ (error?.map Except.error).toList) ∧
      Tiles source.toList (.startOf file) tokens ∧
      (error? = none ↔ covered tokens = source.toList) ∧
      ∀ error ∈ error?, ∃ skipped rest, source.toList = covered tokens ++ skipped ++ rest ∧
        error.position = (Cursor.startOf file).after (covered tokens ++ skipped) ∧
        error.position.index = Text.byteLength (covered tokens ++ skipped) ∧
        IsRefusal error.kind skipped rest ∧ ¬ StartsLexeme rest := by
  have hcut := cut_ofText (.startOf file) source.toList
  have hgives := gives_ofText source (.startOf file) source.toList
  refine ⟨_, _, fun items => ⟨fun hitems => hitems.unique hgives, ?_⟩, hcut.tiles [] rfl,
    ⟨hcut.covers.1, ?_⟩, ?_⟩
  · rintro rfl
    exact hgives
  · intro hcovered
    rw [Option.eq_none_iff_forall_not_mem]
    intro error herror
    obtain ⟨skipped, rest, hsource, -, hrefusal⟩ := hcut.covers.2 error herror
    rw [hcovered, List.append_assoc] at hsource
    have hnil : skipped ++ rest = [] := List.self_eq_append_right.mp hsource
    exact hrefusal.ne_nil (List.append_eq_nil_iff.mp hnil).2
  · intro error herror
    obtain ⟨skipped, rest, hsource, hposition, hrefusal⟩ := hcut.covers.2 error herror
    refine ⟨skipped, rest, hsource, hposition, ?_, hrefusal, hrefusal.not_startsLexeme⟩
    rw [hposition, Cursor.after_index]
    exact Nat.zero_add _

end Lexer

end GraphSchema
