import GraphSchema.Proofs.Descent.Repetition

/-!
# Taking and looking ahead

A lexer gives white space too, and a parser wants the tokens that carry meaning.
`Lexer.nextToken` asks until one comes, without a bound; `Lexer.exists_nextToken` says that one
comes, or the end, or a lexical error, and which of them: the first of what is upcoming
(`Lexer.upcoming`).  A copy of the lexer is asked to look ahead, so the lexer stays where it is
(`Lexer.exists_peek`).  Whoever asks again and again takes upcoming tokens in a row
(`Lexer.Passes`).
-/

namespace GraphSchema

namespace Lexer

/-- The tokens that a lexer has still to give and that carry meaning. -/
def upcoming (lexer : Lexer) : TokenStream :=
  if lexer.finished then ⟨[], .endOfInput lexer.cursor⟩
  else (TokenStream.ofText lexer.cursor lexer.rest).meaningful

/-- Asks for a token.  After white space another one is to be asked for. -/
def ask (lexer : Lexer) : Progress Lexer (Except Problem (Option Token) × Lexer) :=
  match lexer.next with
  | (none, rest) => .done (.ok none, rest)
  | (some (.error failure), rest) => .done (.error (.lexical failure), rest)
  | (some (.ok token), rest) =>
    if token.kind.isTrivia then .more rest else .done (.ok (some token), rest)

/-- Asks for tokens until one carries meaning. -/
noncomputable def nextToken (lexer : Lexer) : Option (Except Problem (Option Token) × Lexer) :=
  repeated (fun lexer => some lexer.ask) lexer

/-- Asks a copy for the next token that carries meaning. -/
noncomputable def peek (lexer : Lexer) : Option (Except Problem (Option Token) × Lexer) :=
  lexer.nextToken.map fun (result, _) => (result, lexer)

/-- The place behind the last token, found by a copy. -/
def endCursor (lexer : Lexer) : Cursor :=
  lexer.drain.2.cursor

theorem nextToken_of_more {lexer rest : Lexer} (h : lexer.ask = .more rest) :
    lexer.nextToken = rest.nextToken := by
  rw [nextToken, repeated_eq, h]
  rfl

theorem nextToken_of_done {lexer rest : Lexer} {result : Except Problem (Option Token)}
    (h : lexer.ask = .done (result, rest)) : lexer.nextToken = some (result, rest) := by
  rw [nextToken, repeated_eq, h]

theorem upcoming_of_finished {lexer : Lexer} (h : lexer.finished = true) :
    lexer.upcoming = ⟨[], .endOfInput lexer.cursor⟩ :=
  if_pos h

theorem endCursor_of_finished {lexer : Lexer} (h : lexer.finished = true) :
    lexer.endCursor = lexer.cursor := by
  rw [endCursor, drain, if_pos h]

end Lexer

/-- What is given to whoever asks for the next token of a stream, and the lexer after that. -/
inductive TokenStream.Yields (stream : TokenStream) : Except Problem (Option Token) → Lexer → Prop
  | token {token : Token} {rest : Lexer}
      (upcoming : stream = ⟨token :: rest.upcoming.tokens, rest.upcoming.ending⟩) :
      Yields stream (.ok (some token)) rest
  | ended {rest : Lexer} (upcoming : stream = ⟨[], .endOfInput rest.cursor⟩)
      (finished : rest.finished = true) : Yields stream (.ok none) rest
  | failed {failure : LexError} {rest : Lexer} (upcoming : stream = ⟨[], .error failure⟩)
      (finished : rest.finished = true) : Yields stream (.error (.lexical failure)) rest

namespace Lexer

theorem exists_nextToken_running (source : String) (cursor : Cursor) (text : List Char) :
    ∃ result rest, nextToken ⟨source, text, cursor, false⟩ = some (result, rest) ∧
      (TokenStream.ofText cursor text).meaningful.Yields result rest := by
  -- by induction on the text that is left, since white space is asked for again and again
  fun_induction TokenStream.ofText cursor text with
  | case1 cursor text hfront =>
    have hask : ask ⟨source, text, cursor, false⟩ =
        .done (.ok none, ⟨source, text, cursor, true⟩) := by
      simp only [ask, next, hfront, Bool.false_eq_true, if_false]
    exact ⟨.ok none, _, nextToken_of_done hask, .ended rfl rfl⟩
  | case2 cursor text kind skipped rest hfront =>
    have hask : ask ⟨source, text, cursor, false⟩ =
        .done (.error (.lexical ⟨kind, cursor.after skipped⟩),
          ⟨source, rest, cursor.after skipped, true⟩) := by
      simp only [ask, next, hfront, Bool.false_eq_true, if_false]
    exact ⟨.error _, _, nextToken_of_done hask, .failed rfl rfl⟩
  | case3 cursor text kind lexeme rest hfront _ others ih =>
    cases htrivia : kind.isTrivia with
    | true =>
      -- white space is left out, so the answer is that of the lexer behind it
      have hask : ask ⟨source, text, cursor, false⟩ =
          .more ⟨source, rest, cursor.after lexeme, false⟩ := by
        simp only [ask, next, hfront, htrivia, Bool.false_eq_true, if_false, if_true]
      obtain ⟨result, last, hresult, hyields⟩ := ih
      refine ⟨result, last, (nextToken_of_more hask).trans hresult, ?_⟩
      simp only [TokenStream.meaningful, List.filter_cons, htrivia] at hyields ⊢
      exact hyields
    | false =>
      have hask : ask ⟨source, text, cursor, false⟩ =
          .done (.ok (some ⟨kind, String.ofList lexeme, cursor, cursor.after lexeme⟩),
            ⟨source, rest, cursor.after lexeme, false⟩) := by
        simp only [ask, next, hfront, htrivia, Bool.false_eq_true, if_false]
      refine ⟨_, _, nextToken_of_done hask, .token ?_⟩
      simp only [TokenStream.meaningful, List.filter_cons, htrivia]
      rfl

/-- Asking for a token comes to an end, with the first of those that are upcoming. -/
theorem exists_nextToken (lexer : Lexer) :
    ∃ result rest, lexer.nextToken = some (result, rest) ∧ lexer.upcoming.Yields result rest := by
  obtain ⟨source, text, cursor, finished⟩ := lexer
  cases finished with
  | true =>
    have hask : ask ⟨source, text, cursor, true⟩ =
        .done (.ok none, ⟨source, text, cursor, true⟩) := rfl
    exact ⟨.ok none, _, nextToken_of_done hask, .ended rfl rfl⟩
  | false => exact exists_nextToken_running source cursor text

/-- Looking ahead comes to an end and leaves the lexer where it is. -/
theorem exists_peek (lexer : Lexer) :
    ∃ result rest, lexer.peek = some (result, lexer) ∧ lexer.upcoming.Yields result rest := by
  obtain ⟨result, rest, hresult, hyields⟩ := lexer.exists_nextToken
  exact ⟨result, rest, by rw [peek, hresult, Option.map_some], hyields⟩

/-- A lexer that is asked again and again gives a row of tokens, and comes to another one. -/
inductive Passes : Lexer → List Token → Lexer → Prop
  | stay (lexer : Lexer) : Passes lexer [] lexer
  | token {lexer next last : Lexer} {token : Token} {row : List Token}
      (asked : lexer.nextToken = some (.ok (some token), next)) (others : Passes next row last) :
      Passes lexer (token :: row) last
  | nothing {lexer next last : Lexer} {result : Except Problem (Option Token)} {row : List Token}
      (asked : lexer.nextToken = some (result, next)) (none : ∀ token, result ≠ .ok (some token))
      (others : Passes next row last) : Passes lexer row last

theorem Passes.append {lexer middle last : Lexer} {row others : List Token}
    (h : lexer.Passes row middle) (more : middle.Passes others last) :
    lexer.Passes (row ++ others) last := by
  induction h with
  | stay lexer => exact more
  | token asked _ ih => exact .token asked (ih more)
  | nothing asked none _ ih => exact .nothing asked none (ih more)

/-- The tokens that are given are the first of those that were upcoming. -/
theorem Passes.upcoming {lexer last : Lexer} {row : List Token} (h : lexer.Passes row last) :
    lexer.upcoming.tokens = row ++ last.upcoming.tokens := by
  induction h with
  | stay lexer => rfl
  | @token lexer next last token row asked _ ih =>
    obtain ⟨_, _, hresult, hyields⟩ := lexer.exists_nextToken
    cases hresult.symm.trans asked
    cases hyields with
    | token upcoming => rw [upcoming, ih, List.cons_append]
  | @nothing lexer next last result row asked none _ ih =>
    -- where nothing is given, nothing is upcoming before and after
    obtain ⟨_, _, hresult, hyields⟩ := lexer.exists_nextToken
    cases hresult.symm.trans asked
    cases hyields with
    | token _ => exact absurd rfl (none _)
    | ended upcoming finished | failed upcoming finished =>
      rw [upcoming, ← ih, upcoming_of_finished finished]

end Lexer

end GraphSchema
