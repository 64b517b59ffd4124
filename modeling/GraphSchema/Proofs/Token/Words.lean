import GraphSchema.Proofs.Types.Spelling
import GraphSchema.Token.Lexer

/-!
# Words

The kind of a word is decided by its spelling alone (`TokenStream.kind_of_isWord`).  So the names of
types begin with an upper-case letter, and no modifier begins one of them
(`TokenKind.plainName_of_ofWord`).
-/

namespace GraphSchema

/-- The name of a type begins with an upper-case letter. -/
theorem TokenKind.exists_upper_of_ofWord {word : String} (h : ofWord word = .typeName) :
    ∃ first rest, word.toList = first :: rest ∧ first.isUpper = true := by
  unfold ofWord at h
  split at h
  · cases h
  · cases hword : word.toList with
    | nil =>
      rw [hword] at h
      cases h
    | cons first rest =>
      rw [hword] at h
      dsimp only at h
      refine ⟨first, rest, rfl, ?_⟩
      by_cases hupper : first.isUpper = true
      · exact hupper
      · rw [if_neg hupper] at h
        split at h
        · cases h
        · split at h <;> cases h

theorem TokenKind.plainName_of_ofWord {word : String} (h : ofWord word = .typeName) :
    PlainName word := by
  obtain ⟨first, rest, hword, hupper⟩ := exists_upper_of_ofWord h
  refine ⟨first, rest, hword, ?_, ?_⟩
  · rintro rfl
    revert hupper
    decide
  · rintro rfl
    revert hupper
    decide

theorem symbolKind?_not_isWord {c : Char} {kind : TokenKind} (h : symbolKind? c = some kind) :
    kind.isWord = false := by
  unfold symbolKind? at h
  repeat
    split at h
    · obtain rfl := Option.some.inj h
      rfl
  cases h

theorem Lexer.front_kind_of_isWord {source text rest : List Char} {kind : TokenKind}
    (h : front source = .token kind text rest) (word : kind.isWord = true) :
    kind = .ofWord (String.ofList text) := by
  revert h
  fun_cases front source <;> intro h <;> simp only [Front.token.injEq, reduceCtorEq] at h
  case case2 =>
    obtain ⟨rfl, -, -⟩ := h
    cases word
  case case4 hsymbol =>
    obtain ⟨rfl, -, -⟩ := h
    rw [symbolKind?_not_isWord hsymbol] at word
    cases word
  case case5 =>
    obtain ⟨rfl, rfl, -⟩ := h
    rfl
  case case8 =>
    obtain ⟨rfl, -, -⟩ := h
    cases word

namespace TokenStream

theorem ofText_kind_of_isWord (cursor : Cursor) (text : List Char) :
    ∀ token ∈ (ofText cursor text).tokens, token.kind.isWord = true →
      token.kind = .ofWord token.text := by
  fun_induction ofText cursor text with
  | case1 => simp
  | case2 => simp
  | case3 cursor text kind lexeme rest hfront _ others ih =>
    intro token htoken hword
    rcases List.mem_cons.mp htoken with rfl | htoken
    · exact Lexer.front_kind_of_isWord hfront hword
    · exact ih token htoken hword

/-- The kind of a word of a source text is decided by its spelling. -/
theorem kind_of_isWord {file : Path} {source : String} {token : Token}
    (htoken : token ∈ (ofSource file source).meaningful.tokens) (hword : token.kind.isWord = true) :
    token.kind = .ofWord token.text :=
  ofText_kind_of_isWord _ _ token (List.mem_of_mem_filter htoken) hword

end TokenStream

end GraphSchema
