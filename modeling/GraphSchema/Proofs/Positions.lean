import GraphSchema.Proofs.Grammar.Recognition
import GraphSchema.Proofs.Relocation.Shown
import GraphSchema.Proofs.Token.Passages
import GraphSchema.Proofs.Token.Places

/-!
# Every place is known by its offset

Lexers, diagnostics and models show places, and all of them stand in the source text
(`Schema.check_positions`): their index is that of a character boundary, and their line and column
are what is counted in the text up to there.  So two of them compare as equal only if they are the
same, and tokens begin one behind the other.
-/

namespace GraphSchema

/-- A lexer of a source text moves its cursor by counting bytes.  Every place that it shows in any
state, and every place that is shown by the diagnostics and the model of the source text stands in
the source text.  Such places are the same if they compare as equal, and the tokens begin one behind
the other. -/
structure Schema.PlacesKnown (file : Path) (source : String) : Prop where
  counted : ∀ lexer, Relation.ReflTransGen Lexer.Asked (.ofSource file source) lexer →
    ∃ passed, lexer.rest = passed ++ lexer.next.2.rest ∧
      lexer.next.2.cursor = lexer.cursor.scan passed
  lexers : ∀ lexer, Relation.ReflTransGen Lexer.Asked (.ofSource file source) lexer →
    ∀ place ∈ lexer.cursors, place.StandsIn file source
  diagnostics : ∀ diagnostic ∈ (check file source).diagnostics,
    ∀ place ∈ diagnostic.positions, place.StandsIn file source
  model : ∀ model, (check file source).model = .ok model →
    ∀ place ∈ model.positions, place.StandsIn file source
  equal : ∀ a b : Cursor, a.StandsIn file source → b.StandsIn file source →
    (compare a b = .eq ↔ a = b)
  ascending : ∀ items, Lexer.Gives (.ofSource file source) items →
    (items.filterMap Except.toOption).Pairwise fun token following =>
      compare token.start following.start = .lt

/-! ### The places of a stream -/

/-- A text begins with a line break. -/
def Text.StartsBreak (text : List Char) : Prop :=
  text.head? = some '\n' ∨ ∃ rest, text = '\r' :: '\n' :: rest

theorem IsLexeme.not_startsBreak {kind : TokenKind} {lexeme : List Char}
    (h : IsLexeme kind lexeme) (notSpace : kind ≠ .space) (rest : List Char) :
    ¬ Text.StartsBreak (lexeme ++ rest) := by
  obtain ⟨c, others, rfl⟩ := List.exists_cons_of_ne_nil h.ne_nil
  have hfirst := h.first notSpace c rfl
  rintro (hfeed | ⟨back, hreturn⟩)
  · obtain rfl := Option.some.inj hfeed
    exact absurd hfirst (by decide)
  · obtain ⟨rfl, -⟩ := List.cons.inj hreturn
    exact absurd hfirst (by decide)

theorem IsRefusal.not_startsBreak {kind : LexErrorKind} {skipped rest : List Char}
    (h : IsRefusal kind skipped rest) : ¬ Text.StartsBreak rest := by
  intro hbreak
  refine h.not_startsLexeme ?_
  -- a line break is white space
  rcases hbreak with hfeed | ⟨back, rfl⟩
  · obtain ⟨back, rfl⟩ := List.head?_eq_some_iff.mp hfeed
    exact ⟨.space, ['\n'], ⟨back, rfl⟩, isLexeme_lineBreak⟩
  · exact ⟨.space, ['\r', '\n'], ⟨back, rfl⟩, .space (.lineBreak .nil) (List.cons_ne_nil _ _)⟩

namespace Schema

variable {file : Path} {source : String}

/-- The places of the stream of a source text are behind ASCII text, and not in front of a line
break. -/
theorem comesTo_of_mem_positions {place : Cursor} (h : place ∈ (stream file source).positions) :
    ∃ rest, place.ComesTo file source rest ∧ ¬ Text.StartsBreak rest := by
  have hmarks := TokenStream.marks_ofSource file source
  rcases List.mem_append.mp h with hstart | hending
  · obtain ⟨token, htoken, rfl⟩ := List.mem_map.mp hstart
    obtain ⟨hmem, hmeaning⟩ := List.mem_filter.mp htoken
    obtain ⟨hlexeme, rest, hcomes, -⟩ := hmarks.tokens token hmem
    refine ⟨_, hcomes, hlexeme.not_startsBreak ?_ rest⟩
    intro hspace
    rw [hspace] at hmeaning
    cases hmeaning
  · obtain rfl := List.mem_singleton.mp hending
    have hsame : (stream file source).ending = (TokenStream.ofSource file source).ending := rfl
    rw [hsame]
    cases hlast : (TokenStream.ofSource file source).ending with
    | endOfInput position =>
      refine ⟨[], hmarks.finished position hlast, ?_⟩
      rintro (hfeed | ⟨rest, hreturn⟩)
      · cases hfeed
      · cases hreturn
    | error failure =>
      obtain ⟨skipped, rest, hrefusal, hcomes⟩ := hmarks.failed failure hlast
      exact ⟨rest, hcomes, hrefusal.not_startsBreak⟩

/-- The diagnostics of a source text show places of its stream. -/
theorem diagnostics_positions {diagnostic : Diagnostic}
    (h : diagnostic ∈ (check file source).diagnostics) :
    diagnostic.positions ⊆ (stream file source).positions := by
  unfold check at h
  rw [diagnostics_outcome] at h
  obtain ⟨problem, hproblem, rfl⟩ :=
    List.mem_map.mp ((Diagnostic.ofProblems_perm _).mem_iff.mp h)
  exact problems_positions_subset _ hproblem

/-! ### All places -/

/-- The tokens of a source text begin one behind the other. -/
theorem ascending_of_gives {items : List (Except LexError Token)}
    (h : Lexer.Gives (.ofSource file source) items) :
    (items.filterMap Except.toOption).Pairwise fun token following =>
      compare token.start following.start = .lt := by
  have hplaced := (TokenStream.placed_ofText (.startOf file) source.toList).1
  obtain rfl := h.unique (Lexer.gives_ofText source (.startOf file) source.toList)
  have htokens : (((TokenStream.ofText (.startOf file) source.toList).tokens.map Except.ok ++
      ((TokenStream.ofText (.startOf file) source.toList).ending.error?.map
        Except.error).toList).filterMap Except.toOption) =
      (TokenStream.ofText (.startOf file) source.toList).tokens := by
    rw [List.filterMap_append, List.filterMap_map]
    cases (TokenStream.ofText (.startOf file) source.toList).ending.error? with
    | none => exact (List.append_nil _).trans List.filterMap_some
    | some error => exact (List.append_nil _).trans List.filterMap_some
  rw [htokens]
  refine hplaced.ordered.imp_of_mem ?_
  intro token following htoken hfollowing hindex
  refine Cursor.compare_eq_lt ?_ hindex
  rw [(hplaced.inside token htoken).1, (hplaced.inside following hfollowing).1]

/-- Every cursor that a lexer of a source text produces, and every place in the diagnostics, their
notes and the model of the source text is at a character boundary of the text, on the line that the
line feeds before it give, and in the column that the characters after the last of these give.  So
they are known by their offsets, and so are those at which tokens begin, which ascend. -/
theorem check_positions (file : Path) (source : String) : PlacesKnown file source := by
  have hstream {place : Cursor} (hmem : place ∈ (stream file source).positions) :
      place.StandsIn file source := by
    obtain ⟨rest, hcomes, -⟩ := comesTo_of_mem_positions hmem
    exact hcomes.standsIn
  refine ⟨fun lexer _ => lexer.exists_passed, ?_, ?_, ?_, ?_, ?_⟩
  · intro lexer hasked
    exact (Lexer.comesTo_of_asked hasked).standsIn
  · intro diagnostic hdiagnostic place hplace
    exact hstream (diagnostics_positions hdiagnostic hplace)
  · intro model hmodel place hplace
    exact hstream (model_positions_subset _ hmodel hplace)
  · intro a b ha hb
    exact ha.compare_iff hb
  · intro items hitems
    exact ascending_of_gives hitems

end Schema

end GraphSchema
