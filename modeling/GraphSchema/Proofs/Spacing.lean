import GraphSchema.Proofs.Grammar.Recognition
import GraphSchema.Proofs.Relocation.Outcome
import GraphSchema.Proofs.Relocation.Trees
import GraphSchema.Proofs.Token.Tiling

/-!
# Spacing

White space separates tokens and means nothing else.  Two source texts whose tokens besides white
space have the same kinds and texts are both accepted, with the same export, or both rejected, with
the same codes in the same order, and what was read of them are trees that differ in places only
(`Schema.check_alike`).

Both checks are relocations of the check of one stream, whose tokens stand at their numbers
(`TokenStream.move_numbered`).
-/

namespace GraphSchema

/-- What two checks agree on if their source texts are spaced differently. -/
structure Checked.Alike (checked other : Checked) : Prop where
  accepted : (∃ model, checked.model = .ok model) ↔ ∃ model, other.model = .ok model
  exported : ∀ model otherModel, checked.model = .ok model → other.model = .ok otherModel →
    model.json.compact = otherModel.json.compact ∧ model.json.pretty = otherModel.json.pretty
  codes : ∀ found others, checked.model = .error found → other.model = .error others →
    found.map Diagnostic.code = others.map Diagnostic.code
  tree : checked.fragment.skeleton = other.fragment.skeleton

/-! ### Streams of numbered tokens -/

namespace TokenStream

/-- The stream with numbers as places. -/
def numbered (file : Path) (stream : TokenStream) : TokenStream :=
  ⟨GraphSchema.numbered file stream.tokens, .endOfInput (.numbered file stream.tokens.length)⟩

/-- From the numbers of the tokens to their places. -/
def places (stream : TokenStream) : Relocation :=
  .back stream.tokens stream.ending.position

/-- A source text without lexical errors is read to its end. -/
theorem ending_of_lexes {file : Path} {source : String}
    (lexes : (Schema.stream file source).Lexes) :
    ∃ last, (Schema.stream file source).ending = .endOfInput last ∧ last.file = file := by
  have hplaced : (Schema.stream file source).Placed file := placed_ofSource file source
  have hfile := hplaced.ending
  unfold Lexes at lexes
  cases hending : (Schema.stream file source).ending with
  | endOfInput last =>
    rw [hending] at hfile
    exact ⟨last, rfl, hfile⟩
  | error failure =>
    rw [hending] at lexes
    cases lexes

/-- The stream of a source text is the stream of its numbered tokens, relocated. -/
theorem move_numbered {file : Path} {source : String} (lexes : (Schema.stream file source).Lexes) :
    ((Schema.stream file source).numbered file).move (Schema.stream file source).places =
      Schema.stream file source := by
  obtain ⟨last, hending, rfl⟩ := ending_of_lexes lexes
  have hplaced : (Schema.stream last.file source).Placed last.file :=
    placed_ofSource last.file source
  have htokens := GraphSchema.move_numbered last fun token htoken =>
    (hplaced.inside token htoken).1
  have hlast := back_start_length (Schema.stream last.file source).tokens last
  simp only [move, numbered, places, hending, Ending.position, Ending.move, htokens, hlast]
  rw [← hending]

/-- The places of the tokens of a source text are in the order of their numbers. -/
theorem keepsOrder_places (file : Path) (source : String) :
    (Schema.stream file source).places.KeepsOrder := by
  have hplaced : (Schema.stream file source).Placed file := placed_ofSource file source
  exact Relocation.keepsOrder_back hplaced.ordered fun token htoken =>
    (hplaced.inside token htoken).2

end TokenStream

/-! ### Two checks -/

namespace Schema

/-- Two checks of one stream at different places. -/
theorem alike_of_move (file : Path) (source other : List Char) {r s : Relocation}
    (keeps : r.KeepsOrder) (keepsOther : s.KeepsOrder) (read : Reading × Option Problem) :
    Checked.Alike
      ⟨(read.1.move r).fragment file source,
        outcome (Prod.map (Reading.move r) (Option.map (Problem.move r)) read)⟩
      ⟨(read.1.move s).fragment file other,
        outcome (Prod.map (Reading.move s) (Option.map (Problem.move s)) read)⟩ := by
  have htree : ((read.1.move r).fragment file source).skeleton =
      ((read.1.move s).fragment file other).skeleton :=
    (Reading.skeleton_move source file read.1).trans (Reading.skeleton_move source file read.1).symm
  cases houtcome : outcome read with
  | ok model =>
    have hmodel := outcome_move_ok (r := r) houtcome
    have hother := outcome_move_ok (r := s) houtcome
    refine ⟨⟨fun _ => ⟨_, hother⟩, fun _ => ⟨_, hmodel⟩⟩, ?_, ?_, htree⟩
    · intro first second hfirst hsecond
      rw [hmodel] at hfirst
      rw [hother] at hsecond
      rw [← Except.ok.inj hfirst, ← Except.ok.inj hsecond, SchemaModel.json_move,
        SchemaModel.json_move]
      exact ⟨rfl, rfl⟩
    · intro found others hfound
      rw [hmodel] at hfound
      cases hfound
  | error diagnostics =>
    obtain ⟨left, hleft, hcodes⟩ := outcome_move_error keeps houtcome
    obtain ⟨right, hright, hothers⟩ := outcome_move_error keepsOther houtcome
    refine ⟨⟨?_, ?_⟩, ?_, ?_, htree⟩
    · rintro ⟨model, hmodel⟩
      rw [hleft] at hmodel
      cases hmodel
    · rintro ⟨model, hmodel⟩
      rw [hright] at hmodel
      cases hmodel
    · intro model otherModel hmodel
      rw [hleft] at hmodel
      cases hmodel
    · intro found others hfound hothersFound
      rw [hleft] at hfound
      rw [hright] at hothersFound
      rw [← Except.error.inj hfound, ← Except.error.inj hothersFound, hcodes, hothers]

/-- Source texts that have the same tokens besides white space are checked alike. -/
theorem check_alike (file : Path) (source other : String) (lexes : (stream file source).Lexes)
    (lexesOther : (stream file other).Lexes)
    (alike : (stream file source).tokens.map Token.spelling =
      (stream file other).tokens.map Token.spelling) :
    Checked.Alike (check file source) (check file other) := by
  have hnumbered : (stream file source).numbered file = (stream file other).numbered file := by
    have hlength := congrArg List.length alike
    rw [List.length_map, List.length_map] at hlength
    rw [TokenStream.numbered, numbered_eq file alike, hlength, TokenStream.numbered]
  have hread := Reading.ofStream_move (r := (stream file source).places)
    ((stream file source).numbered file)
  have hother := Reading.ofStream_move (r := (stream file other).places)
    ((stream file other).numbered file)
  rw [TokenStream.move_numbered lexes] at hread
  rw [TokenStream.move_numbered lexesOther, ← hnumbered] at hother
  have hcheck : check file source = ⟨(Reading.ofStream (stream file source)).1.fragment file
      source.toList, outcome (Reading.ofStream (stream file source))⟩ := rfl
  have hcheckOther : check file other = ⟨(Reading.ofStream (stream file other)).1.fragment file
      other.toList, outcome (Reading.ofStream (stream file other))⟩ := rfl
  rw [hcheck, hcheckOther, hread, hother]
  exact alike_of_move file source.toList other.toList (TokenStream.keepsOrder_places file source)
    (TokenStream.keepsOrder_places file other) _

/-- A document may be spread over lines. -/
theorem check_alike_lines :
    (stream default "schema s query q(a ?Int32) []None").Lexes ∧
    (stream default "schema s\r\n\tquery q (a ? Int32)\n\t\t[] None\n").Lexes ∧
    Checked.Alike (check default "schema s query q(a ?Int32) []None")
      (check default "schema s\r\n\tquery q (a ? Int32)\n\t\t[] None\n") := by
  have hlexes : (stream default "schema s query q(a ?Int32) []None").ending.error? = none := by
    decide +kernel
  have hother : (stream default
      "schema s\r\n\tquery q (a ? Int32)\n\t\t[] None\n").ending.error? = none := by
    decide +kernel
  have halike : (stream default "schema s query q(a ?Int32) []None").tokens.map Token.spelling =
      (stream default "schema s\r\n\tquery q (a ? Int32)\n\t\t[] None\n").tokens.map
        Token.spelling := by
    decide +kernel
  exact ⟨hlexes, hother, check_alike default _ _ hlexes hother halike⟩

end Schema

end GraphSchema
