import GraphSchema.Proofs.Grammar.Completion
import GraphSchema.Proofs.Severity

/-!
# Recognition

The reader accepts exactly what derives from the grammar, and it stops at the earliest place where a
source text leaves the grammar.

A stream of tokens has *items*: its tokens, and its end.  An item offends if the tokens before it
are the beginning of a row that derives, and with the item they no longer are
(`TokenStream.IsOffence`); there is one offence at most (`TokenStream.IsOffence.unique`).  Either
the whole stream derives, or there is an offence, and the reading ends accordingly
(`Reading.ofStream_spec`).
-/

namespace GraphSchema

/-- What stands at a place of a stream of tokens: a token, or the end of the stream. -/
inductive StreamItem where
  | token (token : Token)
  | ending (ending : TokenStream.Ending)

namespace StreamItem

/-- The place of an item. -/
def position : StreamItem → Cursor
  | token leaf => leaf.start
  | ending last => last.position

/-- Is there a row that derives, begins with tokens of the given kinds, and goes on with the item?
Nothing goes on with a lexical error, and only a whole row ends. -/
def MayFollow (kinds : List TokenKind) : StreamItem → Prop
  | token leaf => Viable (kinds ++ [leaf.kind])
  | ending (.endOfInput _) => Derivable kinds
  | ending (.error _) => False

end StreamItem

namespace TokenStream

/-- The kinds of the tokens. -/
def kinds (stream : TokenStream) : List TokenKind :=
  stream.tokens.map Token.kind

/-- Is there no lexical error? -/
def Lexes (stream : TokenStream) : Prop :=
  stream.ending.error? = none

/-- After a row of tokens stands the first item at which a stream leaves the grammar. -/
inductive IsOffence (stream : TokenStream) : List Token → StreamItem → Prop
  | token {front back : List Token} {leaf : Token} (place : stream.tokens = front ++ leaf :: back)
      (viable : Viable (front.map Token.kind))
      (refused : ¬ (StreamItem.token leaf).MayFollow (front.map Token.kind)) :
      IsOffence stream front (.token leaf)
  | ending (viable : Viable stream.kinds)
      (refused : ¬ (StreamItem.ending stream.ending).MayFollow stream.kinds) :
      IsOffence stream stream.tokens (.ending stream.ending)

variable {stream : TokenStream} {front : List Token} {item : StreamItem}

theorem IsOffence.viable_front (h : stream.IsOffence front item) :
    Viable (front.map Token.kind) := by
  cases h with
  | token place viable refused => exact viable
  | ending viable refused => exact viable

theorem IsOffence.isPrefix (h : stream.IsOffence front item) : front <+: stream.tokens := by
  cases h with
  | token place viable refused => exact ⟨_, place.symm⟩
  | ending viable refused => exact List.prefix_rfl

/-- Whatever is the beginning of a row that derives ends before the offence. -/
theorem IsOffence.isPrefix_of_viable (h : stream.IsOffence front item) {row : List Token}
    (hrow : row <+: stream.tokens) (viable : Viable (row.map Token.kind)) : row <+: front := by
  cases h with
  | @token front back leaf place _ refused =>
    have hrefused : ¬ front ++ [leaf] <+: row := by
      rintro ⟨others, rfl⟩
      apply refused
      rw [List.map_append, List.map_append] at viable
      exact viable.of_append
    have hpast : front ++ [leaf] <+: stream.tokens := ⟨back, by rw [place]; simp⟩
    rcases List.prefix_or_prefix_of_prefix hrow hpast with hbefore | hafter
    · rcases List.prefix_concat_iff.mp hbefore with rfl | hbefore
      · exact absurd List.prefix_rfl hrefused
      · exact hbefore
    · exact absurd hafter hrefused
  | ending _ _ => exact hrow

/-- A stream leaves the grammar at one item only. -/
theorem IsOffence.unique (h : stream.IsOffence front item) {otherFront : List Token}
    {other : StreamItem} (hother : stream.IsOffence otherFront other) :
    front = otherFront ∧ item = other := by
  have hfront := hother.isPrefix_of_viable h.isPrefix h.viable_front
  have hback := h.isPrefix_of_viable hother.isPrefix hother.viable_front
  obtain rfl : front = otherFront := hfront.eq_of_length_le hback.length_le
  refine ⟨rfl, ?_⟩
  -- what stands behind the same tokens is one token, or the end
  cases h with
  | token place _ _ =>
    generalize hitem : other = last at hother
    cases hother with
    | token otherPlace _ _ =>
      obtain ⟨rfl, -⟩ := List.cons.inj (List.append_cancel_left (place.symm.trans otherPlace))
      rfl
    | ending _ _ =>
      have hlength := congrArg List.length place
      rw [List.length_append, List.length_cons] at hlength
      omega
  | ending _ _ =>
    generalize hrow : stream.tokens = row at hother
    cases hother with
    | token place _ _ =>
      have hlength := congrArg List.length place
      rw [hrow, List.length_append, List.length_cons] at hlength
      omega
    | ending _ _ => rfl

/-- A stream that derives does not leave the grammar. -/
theorem not_isOffence (lexes : stream.Lexes) (derivable : Derivable stream.kinds) :
    ¬ stream.IsOffence front item := by
  intro h
  cases h with
  | token place viable refused =>
    apply refused
    rw [kinds, place, List.map_append, List.map_cons, ← List.singleton_append,
      ← List.append_assoc] at derivable
    exact derivable.viable.of_append
  | ending viable refused =>
    apply refused
    unfold Lexes at lexes
    cases hending : stream.ending with
    | endOfInput position => exact derivable
    | error failure =>
      rw [hending] at lexes
      cases lexes

end TokenStream

namespace Reading

/-! ### The end of a reading -/

/-- Tokens that can all be taken are taken first. -/
theorem run_of_reads {reading next : Reading} {front : List Token}
    (h : reading.reads front = some next) (ending : TokenStream.Ending) (back : List Token) :
    reading.run ending (front ++ back) = next.run ending back := by
  induction front generalizing reading with
  | nil =>
    obtain rfl := Option.some.inj h
    rfl
  | cons token front ih =>
    obtain ⟨middle, hmiddle, hrest⟩ := Option.bind_eq_some_iff.mp h
    rw [List.cons_append, run, hmiddle]
    exact ih hrest

/-- If not all tokens can be taken, there is a first one that cannot. -/
theorem exists_refused {reading : Reading} {row : List Token} (h : reading.reads row = none) :
    ∃ front token back next, row = front ++ token :: back ∧ reading.reads front = some next ∧
      next.step token = none := by
  induction row generalizing reading with
  | nil => cases h
  | cons token row ih =>
    cases hstep : reading.step token with
    | none => exact ⟨[], token, row, reading, rfl, rfl, hstep⟩
    | some middle =>
      rw [reads_cons, hstep] at h
      obtain ⟨front, other, back, next, rfl, hfront, hother⟩ := ih h
      refine ⟨token :: front, other, back, next, rfl, ?_, hother⟩
      rw [reads_cons, hstep]
      exact hfront

/-- The reading of a stream ends without a problem. -/
theorem ofStream_of_grammatical {stream : TokenStream} {document : Document} (lexes : stream.Lexes)
    (grammatical : document.Grammatical) (tokens : document.tokens = stream.tokens) :
    ofStream stream = (body document.header document.declarations none, none) := by
  have hreads := (reads_start_eq_iff document stream.tokens).mpr ⟨grammatical, tokens⟩
  have hrun := run_of_reads hreads stream.ending []
  rw [List.append_nil] at hrun
  rw [ofStream, hrun, run]
  unfold TokenStream.Lexes at lexes
  cases hending : stream.ending with
  | endOfInput position => rfl
  | error failure =>
    rw [hending] at lexes
    cases lexes

/-- The reading of a stream ends with a problem at an item, after a row of tokens was taken. -/
def FailsAt (stream : TokenStream) (front : List Token) (item : StreamItem) : Prop :=
  ∃ reading problem, ofStream stream = (reading, some problem) ∧
    start.reads front = some reading ∧ problem.position = item.position

/-- Either a stream lexes and derives, and is read to a document with the tokens of the stream, or
the reading ends at the item where the stream leaves the grammar. -/
theorem ofStream_spec (stream : TokenStream) :
    (stream.Lexes ∧ ∃ document : Document, document.Grammatical ∧
      document.tokens = stream.tokens ∧
      ofStream stream = (body document.header document.declarations none, none)) ∨
    ∃ front item, stream.IsOffence front item ∧ FailsAt stream front item := by
  cases hreads : start.reads stream.tokens with
  | none =>
    -- some token cannot be taken
    obtain ⟨front, token, back, next, htokens, hfront, hstep⟩ := exists_refused hreads
    have hrefused : start.reads (front ++ [token]) = none := by
      rw [reads_append, hfront, Option.bind_some, reads_cons, hstep, Option.bind_none]
    refine .inr ⟨front, .token token, .token htokens ?_ ?_, next, _, ?_, hfront,
      (next.expectation.refusal_fatal token).2⟩
    · exact (reads_start_isSome_iff front).mp (by rw [hfront]; rfl)
    · intro hviable
      rw [StreamItem.MayFollow, ← List.map_singleton, ← List.map_append,
        ← reads_start_isSome_iff, hrefused] at hviable
      cases hviable
    · rw [ofStream, htokens, run_of_reads hfront, run, hstep]
  | some reading =>
    -- all tokens have been taken, so the end decides
    have hrun : ofStream stream = (reading, reading.endProblem? stream.ending) := by
      have hall := run_of_reads hreads stream.ending []
      rw [List.append_nil] at hall
      rw [ofStream, hall, run]
    have hviable : Viable stream.kinds := (reads_start_isSome_iff _).mp (by rw [hreads]; rfl)
    cases hproblem : reading.endProblem? stream.ending with
    | some problem =>
      refine .inr ⟨stream.tokens, .ending stream.ending, .ending hviable ?_, reading, problem, ?_,
        hreads, (endProblem?_fatal hproblem).2⟩
      · intro hfollows
        cases hending : stream.ending with
        | error failure =>
          rw [hending] at hfollows
          exact hfollows
        | endOfInput position =>
          -- a row that derives is read to a document, which may end
          rw [hending] at hfollows hproblem
          obtain ⟨document, hdocument⟩ := (derivable_iff _).mp hfollows
          rw [hreads] at hdocument
          obtain rfl := Option.some.inj hdocument
          cases hproblem
      · rw [hrun, hproblem]
    | none =>
      unfold endProblem? at hproblem
      split at hproblem
      case h_1 => cases hproblem
      case h_2 position hending =>
        split at hproblem
        case h_2 => cases hproblem
        case h_1 document hdocument =>
          obtain rfl := document?_eq_some_iff.mp hdocument
          obtain ⟨hgrammatical, htokens⟩ := (reads_start_eq_iff document _).mp hreads
          have hlexes : stream.Lexes := by
            rw [TokenStream.Lexes, hending]
            rfl
          exact .inl ⟨hlexes, document, hgrammatical, htokens,
            ofStream_of_grammatical hlexes hgrammatical htokens⟩

end Reading

/-! ### Checking a source text -/

namespace Schema

/-- The tokens of a source text that carry meaning. -/
def stream (file : Path) (source : String) : TokenStream :=
  (TokenStream.ofSource file source).meaningful

/-- A source text is checked without a fatal diagnostic if and only if its tokens derive from the
grammar, and then the tree has the constructs of the derivation.  Otherwise the one fatal diagnostic
is at the item where the source text leaves the grammar. -/
theorem check_recognizes (file : Path) (source : String) :
    ((check file source).fatal = [] ↔
      (stream file source).Lexes ∧ Derivable (stream file source).kinds) ∧
    ((check file source).fatal = [] → ∀ outline : Outline, outline.IsDocument →
      outline.yield = (stream file source).kinds → (check file source).fragment.outline = outline) ∧
    ((check file source).fatal ≠ [] → ∃ front item diagnostic,
      (stream file source).IsOffence front item ∧ (check file source).fatal = [diagnostic] ∧
      diagnostic.position = item.position) := by
  rw [fatal_check file source]
  rcases Reading.ofStream_spec (stream file source) with
    ⟨hlexes, document, hgrammatical, htokens, hread⟩ | ⟨front, item, hoffence, hfails⟩
  · have hnone : (Reading.ofStream (stream file source)).2 = none := by rw [hread]
    have hderivable : Derivable (stream file source).kinds :=
      derivable_iff_grammatical.mpr ⟨document, hgrammatical, htokens⟩
    have hfragment : (check file source).fragment = document.fragment file source.toList := by
      unfold check
      rw [← stream, hread]
      rfl
    rw [← stream, hnone]
    refine ⟨⟨fun _ => ⟨hlexes, hderivable⟩, fun _ => rfl⟩, ?_, fun hsome => absurd rfl hsome⟩
    intro _ outline hrule hyield
    obtain ⟨other, hother, hrow, houtline⟩ :=
      realized_document file outline (stream file source).tokens hrule hyield
    have hsame : document = other := hgrammatical.eq_of_tokens hother (htokens.trans hrow.symm)
    rw [hfragment, hsame]
    exact houtline source.toList
  · obtain ⟨reading, problem, hread, -, hposition⟩ := hfails
    have hsome : (Reading.ofStream (stream file source)).2 = some problem := by rw [hread]
    rw [← stream, hsome]
    refine ⟨⟨?_, ?_⟩, ?_, ?_⟩
    · intro hnone
      cases hnone
    · rintro ⟨hlexes, hderivable⟩
      exact absurd hoffence (TokenStream.not_isOffence hlexes hderivable)
    · intro hnone
      cases hnone
    · intro _
      exact ⟨front, item, problem.diagnostic, hoffence, rfl, hposition⟩

end Schema

end GraphSchema
