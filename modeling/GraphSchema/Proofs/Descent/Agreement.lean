import GraphSchema.Proofs.Descent.Turns

/-!
# Descent agrees with the reader

The reader of a document looks at every token once and keeps the open parts in its state; the rules
of the descent keep them in the program.  A rule agrees with the reader if it takes the reader from
one state to another, or finds the problem that the reader finds, which stops where it may
(`Rule.Agrees`).

Agreement is composed like the rules are (`Rule.Agrees.bind`), and a loop agrees if its turns do
(`Rule.loop_agrees`).
-/

namespace GraphSchema

/-- Reads a stream after what has been read. -/
def Reading.on (reading : Reading) (stream : TokenStream) : Reading × Option Problem :=
  reading.run stream.ending stream.tokens

/-- What becomes of the streams that may follow. -/
abbrev Answer : Type :=
  TokenStream → Reading × Option Problem

namespace Rule

variable {σ α β : Type} {Stopped : Reading → Prop}

/-- A rule that begins at a lexer finds the problem that the reader finds, which stops at a reading
as described, or the reader goes on where the rule stops. -/
def Agrees (rule : Rule α) (Stopped : Reading → Prop) (before : Answer) (after : α → Answer)
    (lexer : Lexer) : Prop :=
  ∀ outcome rest, rule lexer = some (outcome, rest) →
    match outcome with
    | .ok value => before lexer.upcoming = after value rest.upcoming
    | .error problem => (before lexer.upcoming).2 = some problem ∧ Stopped (before lexer.upcoming).1

theorem agrees_pure {before : Answer} {after : α → Answer} {value : α} {lexer : Lexer}
    (h : before lexer.upcoming = after value lexer.upcoming) :
    (pure value : Rule α).Agrees Stopped before after lexer := by
  intro outcome rest hresult
  cases hresult
  exact h

theorem Agrees.bind {rule : Rule α} {next : α → Rule β} {before : Answer} {middle : α → Answer}
    {after : β → Answer} {lexer : Lexer} (h : rule.Agrees Stopped before middle lexer)
    (hnext : ∀ value rest, rule lexer = some (.ok value, rest) →
      (next value).Agrees Stopped (middle value) after rest) :
    (rule >>= next).Agrees Stopped before after lexer := by
  intro outcome last hlast
  rw [bind_apply] at hlast
  match hresult : rule lexer with
  | none => rw [hresult] at hlast; cases hlast
  | some (.error problem, rest) =>
    rw [hresult] at hlast
    cases hlast
    exact h _ _ hresult
  | some (.ok value, rest) =>
    rw [hresult] at hlast
    have hfirst : before lexer.upcoming = middle value rest.upcoming := h _ _ hresult
    have hrest := hnext value rest hresult outcome last hlast
    cases outcome with
    | ok result => exact hfirst.trans hrest
    | error problem =>
      rw [← hfirst] at hrest
      exact hrest

/-- A step of the reader is taken by taking a token. -/
theorem take_agrees {expectation : Expectation} {step : Token → Option α} {reading : Reading}
    {next : α → Reading} {lexer : Lexer} (expects : reading.expectation = expectation)
    (unfinished : reading.document? = none) (stops : Stopped reading)
    (steps : ∀ token ∈ lexer.upcoming.tokens.head?, reading.step token = (step token).map next) :
    (take expectation step).Agrees Stopped reading.on (fun value => (next value).on) lexer := by
  intro outcome rest hresult
  obtain ⟨_, _, hsome, htakes⟩ := exists_take expectation step lexer
  cases hsome.symm.trans hresult
  cases htakes with
  | @taken token value _ upcoming takes =>
    have hstep := steps token (by rw [upcoming]; rfl)
    show reading.on lexer.upcoming = (next value).on rest.upcoming
    rw [upcoming, Reading.on, Reading.run, hstep, takes]
    rfl
  | @refused token _ upcoming refuses =>
    have hstep := steps token (by rw [upcoming]; rfl)
    have hstop : reading.on lexer.upcoming =
        (reading, some (reading.expectation.refusal token)) := by
      rw [upcoming, Reading.on, Reading.run, hstep, refuses]
      rfl
    dsimp only
    rw [hstop, expects]
    exact ⟨rfl, stops⟩
  | ended upcoming _ =>
    -- something is still open, so the reader misses it at the end, too
    dsimp only
    rw [upcoming, Reading.on, Reading.run, Reading.endProblem?, unfinished, expects]
    exact ⟨rfl, stops⟩
  | failed upcoming _ =>
    dsimp only
    rw [upcoming]
    exact ⟨rfl, stops⟩

/-- A token that has been seen ahead is taken. -/
theorem expect_agrees {kind : TokenKind} {reading : Reading} {next : Token → Reading}
    {lexer : Lexer} {token : Token} (seen : token ∈ lexer.upcoming.tokens.head?)
    (isKind : token.kind = kind) (steps : reading.step token = some (next token)) :
    (expect kind).Agrees Stopped reading.on (fun value => (next value).on) lexer := by
  intro outcome rest hresult
  obtain ⟨_, _, hsome, htakes⟩ := exists_take (.kind kind)
    (fun token => if token.kind = kind then some token else none) lexer
  cases hsome.symm.trans hresult
  cases htakes with
  | @taken other value _ upcoming takes =>
    rw [upcoming] at seen
    obtain rfl : other = token := Option.some.inj seen
    rw [if_pos isKind] at takes
    obtain rfl := Option.some.inj takes
    show reading.on lexer.upcoming = (next other).on rest.upcoming
    rw [upcoming, Reading.on, Reading.run, steps]
    rfl
  | @refused other _ upcoming refuses =>
    rw [upcoming] at seen
    obtain rfl : other = token := Option.some.inj seen
    rw [if_pos isKind] at refuses
    cases refuses
  | ended upcoming _ | failed upcoming _ =>
    rw [upcoming] at seen
    cases seen

/-- What becomes of a loop that goes on or ends. -/
def turnAnswer (going : σ → Answer) (after : α → Answer) : Progress σ α → Answer
  | .more next => going next
  | .done value => after value

theorem Agrees.turn {rule : Rule (Progress σ α)} {before : Answer} {next : Progress σ α → Reading}
    {lexer : Lexer} (h : rule.Agrees Stopped before (fun result => (next result).on) lexer) :
    rule.Agrees Stopped before (turnAnswer (fun state => (next (.more state)).on)
      fun value => (next (.done value)).on) lexer := by
  intro outcome rest hresult
  have hafter := h outcome rest hresult
  match outcome with
  | .error problem => exact hafter
  | .ok (.more state) => exact hafter
  | .ok (.done value) => exact hafter

/-- A loop agrees with the reader if every turn does.  `Ready` says where a turn may begin. -/
theorem loop_agrees {turn : σ → Rule (Progress σ α)} {last : Nat} {going : σ → Answer}
    {after : α → Answer} (Ready : σ → TokenStream → Prop)
    (ends : ∀ state, (turn state).Ends (turnCost last))
    (agrees : ∀ state lexer, Ready state lexer.upcoming →
      (turn state).Agrees Stopped (going state) (turnAnswer going after) lexer)
    (ready : ∀ state lexer next rest, turn state lexer = some (.ok (.more next), rest) →
      Ready next rest.upcoming)
    {state : σ} {lexer : Lexer} (begins : Ready state lexer.upcoming) :
    (loop turn state).Agrees Stopped (going state) after lexer := by
  induction state, lexer using turn_induction ends with
  | turns state lexer ih =>
    obtain ⟨outcome, middle, -, hresult, -, -⟩ := ends state lexer
    have hturn := agrees state lexer begins _ _ hresult
    intro final rest hfinal
    rw [loop_apply, hresult] at hfinal
    match outcome with
    | .error problem =>
      cases hfinal
      exact hturn
    | .ok (.done value) =>
      cases hfinal
      exact hturn
    | .ok (.more next) =>
      -- the answer for this turn is the one for the next, which the induction gives
      have hrest := ih next middle hresult (ready _ _ _ _ hresult) final rest hfinal
      have hgoing : going state lexer.upcoming = going next middle.upcoming := hturn
      cases final with
      | ok value => exact hgoing.trans hrest
      | error problem =>
        rw [← hgoing] at hrest
        exact hrest

end Rule

end GraphSchema
