import GraphSchema.Proofs.Descent.Ending

/-!
# Turns of the loops

A turn of a loop of the descent gives a problem, or it takes a token at least, or the loop ends here
(`Rule.Turned`).  A loop over members ends at a closing brace only, and the loop over declarations
at the end of the input only; the other two never end for nothing.  So where no token is left, a
turn gives the problem that tells so, be it in an open list, between open braces or at a lexical
error that is only looked at (`Rule.Asks`).

The turns of a loop that go on are no more than the tokens they take (`Rule.goesOn_le`).
-/

namespace GraphSchema

namespace Rule

variable {σ α β : Type}

/-! ### Where no token is left -/

/-- The problem with a row of tokens that ends too early: the end of the input, or the lexical
error. -/
def IsEndProblem : TokenStream.Ending → Problem → Prop
  | .endOfInput position, problem => ∃ expected, problem = .unexpectedEnd expected position
  | .error failure, problem => problem = .lexical failure

/-- A rule asks for a token first, so it fails where none is left. -/
def Asks (rule : Rule α) : Prop :=
  ∀ lexer, lexer.upcoming.tokens = [] → ∃ problem rest, rule lexer = some (.error problem, rest) ∧
    IsEndProblem lexer.upcoming.ending problem

theorem Asks.bind {rule : Rule α} (h : rule.Asks) (next : α → Rule β) : (rule >>= next).Asks := by
  intro lexer hnone
  obtain ⟨problem, rest, hresult, hproblem⟩ := h lexer hnone
  exact ⟨problem, rest, bind_of_error hresult next, hproblem⟩

theorem take_asks (expectation : Expectation) (step : Token → Option α) :
    (take expectation step).Asks := by
  intro lexer hnone
  obtain ⟨outcome, rest, hresult, htakes⟩ := exists_take expectation step lexer
  cases htakes with
  | taken upcoming _ | refused upcoming _ =>
    rw [upcoming] at hnone
    cases hnone
  | ended upcoming _ =>
    rw [upcoming]
    exact ⟨_, rest, hresult, _, rfl⟩
  | failed upcoming _ =>
    rw [upcoming]
    exact ⟨_, rest, hresult, rfl⟩

theorem loop_asks {turn : σ → Rule (Progress σ α)} (h : ∀ state, (turn state).Asks) (state : σ) :
    (loop turn state).Asks := by
  intro lexer hnone
  obtain ⟨problem, rest, hresult, hproblem⟩ := h state lexer hnone
  exact ⟨problem, rest, by rw [loop_apply, hresult], hproblem⟩

theorem designationTurn_asks (modifiers : List Token) : (designationTurn modifiers).Asks :=
  take_asks _ _

theorem lowerName_asks : lowerName.Asks :=
  take_asks _ _

theorem typed_asks : typed.Asks :=
  lowerName_asks.bind _

theorem parameterTurn_asks (entries : List (TypedName × Token)) : (parameterTurn entries).Asks :=
  typed_asks.bind _

theorem member_asks (body : Body) : (member body).Asks := by
  cases body with
  | enum values => exact lowerName_asks.bind _
  | union options => exact (loop_asks designationTurn_asks []).bind _
  | struct fields => exact typed_asks.bind _
  | resolver properties => exact (lowerName_asks.bind _).bind _

/-- Between braces no token is left: there is another member to be tried, or the lexical error is
seen ahead. -/
theorem memberTurn_asks (body : Body) : (memberTurn body).Asks := by
  intro lexer hnone
  rcases exists_peekIs .braceClose lexer with hclosed | ⟨failure, upcoming, hfailed⟩
  · obtain ⟨problem, rest, hmember, hproblem⟩ := member_asks body lexer hnone
    rw [hnone] at hclosed
    exact ⟨problem, rest, (bind_of_ok hclosed _).trans (bind_of_error hmember _), hproblem⟩
  · exact ⟨_, lexer, bind_of_error hfailed _, by rw [upcoming]; rfl⟩

/-! ### What a turn does -/

/-- What a turn of a loop comes to. -/
inductive Turned (exits : TokenStream → Prop) (lexer : Lexer) :
    Except Problem (Progress σ α) → Lexer → Prop
  | failed (problem : Problem) (rest : Lexer) : Turned exits lexer (.error problem) rest
  | taken (result : Progress σ α) {rest : Lexer} {row : List Token} (passes : lexer.Passes row rest)
      (some : row ≠ []) : Turned exits lexer (.ok result) rest
  | left (value : α) (exit : exits lexer.upcoming) : Turned exits lexer (.ok (.done value)) lexer

/-- A turn of a loop leads from a state and a lexer to others, and the loop goes on. -/
def GoesOn (turn : σ → Rule (Progress σ α)) (before after : σ × Lexer) : Prop :=
  turn before.1 before.2 = some (.ok (.more after.1), after.2)

/-- Turns that cost a token are no more than the tokens. -/
theorem goesOn_le {turn : σ → Rule (Progress σ α)} {last : Nat}
    (h : ∀ state, (turn state).Ends (turnCost last)) {count : Nat} {before after : σ × Lexer}
    (steps : Steps (GoesOn turn) count before after) :
    count + after.2.upcoming.tokens.length ≤ before.2.upcoming.tokens.length := by
  induction count generalizing before with
  | zero =>
    obtain rfl := steps
    exact Nat.le_of_eq (Nat.zero_add _)
  | succ count ih =>
    obtain ⟨middle, hturn, hrest⟩ := steps
    obtain ⟨outcome, rest, taken, hresult, hpasses, hcost⟩ := h before.1 before.2
    obtain ⟨rfl, rfl⟩ := Prod.mk.inj (Option.some.inj (hresult.symm.trans hturn))
    have hpaid : 1 ≤ taken.length := hcost _ rfl
    have hothers := ih hrest
    rw [hpasses.upcoming, List.length_append]
    omega

/-- The turns of a loop end and go ahead: each of them gives a problem or takes a token, unless the
loop ends there; without a token left it gives the problem that tells so, unless the loop ends
there; and there are no more of them than tokens are taken. -/
structure Advances (turn : σ → Rule (Progress σ α)) (exits : TokenStream → Prop) : Prop where
  turned : ∀ state lexer, ∃ outcome rest, turn state lexer = some (outcome, rest) ∧
    Turned exits lexer outcome rest
  failed : ∀ state lexer, lexer.upcoming.tokens = [] → ¬ exits lexer.upcoming →
    ∃ problem rest, turn state lexer = some (.error problem, rest) ∧
      IsEndProblem lexer.upcoming.ending problem
  bounded : ∀ {count before after}, Steps (GoesOn turn) count before after →
    count + after.2.upcoming.tokens.length ≤ before.2.upcoming.tokens.length

/-- A loop that has ended has ended by a turn. -/
theorem exists_last_turn {turn : σ → Rule (Progress σ α)} {last : Nat}
    (ends : ∀ state, (turn state).Ends (turnCost last)) {state : σ} {lexer rest : Lexer} {value : α}
    (h : loop turn state lexer = some (.ok value, rest)) :
    ∃ final before, turn final before = some (.ok (.done value), rest) := by
  induction state, lexer using turn_induction ends with
  | turns state lexer ih =>
    obtain ⟨outcome, middle, -, hresult, -, -⟩ := ends state lexer
    rw [loop_apply, hresult] at h
    match outcome with
    | .error problem => cases h
    | .ok (.done value) =>
      cases h
      exact ⟨state, lexer, hresult⟩
    | .ok (.more next) => exact ih next middle hresult h

/-- A rule that always costs a token is never left for nothing. -/
theorem Ends.turned {rule : Rule (Progress σ α)} {least : Nat} (h : rule.Ends fun _ => least + 1)
    (exits : TokenStream → Prop) (lexer : Lexer) :
    ∃ outcome rest, rule lexer = some (outcome, rest) ∧ Turned exits lexer outcome rest := by
  obtain ⟨outcome, rest, taken, hresult, hpasses, hcost⟩ := h lexer
  refine ⟨outcome, rest, hresult, ?_⟩
  cases outcome with
  | error problem => exact .failed problem rest
  | ok result =>
    refine .taken result hpasses ?_
    rintro rfl
    exact Nat.not_succ_le_zero least (hcost result rfl)

/-- A rule that goes on only if that costs a token is left for nothing only where the loop ends. -/
theorem Ends.turned_or_left {rule : Rule (Progress σ α)} (h : rule.Ends (turnCost 0))
    {exits : TokenStream → Prop} {lexer : Lexer} (left : ∀ value rest,
      rule lexer = some (.ok (.done value), rest) → rest = lexer ∧ exits lexer.upcoming) :
    ∃ outcome rest, rule lexer = some (outcome, rest) ∧ Turned exits lexer outcome rest := by
  obtain ⟨outcome, rest, taken, hresult, hpasses, hcost⟩ := h lexer
  refine ⟨outcome, rest, hresult, ?_⟩
  match outcome with
  | .error problem => exact .failed problem rest
  | .ok (.more next) =>
    refine .taken _ hpasses ?_
    rintro rfl
    exact Nat.not_succ_le_zero 0 (hcost _ rfl)
  | .ok (.done value) =>
    obtain ⟨rfl, hexit⟩ := left value rest hresult
    exact .left value hexit

/-- No loop ends for nothing. -/
def Never (_ : TokenStream) : Prop :=
  False

theorem designationTurn_advances : Advances designationTurn Never where
  turned := fun modifiers => (designationTurn_ends modifiers).turned Never
  failed := fun modifiers lexer hnone _ => designationTurn_asks modifiers lexer hnone
  bounded := fun {_ _ _} => goesOn_le fun modifiers =>
    (designationTurn_ends modifiers).mono (turnCost_le (Nat.le_refl 1))

theorem parameterTurn_advances : Advances parameterTurn Never where
  turned := fun entries => (parameterTurn_ends entries).turned Never
  failed := fun entries lexer hnone _ => parameterTurn_asks entries lexer hnone
  bounded := fun {_ _ _} => goesOn_le fun entries =>
    (parameterTurn_ends entries).mono (turnCost_le (by decide))

/-- The next token is a closing brace. -/
def AtBrace (stream : TokenStream) : Prop :=
  ∃ token ∈ stream.tokens.head?, token.kind = .braceClose

/-- Members end at a closing brace, which is not taken. -/
theorem memberTurn_done {body last : Body} {lexer rest : Lexer}
    (h : memberTurn body lexer = some (.ok (.done last), rest)) :
    rest = lexer ∧ AtBrace lexer.upcoming := by
  rcases exists_peekIs .braceClose lexer with hclosed | ⟨failure, -, hfailed⟩
  · cases hbrace : lexer.upcoming.tokens.head?.any (·.kind = .braceClose) with
    | true =>
      rw [hbrace] at hclosed
      cases (bind_of_ok hclosed _).symm.trans h
      exact ⟨rfl, by simpa [AtBrace, Option.any_eq_true] using hbrace⟩
    | false =>
      -- a member was read, so the loop goes on
      rw [hbrace] at hclosed
      obtain ⟨_, _, -, hmore⟩ := exists_of_bind ((bind_of_ok hclosed _).symm.trans h)
      cases hmore
  · cases (bind_of_error hfailed _).symm.trans h

theorem memberTurn_advances : Advances memberTurn AtBrace where
  turned := fun body _ => (memberTurn_ends body).turned_or_left fun _ _ => memberTurn_done
  failed := fun body lexer hnone _ => memberTurn_asks body lexer hnone
  bounded := fun {_ _ _} => goesOn_le memberTurn_ends

/-- The input has ended. -/
def AtEnd (stream : TokenStream) : Prop :=
  ∃ position, stream = ⟨[], .endOfInput position⟩

/-- Declarations end at the end of the input. -/
theorem documentTurn_done {declarations last : List Declaration} {lexer rest : Lexer}
    (h : documentTurn declarations lexer = some (.ok (.done last), rest)) :
    rest = lexer ∧ AtEnd lexer.upcoming := by
  obtain ⟨outcome, hpeek, hpeeks⟩ := exists_peek lexer
  cases hpeeks with
  | token _ =>
    -- a declaration was read, so the loop goes on
    obtain ⟨_, _, -, hmore⟩ := exists_of_bind ((bind_of_ok hpeek _).symm.trans h)
    cases hmore
  | ended upcoming =>
    cases (bind_of_ok hpeek _).symm.trans h
    exact ⟨rfl, _, upcoming⟩
  | failed _ => cases (bind_of_error hpeek _).symm.trans h

/-- Where no token is left and the input has not ended, the lexical error is seen ahead. -/
theorem documentTurn_failed (declarations : List Declaration) (lexer : Lexer)
    (none : lexer.upcoming.tokens = []) (unfinished : ¬ AtEnd lexer.upcoming) :
    ∃ problem rest, documentTurn declarations lexer = some (.error problem, rest) ∧
      IsEndProblem lexer.upcoming.ending problem := by
  obtain ⟨outcome, hpeek, hpeeks⟩ := exists_peek lexer
  cases hpeeks with
  | token upcoming =>
    rw [none] at upcoming
    cases upcoming
  | ended upcoming => exact absurd ⟨_, upcoming⟩ unfinished
  | failed upcoming => exact ⟨_, lexer, bind_of_error hpeek _, by rw [upcoming]; rfl⟩

theorem documentTurn_advances : Advances documentTurn AtEnd where
  turned := fun declarations _ =>
    (documentTurn_ends declarations).turned_or_left fun _ _ => documentTurn_done
  failed := documentTurn_failed
  bounded := fun {_ _ _} => goesOn_le documentTurn_ends

end Rule

end GraphSchema
