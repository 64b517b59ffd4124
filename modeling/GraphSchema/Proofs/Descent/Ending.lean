import GraphSchema.Proofs.Descent.Rules
import GraphSchema.Proofs.Steps

/-!
# Descent comes to an end

A rule takes tokens in a row.  `Rule.Ends` says that it comes to an end wherever it begins, and how
many tokens a value costs at least.  Costs add up along a rule (`Rule.Ends.bind`).  A loop comes to
an end if every turn that goes on costs a token (`Rule.loop_ends`): only there is the number of
upcoming tokens counted down (`Rule.turn_induction`).

All four loops are such, so every rule ends, and so does the descent (`Rule.document_ends`).
-/

namespace GraphSchema

namespace Rule

variable {σ α β : Type}

/-- Two rules in a row: the second begins where the first has ended well. -/
theorem bind_apply (rule : Rule α) (next : α → Rule β) (lexer : Lexer) :
    (rule >>= next) lexer = match rule lexer with
      | none => none
      | some (.error problem, rest) => some (.error problem, rest)
      | some (.ok value, rest) => next value rest := by
  rw [show (rule >>= next) lexer = (rule lexer >>= fun result => _) from rfl]
  rcases rule lexer with _ | ⟨_ | _, _⟩ <;> rfl

theorem bind_of_ok {rule : Rule α} {lexer rest : Lexer} {value : α}
    (h : rule lexer = some (.ok value, rest)) (next : α → Rule β) :
    (rule >>= next) lexer = next value rest := by
  rw [bind_apply, h]

theorem bind_of_error {rule : Rule α} {lexer rest : Lexer} {problem : Problem}
    (h : rule lexer = some (.error problem, rest)) (next : α → Rule β) :
    (rule >>= next) lexer = some (.error problem, rest) := by
  rw [bind_apply, h]

/-- If two rules in a row give a value, the first gave one to the second. -/
theorem exists_of_bind {rule : Rule α} {next : α → Rule β} {lexer rest : Lexer} {value : β}
    (h : (rule >>= next) lexer = some (.ok value, rest)) : ∃ first middle,
    rule lexer = some (.ok first, middle) ∧ next first middle = some (.ok value, rest) := by
  rw [bind_apply] at h
  match hresult : rule lexer with
  | none => rw [hresult] at h; cases h
  | some (.error problem, middle) => rw [hresult] at h; cases h
  | some (.ok first, middle) => exact ⟨first, middle, rfl, by rw [hresult] at h; exact h⟩

/-! ### What rules cost -/

/-- A rule comes to an end wherever it begins; on the way it takes tokens, and what it gives costs
the given number of them at least. -/
def Ends (cost : α → Nat) (rule : Rule α) : Prop :=
  ∀ lexer, ∃ outcome rest taken, rule lexer = some (outcome, rest) ∧ lexer.Passes taken rest ∧
    ∀ value, outcome = .ok value → cost value ≤ taken.length

/-- A rule may be said to cost less than it does. -/
theorem Ends.mono {cost less : α → Nat} {rule : Rule α} (h : rule.Ends cost)
    (le : ∀ value, less value ≤ cost value) : rule.Ends less := by
  intro lexer
  obtain ⟨outcome, rest, taken, hresult, hpasses, hcost⟩ := h lexer
  exact ⟨outcome, rest, taken, hresult, hpasses, fun value hvalue =>
    Nat.le_trans (le value) (hcost value hvalue)⟩

theorem pure_ends {cost : α → Nat} {value : α} (free : cost value = 0) :
    (pure value : Rule α).Ends cost := by
  intro lexer
  refine ⟨.ok value, lexer, [], rfl, .stay lexer, ?_⟩
  rintro same hsame
  obtain rfl := Except.ok.inj hsame
  exact Nat.le_of_eq free

theorem throw_ends (cost : α → Nat) (problem : Problem) :
    (throw problem : Rule α).Ends cost := by
  intro lexer
  exact ⟨.error problem, lexer, [], rfl, .stay lexer, fun value hvalue => by cases hvalue⟩

/-- What a rule does not cost, the next one has to. -/
theorem Ends.bind {least : Nat} {cost : β → Nat} {rule : Rule α} {next : α → Rule β}
    (h : rule.Ends fun _ => least)
    (hnext : ∀ value, (next value).Ends fun last => cost last - least) :
    (rule >>= next).Ends cost := by
  intro lexer
  obtain ⟨outcome, middle, taken, hresult, hpasses, hcost⟩ := h lexer
  cases outcome with
  | error problem =>
    -- the next rule does not begin
    exact ⟨.error problem, middle, taken, bind_of_error hresult next, hpasses,
      fun value hvalue => by cases hvalue⟩
  | ok value =>
    obtain ⟨last, rest, more, hlast, hmore, hrest⟩ := hnext value middle
    refine ⟨last, rest, taken ++ more, (bind_of_ok hresult next).trans hlast,
      hpasses.append hmore, ?_⟩
    intro final hfinal
    have hfirst : least ≤ taken.length := hcost value rfl
    have hsecond : cost final - least ≤ more.length := hrest final hfinal
    rw [List.length_append]
    omega

/-- What taking a token comes to: the first upcoming token is taken, or something is wrong with it,
or there is none. -/
inductive Takes (expectation : Expectation) (step : Token → Option α) (stream : TokenStream) :
    Except Problem α → Lexer → Prop
  | taken {token : Token} {value : α} {rest : Lexer}
      (upcoming : stream = ⟨token :: rest.upcoming.tokens, rest.upcoming.ending⟩)
      (takes : step token = some value) : Takes expectation step stream (.ok value) rest
  | refused {token : Token} {rest : Lexer}
      (upcoming : stream = ⟨token :: rest.upcoming.tokens, rest.upcoming.ending⟩)
      (refuses : step token = none) :
      Takes expectation step stream (.error (expectation.refusal token)) rest
  | ended {position : Cursor} {rest : Lexer} (upcoming : stream = ⟨[], .endOfInput position⟩)
      (none : rest.upcoming.tokens = []) :
      Takes expectation step stream (.error (.unexpectedEnd expectation.text position)) rest
  | failed {failure : LexError} {rest : Lexer} (upcoming : stream = ⟨[], .error failure⟩)
      (none : rest.upcoming.tokens = []) :
      Takes expectation step stream (.error (.lexical failure)) rest

/-- A token is taken from the lexer, and refused if the step has no value for it. -/
theorem take_apply (expectation : Expectation) (step : Token → Option α) (lexer : Lexer) :
    take expectation step lexer = match lexer.nextToken with
      | none => none
      | some (.error problem, rest) => some (.error problem, rest)
      | some (.ok none, rest) =>
        some (.error (.unexpectedEnd expectation.text rest.endCursor), rest)
      | some (.ok (some token), rest) =>
        match step token with
        | some value => some (.ok value, rest)
        | none => some (.error (expectation.refusal token), rest) := by
  rw [take, bind_apply, show nextToken lexer = lexer.nextToken from rfl]
  rcases lexer.nextToken with _ | ⟨_ | _ | token, rest⟩
  · rfl
  · rfl
  · rfl
  · dsimp only
    cases step token <;> rfl

/-- Taking a token always comes to one of the outcomes of `Takes`. -/
theorem exists_take (expectation : Expectation) (step : Token → Option α) (lexer : Lexer) :
    ∃ outcome rest, take expectation step lexer = some (outcome, rest) ∧
      Takes expectation step lexer.upcoming outcome rest := by
  obtain ⟨result, rest, hresult, hyields⟩ := lexer.exists_nextToken
  rw [take_apply, hresult]
  cases hyields with
  | @token token _ upcoming =>
    cases hstep : step token with
    | some value => exact ⟨.ok value, rest, by simp only [hstep], .taken upcoming hstep⟩
    | none => exact ⟨.error _, rest, by simp only [hstep], .refused upcoming hstep⟩
  | ended upcoming finished =>
    rw [← Lexer.endCursor_of_finished finished] at upcoming
    exact ⟨.error _, rest, rfl, .ended upcoming (by rw [Lexer.upcoming_of_finished finished])⟩
  | failed upcoming finished =>
    exact ⟨.error _, rest, rfl, .failed upcoming (by rw [Lexer.upcoming_of_finished finished])⟩

/-- Taking a token costs that token. -/
theorem take_ends (expectation : Expectation) (step : Token → Option α) :
    (take expectation step).Ends fun _ => 1 := by
  intro lexer
  obtain ⟨result, rest, hasked, hyields⟩ := lexer.exists_nextToken
  rw [take_apply, hasked]
  cases hyields with
  | @token token _ _ =>
    have hpasses : lexer.Passes [token] rest := .token hasked (.stay rest)
    cases hstep : step token with
    | some value =>
      exact ⟨.ok value, rest, _, by simp only [hstep], hpasses, fun _ _ => Nat.le_refl 1⟩
    | none =>
      exact ⟨.error (expectation.refusal token), rest, _, by simp only [hstep], hpasses,
        fun _ _ => Nat.le_refl 1⟩
  | ended | failed =>
    exact ⟨.error _, rest, [], rfl, .nothing hasked (fun _ h => by cases h) (.stay rest),
      fun _ hvalue => by cases hvalue⟩

/-- What looking ahead comes to: the first upcoming token, or none, or the lexical error. -/
inductive Peeks (stream : TokenStream) : Except Problem (Option Token) → Prop
  | token {token : Token} {others : List Token} (upcoming : stream.tokens = token :: others) :
      Peeks stream (.ok (some token))
  | ended {position : Cursor} (upcoming : stream = ⟨[], .endOfInput position⟩) :
      Peeks stream (.ok none)
  | failed {failure : LexError} (upcoming : stream = ⟨[], .error failure⟩) :
      Peeks stream (.error (.lexical failure))

/-- Looking ahead always comes to one of the outcomes of `Peeks`, and takes nothing. -/
theorem exists_peek (lexer : Lexer) :
    ∃ outcome, peek lexer = some (outcome, lexer) ∧ Peeks lexer.upcoming outcome := by
  obtain ⟨result, rest, hresult, hyields⟩ := lexer.exists_peek
  refine ⟨result, hresult, ?_⟩
  cases hyields with
  | token upcoming => exact .token (by rw [upcoming])
  | ended upcoming _ => exact .ended upcoming
  | failed upcoming _ => exact .failed upcoming

theorem peek_ends : peek.Ends fun _ => 0 := by
  intro lexer
  obtain ⟨outcome, houtcome, -⟩ := exists_peek lexer
  exact ⟨outcome, lexer, [], houtcome, .stay lexer, fun _ _ => Nat.zero_le _⟩

/-- Looking ahead for a kind answers from the first upcoming token, or fails with the lexical error
if there is none. -/
theorem exists_peekIs (kind : TokenKind) (lexer : Lexer) :
    (peekIs kind lexer =
      some (.ok (lexer.upcoming.tokens.head?.any (·.kind = kind)), lexer)) ∨
    ∃ failure, lexer.upcoming = ⟨[], .error failure⟩ ∧
      peekIs kind lexer = some (.error (.lexical failure), lexer) := by
  obtain ⟨outcome, hpeek, hpeeks⟩ := exists_peek lexer
  cases hpeeks with
  | token upcoming => exact .inl ((bind_of_ok hpeek _).trans (by rw [upcoming]; rfl))
  | ended upcoming => exact .inl ((bind_of_ok hpeek _).trans (by rw [upcoming]; rfl))
  | failed upcoming => exact .inr ⟨_, upcoming, bind_of_error hpeek _⟩

theorem peekIs_ends (kind : TokenKind) : (peekIs kind).Ends fun _ => 0 :=
  peek_ends.bind fun _ => pure_ends rfl

/-- What a turn of a loop costs if a turn that goes on costs a token. -/
def turnCost (last : Nat) : Progress σ α → Nat
  | .more _ => 1
  | .done _ => last

/-- A turn that costs what a loop does, and at least a token, is dear enough either way. -/
theorem turnCost_le {last : Nat} (h : 1 ≤ last) (result : Progress σ α) :
    turnCost last result ≤ last := by
  cases result with
  | more next => exact h
  | done value => exact Nat.le_refl last

/-- A loop makes one turn, and then stops or goes on from where the turn has ended. -/
theorem loop_apply (turn : σ → Rule (Progress σ α)) (state : σ) (lexer : Lexer) :
    loop turn state lexer = match turn state lexer with
      | none => none
      | some (.error problem, rest) => some (.error problem, rest)
      | some (.ok (.more next), rest) => loop turn next rest
      | some (.ok (.done value), rest) => some (.ok value, rest) := by
  rw [loop, repeated_eq, turnAt]
  rcases turn state lexer with _ | ⟨_ | _ | _, _⟩ <;> rfl

/-- What holds at a turn if it holds at the turn after it holds at every turn, as turns that go on
cost a token. -/
theorem turn_induction {turn : σ → Rule (Progress σ α)} {last : Nat}
    (ends : ∀ state, (turn state).Ends (turnCost last)) {motive : σ → Lexer → Prop}
    (turns : ∀ state lexer, (∀ next rest,
      turn state lexer = some (.ok (.more next), rest) → motive next rest) → motive state lexer)
    (state : σ) (lexer : Lexer) : motive state lexer := by
  -- by induction on the number of upcoming tokens, as the state may grow from turn to turn
  induction hlength : lexer.upcoming.tokens.length using Nat.strongRecOn
    generalizing state lexer with
  | _ length ih =>
    refine turns state lexer fun next rest hmore => ih _ ?_ next rest rfl
    obtain ⟨outcome, middle, taken, hresult, hpasses, hcost⟩ := ends state lexer
    cases hresult.symm.trans hmore
    have hpaid : 1 ≤ taken.length := hcost _ rfl
    rw [← hlength, hpasses.upcoming, List.length_append]
    omega

/-- A loop ends if every turn ends and none goes on for nothing. -/
theorem loop_ends {turn : σ → Rule (Progress σ α)} {last : Nat}
    (ends : ∀ state, (turn state).Ends (turnCost last)) (state : σ) :
    (loop turn state).Ends fun _ => last := by
  intro lexer
  induction state, lexer using turn_induction ends with
  | turns state lexer ih =>
    obtain ⟨outcome, middle, taken, hresult, hpasses, hcost⟩ := ends state lexer
    rw [loop_apply, hresult]
    match outcome with
    | .error problem => exact ⟨_, _, taken, rfl, hpasses, fun value hvalue => by cases hvalue⟩
    | .ok (.done value) => exact ⟨_, _, taken, rfl, hpasses, fun _ _ => hcost _ rfl⟩
    | .ok (.more next) =>
      obtain ⟨outcome, rest, more, hlast, hmore, hrest⟩ := ih next middle hresult
      refine ⟨outcome, rest, taken ++ more, hlast, hpasses.append hmore, fun value hvalue => ?_⟩
      have hothers := hrest value hvalue
      rw [List.length_append]
      omega

/-! ### The rules -/

theorem designationTurn_ends (modifiers : List Token) :
    (designationTurn modifiers).Ends fun _ => 1 :=
  take_ends _ _

/-- Every turn of a designation takes a modifier or the name at its end. -/
theorem designation_ends : designation.Ends fun _ => 1 :=
  loop_ends (fun modifiers => (designationTurn_ends modifiers).mono
    (turnCost_le (Nat.le_refl 1))) []

theorem lowerName_ends : lowerName.Ends fun _ => 1 :=
  take_ends _ _

theorem typeName_ends : typeName.Ends fun _ => 1 :=
  take_ends _ _

theorem expect_ends (kind : TokenKind) : (expect kind).Ends fun _ => 1 :=
  take_ends _ _

theorem typed_ends : typed.Ends fun _ => 2 :=
  lowerName_ends.bind fun _ => designation_ends.bind fun _ => pure_ends rfl

theorem parameterTurn_ends (entries : List (TypedName × Token)) :
    (parameterTurn entries).Ends fun _ => 3 :=
  typed_ends.bind fun _ => take_ends _ _

/-- A parameter costs a name, a type and what follows it, so no turn is for nothing. -/
theorem parameterList_ends : parameterList.Ends fun _ => 4 :=
  have hloop : (loop parameterTurn []).Ends fun _ => 3 :=
    loop_ends (fun entries => (parameterTurn_ends entries).mono (turnCost_le (by decide))) []
  (expect_ends _).bind fun _ => hloop.bind fun _ => pure_ends rfl

/-- A signature costs a name and a type, with parameters or without. -/
theorem signature_ends : signature.Ends fun _ => 2 := by
  refine lowerName_ends.bind fun name => (peekIs_ends _).bind fun applied => ?_
  cases applied with
  | true =>
    exact (parameterList_ends.bind fun _ => designation_ends.bind fun _ => pure_ends rfl)
  | false => exact designation_ends.bind fun _ => pure_ends rfl

theorem member_ends (body : Body) : (member body).Ends fun _ => 1 := by
  cases body with
  | enum values => exact lowerName_ends.bind fun _ => pure_ends rfl
  | union options => exact designation_ends.bind fun _ => pure_ends rfl
  | struct fields => exact typed_ends.bind fun _ => pure_ends rfl
  | resolver properties => exact signature_ends.bind fun _ => pure_ends rfl

/-- The turn that meets the closing brace leaves it where it is, and is the last one. -/
theorem memberTurn_ends (body : Body) : (memberTurn body).Ends (turnCost 0) := by
  refine (peekIs_ends _).bind fun closed => ?_
  cases closed with
  | true => exact pure_ends rfl
  | false => exact (member_ends body).bind fun _ => pure_ends rfl

theorem typeAlias_ends : typeAlias.Ends fun _ => 4 :=
  (expect_ends _).bind fun _ => typeName_ends.bind fun _ => (expect_ends _).bind fun _ =>
    typeName_ends.bind fun _ => pure_ends rfl

theorem block_ends (kind : BlockKind) : (block kind).Ends fun _ => 4 :=
  (expect_ends _).bind fun _ => typeName_ends.bind fun _ => (expect_ends _).bind fun _ =>
    (loop_ends memberTurn_ends _).bind fun _ => (expect_ends _).bind fun _ => pure_ends rfl

theorem endpoint_ends (kind : EndpointKind) : (endpoint kind).Ends fun _ => 3 :=
  (expect_ends _).bind fun _ => signature_ends.bind fun _ => pure_ends rfl

/-- A declaration costs three tokens at least, and a token that begins none is refused. -/
theorem declaration_ends (token : Token) : (declaration token).Ends fun _ => 3 := by
  -- the shortest declaration is an endpoint with a plain designation
  have hblock (kind : BlockKind) : (block kind).Ends fun _ => 3 :=
    (block_ends kind).mono fun _ => Nat.le_succ 3
  unfold declaration
  split
  · exact typeAlias_ends.mono fun _ => Nat.le_succ 3
  · exact hblock .enum
  · exact hblock .union
  · exact hblock .struct
  · exact hblock .resolver
  · exact endpoint_ends .query
  · exact endpoint_ends .mutation
  · exact throw_ends _ _

/-- The turn that meets the end of the input takes nothing, and is the last one. -/
theorem documentTurn_ends (declarations : List Declaration) :
    (documentTurn declarations).Ends (turnCost 0) := by
  refine peek_ends.bind fun next? => ?_
  cases next? with
  | none => exact pure_ends rfl
  | some token =>
    exact (declaration_ends token).bind fun _ => pure_ends rfl

theorem header_ends : header.Ends fun _ => 2 :=
  (expect_ends _).bind fun _ => lowerName_ends.bind fun _ => pure_ends rfl

/-- Descent comes to an end. -/
theorem document_ends : document.Ends fun _ => 2 :=
  header_ends.bind fun _ => (loop_ends documentTurn_ends _).bind fun _ => pure_ends rfl

end Rule

end GraphSchema
