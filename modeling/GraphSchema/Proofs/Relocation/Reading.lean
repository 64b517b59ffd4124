import GraphSchema.Document.Reading

/-!
# Relocation

Places are carried along but do not decide what is read.  A relocation moves every token to another
place and keeps its kind and text (`Token.move`); everything that is made of tokens moves with them.
Reading commutes with a relocation, step by step (`Reading.step_move`) and as a whole
(`Reading.ofStream_move`): the same parts are read and the same problem stops the reading, only at
other places.
-/

namespace GraphSchema

/-- New places for the beginnings and for the ends of tokens. -/
structure Relocation where
  start : Cursor → Cursor
  stop : Cursor → Cursor

variable (r : Relocation)

/-! ### Tokens and what is made of them -/

/-- The token at its new place. -/
def Token.move (token : Token) : Token :=
  ⟨token.kind, token.text, r.start token.start, r.stop token.stop⟩

/-- The designation at its new place. -/
def TypeReference.move (type : TypeReference) : TypeReference :=
  ⟨type.modifiers.map (Token.move r), type.terminal.move r⟩

/-- The name and its type at their new places. -/
def TypedName.move (entry : TypedName) : TypedName :=
  ⟨entry.name.move r, entry.type.move r⟩

/-- The parameters at their new places. -/
def ParameterListing.move (listing : ParameterListing) : ParameterListing :=
  ⟨listing.opening.move r, listing.entries.map (Prod.map (TypedName.move r) (Token.move r))⟩

/-- The property or endpoint at its new place. -/
def Signature.move (signature : Signature) : Signature :=
  ⟨signature.name.move r, signature.parameters.map (ParameterListing.move r), signature.type.move r⟩

/-- The members at their new places. -/
def Body.move : Body → Body
  | enum values => enum (values.map (Token.move r))
  | union options => union (options.map (TypeReference.move r))
  | struct fields => struct (fields.map (TypedName.move r))
  | resolver properties => resolver (properties.map (Signature.move r))

/-- The declaration at its new place. -/
def Declaration.move : Declaration → Declaration
  | typeAlias keyword name equals target =>
    typeAlias (keyword.move r) (name.move r) (equals.move r) (target.move r)
  | block keyword name opening body closing =>
    block (keyword.move r) (name.move r) (opening.move r) (body.move r) (closing.move r)
  | endpoint kind keyword signature => endpoint kind (keyword.move r) (signature.move r)

/-- The header at its new place. -/
def Header.move (header : Header) : Header :=
  ⟨header.keyword.move r, header.name.move r⟩

/-- The document at its new place. -/
def Document.move (document : Document) : Document :=
  ⟨document.header.move r, document.declarations.map (Declaration.move r)⟩

/-! ### What is still open -/

/-- The stage at its new place. -/
def ParameterStage.move : ParameterStage → ParameterStage
  | name => name
  | type word modifiers => type (word.move r) (modifiers.map (Token.move r))
  | separator parameter => separator (parameter.move r)

/-- The open parameters at their new places. -/
def OpenParameters.move (listing : OpenParameters) : OpenParameters :=
  ⟨listing.opening.move r, listing.entries.map (Prod.map (TypedName.move r) (Token.move r)),
    listing.stage.move r⟩

/-- The open property or endpoint at its new place. -/
def OpenSignature.move : OpenSignature → OpenSignature
  | named name => named (name.move r)
  | parameters name listing => parameters (name.move r) (listing.move r)
  | typed name listing modifiers =>
    typed (name.move r) (listing.map (ParameterListing.move r)) (modifiers.map (Token.move r))

/-- The open members at their new places. -/
def OpenBody.move : OpenBody → OpenBody
  | enum values => enum (values.map (Token.move r))
  | union options modifiers =>
    union (options.map (TypeReference.move r)) (modifiers.map (Token.move r))
  | struct fields pending =>
    struct (fields.map (TypedName.move r))
      (pending.map (Prod.map (Token.move r) (List.map (Token.move r))))
  | resolver properties pending =>
    resolver (properties.map (Signature.move r)) (pending.map (OpenSignature.move r))

/-- The open declaration at its new place. -/
def OpenDeclaration.move : OpenDeclaration → OpenDeclaration
  | aliasName keyword => aliasName (keyword.move r)
  | aliasEquals keyword name => aliasEquals (keyword.move r) (name.move r)
  | aliasTarget keyword name equals =>
    aliasTarget (keyword.move r) (name.move r) (equals.move r)
  | blockName kind keyword => blockName kind (keyword.move r)
  | blockBrace kind keyword name => blockBrace kind (keyword.move r) (name.move r)
  | blockBody keyword name opening body =>
    blockBody (keyword.move r) (name.move r) (opening.move r) (body.move r)
  | endpointName kind keyword => endpointName kind (keyword.move r)
  | endpoint kind keyword signature => endpoint kind (keyword.move r) (signature.move r)

/-- What has been read, at its new place. -/
def Reading.move : Reading → Reading
  | start => start
  | headed keyword => headed (keyword.move r)
  | body header declarations pending =>
    body (header.move r) (declarations.map (Declaration.move r))
      (pending.map (OpenDeclaration.move r))

/-- The end of the tokens at its new place. -/
def TokenStream.Ending.move : TokenStream.Ending → TokenStream.Ending
  | endOfInput position => endOfInput (r.start position)
  | error failure => error ⟨failure.kind, r.start failure.position⟩

/-- The tokens and their end at their new places. -/
def TokenStream.move (stream : TokenStream) : TokenStream :=
  ⟨stream.tokens.map (Token.move r), stream.ending.move r⟩

/-! ### Problems -/

/-- The member of a cycle of aliases at its new place. -/
def AliasMember.move (member : AliasMember) : AliasMember :=
  ⟨member.name, r.start member.position⟩

/-- The link of a cycle of structs at its new place. -/
def StructLink.move (link : StructLink) : StructLink :=
  ⟨link.structName, link.fieldName, r.start link.position⟩

/-- The problem at its new place. -/
def Problem.move : Problem → Problem
  | unexpectedToken expected found position => unexpectedToken expected found (r.start position)
  | unexpectedEnd expected position => unexpectedEnd expected (r.start position)
  | illegalName name rule position => illegalName name rule (r.start position)
  | lexical error => lexical ⟨error.kind, r.start error.position⟩
  | optionalChain position => optionalChain (r.start position)
  | unsupported keyword position => unsupported keyword (r.start position)
  | typeRedeclared name position prior =>
    typeRedeclared name (r.start position) (prior.map r.start)
  | typeUndefined name position => typeUndefined name (r.start position)
  | aliasCycle first others => aliasCycle (first.move r) (others.map (AliasMember.move r))
  | enumEmpty enumName position => enumEmpty enumName (r.start position)
  | valueRedeclared enumName value position prior =>
    valueRedeclared enumName value (r.start position) (r.start prior)
  | unionTooSmall unionName optionCount position =>
    unionTooSmall unionName optionCount (r.start position)
  | optionRepeated unionName designation position prior =>
    optionRepeated unionName designation (r.start position) (r.start prior)
  | unionListsItself unionName position => unionListsItself unionName (r.start position)
  | unionListsNone unionName position => unionListsNone unionName (r.start position)
  | structEmpty structName position => structEmpty structName (r.start position)
  | fieldRedeclared structName fieldName position prior =>
    fieldRedeclared structName fieldName (r.start position) (r.start prior)
  | fieldImpure structName fieldName designation position =>
    fieldImpure structName fieldName designation (r.start position)
  | structCycle first others => structCycle (first.move r) (others.map (StructLink.move r))
  | resolverEmpty resolverName position => resolverEmpty resolverName (r.start position)
  | propertyRedeclared resolverName propertyName position prior =>
    propertyRedeclared resolverName propertyName (r.start position) (r.start prior)
  | endpointRedeclared name position prior =>
    endpointRedeclared name (r.start position) (r.start prior)
  | parameterRedeclared nodeName parameterName position prior =>
    parameterRedeclared nodeName parameterName (r.start position) (r.start prior)
  | parameterImpure nodeName parameterName designation position =>
    parameterImpure nodeName parameterName designation (r.start position)
  | noEndpoints schemaName position => noEndpoints schemaName (r.start position)

@[simp]
theorem Problem.code_move (problem : Problem) : (problem.move r).code = problem.code := by
  cases problem <;> rfl

@[simp]
theorem Problem.position_move (problem : Problem) :
    (problem.move r).position = r.start problem.position := by
  cases problem <;> rfl

/-! ### Tokens are looked at by kind and text -/

variable {r}

@[simp]
theorem Token.move_kind (token : Token) : (token.move r).kind = token.kind := rfl

@[simp]
theorem Token.move_text (token : Token) : (token.move r).text = token.text := rfl

@[simp]
theorem Token.move_start (token : Token) : (token.move r).start = r.start token.start := rfl

@[simp]
theorem Token.isLowerName_move (token : Token) :
    (token.move r).isLowerName = token.isLowerName := rfl

theorem Token.describe_move (token : Token) : (token.move r).describe = token.describe := rfl

@[simp]
theorem endsOptional_move (modifiers : List Token) :
    endsOptional (modifiers.map (Token.move r)) = endsOptional modifiers := by
  unfold endsOptional
  rw [List.getLast?_map, Option.map_map]
  rfl

/-- The problem with a token that is not what was expected moves with the token. -/
theorem Expectation.refusal_move (expectation : Expectation) (token : Token) :
    expectation.refusal (token.move r) = (expectation.refusal token).move r := by
  unfold Expectation.refusal
  rw [Token.move_kind, Token.move_text, Token.move_start, Token.describe_move]
  split <;> (try split) <;> rfl

/-! ### Steps -/

theorem TypeReference.step_move (modifiers : List Token) (token : Token) :
    step (modifiers.map (Token.move r)) (token.move r) =
      (step modifiers token).map (Progress.map (List.map (Token.move r)) (move r)) := by
  unfold step
  rw [Token.move_kind, endsOptional_move]
  cases token.kind <;> simp only [Option.map_some, Option.map_none, Progress.map, move]
  case questionMark => split <;> simp [Progress.map]
  case listMarker => simp

theorem OpenParameters.step_move (listing : OpenParameters) (token : Token) :
    (listing.move r).step (token.move r) =
      (listing.step token).map (Progress.map (move r) (ParameterListing.move r)) := by
  obtain ⟨opening, entries, stage⟩ := listing
  cases stage with
  | name =>
    simp only [step, move, ParameterStage.move]
    rw [apply_ite (Option.map _)]
    rfl
  | type name modifiers =>
    simp only [step, move, ParameterStage.move, TypeReference.step_move, Option.map_map]
    congr 1
    funext progress
    cases progress <;> rfl
  | separator parameter =>
    simp only [step, move, ParameterStage.move, Token.move_kind]
    cases token.kind <;>
      simp [Progress.map, move, ParameterStage.move, ParameterListing.move]

theorem OpenSignature.typeStep_move (name : Token) (listing : Option ParameterListing)
    (modifiers : List Token) (token : Token) :
    typeStep (name.move r) (listing.map (ParameterListing.move r))
        (modifiers.map (Token.move r)) (token.move r) =
      (typeStep name listing modifiers token).map (Progress.map (move r) (Signature.move r)) := by
  simp only [typeStep, TypeReference.step_move, Option.map_map]
  congr 1
  funext progress
  cases progress <;> rfl

theorem OpenSignature.step_move (signature : OpenSignature) (token : Token) :
    (signature.move r).step (token.move r) =
      (signature.step token).map (Progress.map (move r) (Signature.move r)) := by
  cases signature with
  | named name =>
    by_cases hopen : token.kind = .parenOpen
    · simp [step, move, hopen, Progress.map, OpenParameters.move, ParameterStage.move]
    · rw [step, if_neg hopen, ← typeStep_move, move, step, Token.move_kind, if_neg hopen]
      rfl
  | parameters name listing =>
    simp only [step, move, OpenParameters.step_move, Option.map_map]
    congr 1
    funext progress
    cases progress <;> rfl
  | typed name listing modifiers => exact typeStep_move name listing modifiers token

theorem OpenBody.step_move (body : OpenBody) (token : Token) :
    (body.move r).step (token.move r) =
      (body.step token).map (Progress.map (move r) (Body.move r)) := by
  match body with
  | enum values =>
    by_cases hclose : token.kind = .braceClose <;> by_cases hname : token.isLowerName = true <;>
      simp [step, move, hclose, hname, Progress.map, Body.move]
  | union options modifiers =>
    by_cases hclose : token.kind = .braceClose ∧ modifiers = []
    · simp [step, move, hclose, Progress.map, Body.move]
    · have hmoved : ¬ (token.kind = .braceClose ∧ modifiers.map (Token.move r) = []) := by
        rwa [List.map_eq_nil_iff]
      rw [step, if_neg hclose, move, step, Token.move_kind, if_neg hmoved,
        TypeReference.step_move, Option.map_map, Option.map_map]
      congr 1
      funext progress
      cases progress <;> simp [Progress.map, move]
  | struct fields none =>
    by_cases hclose : token.kind = .braceClose <;> by_cases hname : token.isLowerName = true <;>
      simp [step, move, hclose, hname, Progress.map, Body.move]
  | struct fields (some (name, modifiers)) =>
    simp only [step, move, Option.map_some, Prod.map_apply, TypeReference.step_move,
      Option.map_map]
    congr 1
    funext progress
    cases progress <;> simp [Progress.map, move, TypedName.move]
  | resolver properties none =>
    by_cases hclose : token.kind = .braceClose <;> by_cases hname : token.isLowerName = true <;>
      simp [step, move, hclose, hname, Progress.map, Body.move, OpenSignature.move]
  | resolver properties (some signature) =>
    simp only [step, move, Option.map_some, OpenSignature.step_move, Option.map_map]
    congr 1
    funext progress
    cases progress <;> simp [Progress.map, move]

theorem OpenDeclaration.opened?_move (token : Token) :
    opened? (token.move r) = (opened? token).map (move r) := by
  unfold opened?
  rw [Token.move_kind]
  split <;> rfl

theorem OpenBody.empty_move (kind : BlockKind) : (empty kind).move r = empty kind := by
  cases kind <;> rfl

theorem OpenDeclaration.step_move (declaration : OpenDeclaration) (token : Token) :
    (declaration.move r).step (token.move r) =
      (declaration.step token).map (Progress.map (move r) (Declaration.move r)) := by
  cases declaration with
  | aliasName | aliasEquals | aliasTarget | blockName | endpointName =>
    simp only [step, move]
    rw [apply_ite (Option.map _)]
    rfl
  | blockBrace kind keyword name =>
    simp only [step, move]
    rw [apply_ite (Option.map _), Option.map_some, Progress.map, move, OpenBody.empty_move]
    rfl
  | blockBody keyword name opening body =>
    simp only [step, move, OpenBody.step_move, Option.map_map]
    congr 1
    funext progress
    cases progress <;> rfl
  | endpoint kind keyword signature =>
    simp only [step, move, OpenSignature.step_move, Option.map_map]
    congr 1
    funext progress
    cases progress <;> rfl

/-- One step of the reading commutes with a relocation. -/
theorem Reading.step_move (reading : Reading) (token : Token) :
    (reading.move r).step (token.move r) = (reading.step token).map (move r) := by
  match reading with
  | start | headed _ =>
    simp only [step, move]
    rw [apply_ite (Option.map _)]
    rfl
  | body header declarations none =>
    simp only [step, move, Option.map_none, OpenDeclaration.opened?_move, Option.map_map]
    rfl
  | body header declarations (some opened) =>
    simp only [step, move, Option.map_some, OpenDeclaration.step_move, Option.map_map]
    congr 1
    funext progress
    cases progress <;> simp [Progress.map, move]

/-! ### What may come next -/

theorem TypeReference.expectation_move (modifiers : List Token) :
    expectation (modifiers.map (Token.move r)) = expectation modifiers := by
  rw [expectation, endsOptional_move, expectation]

theorem OpenParameters.expectation_move (listing : OpenParameters) :
    (listing.move r).expectation = listing.expectation := by
  obtain ⟨opening, entries, stage⟩ := listing
  cases stage with
  | name | separator => rfl
  | type name modifiers => exact TypeReference.expectation_move modifiers

theorem OpenSignature.expectation_move (signature : OpenSignature) :
    (signature.move r).expectation = signature.expectation := by
  cases signature with
  | named => rfl
  | parameters name listing => exact OpenParameters.expectation_move listing
  | typed name listing modifiers => exact TypeReference.expectation_move modifiers

theorem OpenBody.expectation_move (body : OpenBody) :
    (body.move r).expectation = body.expectation := by
  match body with
  | enum _ | struct _ none | resolver _ none => rfl
  | union _ modifiers | struct _ (some (_, modifiers)) =>
    exact TypeReference.expectation_move modifiers
  | resolver _ (some signature) => exact OpenSignature.expectation_move signature

/-- What may come next does not depend on places. -/
theorem Reading.expectation_move (reading : Reading) :
    (reading.move r).expectation = reading.expectation := by
  match reading with
  | start | headed _ | body _ _ none => rfl
  | body _ _ (some declaration) =>
    cases declaration with
    | blockBody _ _ _ body => exact OpenBody.expectation_move body
    | endpoint _ _ signature => exact OpenSignature.expectation_move signature
    | _ => rfl

/-! ### Whole rows of tokens -/

theorem Reading.document?_move (reading : Reading) :
    (reading.move r).document? = reading.document?.map (Document.move r) := by
  match reading with
  | start | headed _ | body _ _ none | body _ _ (some _) => rfl

theorem Reading.endProblem?_move (reading : Reading) (ending : TokenStream.Ending) :
    (reading.move r).endProblem? (ending.move r) =
      (reading.endProblem? ending).map (Problem.move r) := by
  cases ending with
  | error failure => rfl
  | endOfInput position =>
    simp only [endProblem?, TokenStream.Ending.move, document?_move, expectation_move]
    cases reading.document? <;> rfl

theorem Reading.run_move (reading : Reading) (ending : TokenStream.Ending) (tokens : List Token) :
    (reading.move r).run (ending.move r) (tokens.map (Token.move r)) =
      Prod.map (move r) (Option.map (Problem.move r)) (reading.run ending tokens) := by
  induction tokens generalizing reading with
  | nil => exact congrArg (Prod.mk _) (endProblem?_move reading ending)
  | cons token rest ih =>
    rw [List.map_cons, run, run, step_move]
    cases reading.step token with
    | none =>
      simp only [Option.map_none, expectation_move, Expectation.refusal_move]
      rfl
    | some next => exact ih next

/-- Reading commutes with a relocation. -/
theorem Reading.ofStream_move (stream : TokenStream) :
    ofStream (stream.move r) =
      Prod.map (move r) (Option.map (Problem.move r)) (ofStream stream) :=
  run_move start stream.ending stream.tokens

end GraphSchema
