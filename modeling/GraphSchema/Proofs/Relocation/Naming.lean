import GraphSchema.Document.Names
import GraphSchema.Proofs.Lookup
import GraphSchema.Proofs.Relocation.Reading

/-!
# Relocation of names

The names that declarations introduce move with their tokens, and so do the problems with them
(`Reading.problems_move`): a name is used again if an earlier one has the same text, wherever the
two stand.
-/

namespace GraphSchema

variable (r : Relocation)

/-- The designation at its new place. -/
def Designation.move (designation : Designation) : Designation :=
  { designation with
    position := r.start designation.position
    terminalPosition := r.start designation.terminalPosition }

/-- The names at their new places. -/
def DeclaredNames.move : DeclaredNames → DeclaredNames
  | nothing => nothing
  | typeAlias name => typeAlias (name.move r)
  | enum name values => enum (name.move r) (values.map (Token.move r))
  | union name options => union (name.move r) (options.map (Designation.move r))
  | struct name fields => struct (name.move r) (fields.map (Token.move r))
  | resolver name properties =>
    resolver (name.move r) (properties.map (Prod.map (Token.move r) (List.map (Token.move r))))
  | endpoint name parameters => endpoint (name.move r) (parameters.map (Token.move r))

variable {r}

/-- What a designation says is free of places. -/
@[simp]
theorem Designation.canonical_move (designation : Designation) :
    (designation.move r).canonical = designation.canonical := rfl

/-- A reference is read into the moved designation. -/
@[simp]
theorem TypeReference.designation_move (type : TypeReference) :
    (type.move r).designation = type.designation.move r := by
  obtain ⟨modifiers, terminal⟩ := type
  cases modifiers with
  | nil => rfl
  | cons first others =>
    unfold designation Designation.move
    simp only [move, List.filterMap_map]
    rfl

/-! ### The names that are introduced -/

/-- A signature without parentheses has no parameters, moved or not. -/
@[simp]
theorem Signature.parameterList_move (signature : Signature) :
    (signature.move r).parameterList = signature.parameterList.map (TypedName.move r) := by
  obtain ⟨name, parameters, type⟩ := signature
  cases parameters with
  | none => rfl
  | some listing => simp [parameterList, move, ParameterListing.move]

/-- A signature introduces its own name and those of its parameters. -/
theorem Signature.names_move (signature : Signature) :
    (signature.move r).names =
      Prod.map (Token.move r) (List.map (Token.move r)) signature.names := by
  rw [names, parameterList_move, List.map_map, names, Prod.map_apply, List.map_map]
  rfl

/-- A list that is cut off gives the names read so far, moved. -/
theorem OpenParameters.names_move (listing : OpenParameters) :
    (listing.move r).names = listing.names.map (Token.move r) := by
  obtain ⟨opening, entries, stage⟩ := listing
  cases stage <;> simp [names, move, ParameterStage.move, TypedName.move]

theorem OpenSignature.names_move (signature : OpenSignature) :
    (signature.move r).names =
      Prod.map (Token.move r) (List.map (Token.move r)) signature.names := by
  match signature with
  | named _ | typed _ none _ => rfl
  | parameters name listing => exact congrArg (Prod.mk _) (OpenParameters.names_move listing)
  | typed name (some listing) modifiers =>
    simp [names, OpenSignature.name, parameterNames, move, ParameterListing.move, TypedName.move]

/-- The names of a body move with the name of its declaration. -/
theorem Body.names_move (name : Token) (body : Body) :
    (body.move r).names (name.move r) = (body.names name).move r := by
  cases body <;>
    simp [names, move, DeclaredNames.move, TypedName.move, Function.comp_def, Signature.names_move]

theorem OpenBody.names_move (name : Token) (body : OpenBody) :
    (body.move r).names (name.move r) = (body.names name).move r := by
  cases body with
  | enum | union | struct => simp [names, move, DeclaredNames.move, TypedName.move]
  | resolver properties pending =>
    cases pending <;>
      simp [names, move, DeclaredNames.move, Signature.names_move, OpenSignature.names_move]

/-- The names that a declaration introduces move with it. -/
theorem Declaration.names_move (declaration : Declaration) :
    (declaration.move r).names = declaration.names.move r := by
  cases declaration with
  | typeAlias => rfl
  | block _ name _ body _ => exact Body.names_move name body
  | endpoint _ _ signature =>
    simp only [names, move, Signature.names_move]
    rfl

/-- The names that a declaration introduces before it is cut off move with it. -/
theorem OpenDeclaration.names_move (declaration : OpenDeclaration) :
    (declaration.move r).names = declaration.names.move r := by
  cases declaration with
  | aliasName | aliasEquals | aliasTarget | blockName | endpointName => rfl
  | blockBrace kind _ name =>
    rw [move, names, ← OpenBody.empty_move kind, OpenBody.names_move]
    rfl
  | blockBody _ name _ body => exact OpenBody.names_move name body
  | endpoint _ _ signature =>
    simp only [names, move, OpenSignature.names_move]
    rfl

theorem Reading.names_move (reading : Reading) :
    (reading.move r).names = reading.names.map (DeclaredNames.move r) := by
  match reading with
  | start | headed _ => rfl
  | body header declarations pending =>
    cases pending <;>
      simp [names, move, Reading.declarations, pending?, Declaration.names_move,
        OpenDeclaration.names_move]

/-! ### The problems with names -/

namespace DeclaredNames

/-- Problems that are made of repetitions move with what is repeated. -/
theorem repeats_move {α : Type} {f : α → α} {key : α → String} {entries : List α}
    {problem : α × α → Problem} {moved : α × α → Problem}
    (keys : ∀ entry, key (f entry) = key entry)
    (problems : ∀ first again, moved (f first, f again) = (problem (first, again)).move r) :
    (repeats key (entries.map f)).map moved =
      ((repeats key entries).map problem).map (Problem.move r) := by
  have hkeys : (fun entry => key (f entry)) = key := funext keys
  rw [repeats_map, hkeys, List.map_map, List.map_map]
  exact congrArg (List.map · _) (funext fun entry => problems entry.1 entry.2)

theorem parameterProblems_move (nodeName : String) (parameters : List Token) :
    parameterProblems nodeName (parameters.map (Token.move r)) =
      (parameterProblems nodeName parameters).map (Problem.move r) :=
  repeats_move (fun _ => rfl) fun _ _ => rfl

/-- Members are compared within their declaration by their texts. -/
theorem memberProblems_move (names : DeclaredNames) :
    (names.move r).memberProblems = names.memberProblems.map (Problem.move r) := by
  cases names with
  | nothing | typeAlias => rfl
  | enum | union | struct => exact repeats_move (fun _ => rfl) fun _ _ => rfl
  | endpoint name parameters => exact parameterProblems_move name.text parameters
  | resolver name properties =>
    rw [move, memberProblems, memberProblems, List.map_append]
    congr 1
    · exact repeats_move (fun _ => rfl) fun _ _ => rfl
    · rw [List.flatMap_map, List.map_flatMap]
      exact congrArg (List.flatMap · properties) (funext fun property =>
        parameterProblems_move (name.text ++ "." ++ property.1.text) property.2)

/-- A type name is refused as that of a primitive or as one used before, by its text alone. -/
theorem typeProblems_move (names : List Token) :
    typeProblems (names.map (Token.move r)) = (typeProblems names).map (Problem.move r) := by
  simp only [typeProblems, List.partition_eq_filter_filter, List.filter_map, List.map_append]
  congr 1
  · simp only [List.map_map]
    rfl
  · exact repeats_move (fun _ => rfl) fun _ _ => rfl

theorem endpointProblems_move (names : List Token) :
    endpointProblems (names.map (Token.move r)) = (endpointProblems names).map (Problem.move r) :=
  repeats_move (fun _ => rfl) fun _ _ => rfl

/-- The problems with names move with the names. -/
theorem problems_move (names : List DeclaredNames) :
    problems (names.map (move r)) = (problems names).map (Problem.move r) := by
  have htypes : (names.map (move r)).filterMap typeName? =
      (names.filterMap typeName?).map (Token.move r) := by
    rw [List.filterMap_map, List.map_filterMap]
    exact congrArg (List.filterMap · names) (funext fun name => by cases name <;> rfl)
  have hendpoints : (names.map (move r)).filterMap endpointName? =
      (names.filterMap endpointName?).map (Token.move r) := by
    rw [List.filterMap_map, List.map_filterMap]
    exact congrArg (List.filterMap · names) (funext fun name => by cases name <;> rfl)
  rw [problems, htypes, hendpoints, typeProblems_move, endpointProblems_move, List.flatMap_map,
    problems, List.map_append, List.map_append, List.map_flatMap]
  exact congrArg (_ ++ List.flatMap · names) (funext memberProblems_move)

end DeclaredNames

/-- What a body is short of depends on how many members it has. -/
theorem Declaration.shortages_move (declaration : Declaration) :
    (declaration.move r).shortages = declaration.shortages.map (Problem.move r) := by
  match declaration with
  | typeAlias _ _ _ _ | endpoint _ _ _ => rfl
  | block _ name _ body _ =>
    match body with
    | .enum [] | .enum (_ :: _) | .struct [] | .struct (_ :: _) | .resolver []
    | .resolver (_ :: _) => rfl
    | .union options =>
      simp only [shortages, move, Body.move, List.length_map]
      split <;> rfl

/-- The problems that show while a document is read move with it. -/
theorem Reading.problems_move (reading : Reading) :
    (reading.move r).problems = reading.problems.map (Problem.move r) := by
  have hdeclarations : (reading.move r).declarations =
      reading.declarations.map (Declaration.move r) := by
    cases reading <;> rfl
  rw [problems, names_move, DeclaredNames.problems_move, hdeclarations, List.flatMap_map, problems,
    List.map_append, List.map_flatMap]
  exact congrArg (_ ++ List.flatMap · _) (funext Declaration.shortages_move)

end GraphSchema
