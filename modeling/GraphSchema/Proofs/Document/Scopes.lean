import GraphSchema.Proofs.Document.Apart
import GraphSchema.Proofs.Document.Lasting

/-!
# Scopes

A document introduces names in scopes: one for the names of its types that are not primitive, one
for its endpoints, and inside every declaration one for its members and one for the parameters of
each list (`Document.scopes`).  In each of them the second use of a name is reported, and every
later one, each with the place of the first (`Scope.reportsOf`).  Together with the types that are
named like a primitive one these are all problems with names (`Document.nameProblems_eq`), and every
use of a name stands at a place of its own (`Document.nodup_usePlaces`).
-/

namespace GraphSchema

/-! ### Kinds of scopes -/

/-- What the names of a scope are names of, and what the scope belongs to. -/
inductive Namespace where
  | types
  | endpoints
  | values (enumName : String)
  | options (unionName : String)
  | fields (structName : String)
  | properties (resolverName : String)
  | parameters (nodeName : String)

namespace Namespace

/-- The code of a name that is used again. -/
def code : Namespace → ErrorCode
  | types => .typeRedecl
  | endpoints => .graphRootNodeRedecl
  | values _ => .enumValRedecl
  | options _ => .unionRedund
  | fields _ => .structFieldRedecl
  | properties _ => .resolverPropRedecl
  | parameters _ => .paramRedecl

/-- What is reported about a name that is used again at `position` and was first used at `prior`. -/
def report (space : Namespace) (name : String) (position prior : Cursor) : Problem :=
  match space with
  | types => .typeRedeclared name position (some prior)
  | endpoints => .endpointRedeclared name position prior
  | values enumName => .valueRedeclared enumName name position prior
  | options unionName => .optionRepeated unionName name position prior
  | fields structName => .fieldRedeclared structName name position prior
  | properties resolverName => .propertyRedeclared resolverName name position prior
  | parameters nodeName => .parameterRedeclared nodeName name position prior

variable (space : Namespace) (name : String) (position prior : Cursor)

@[simp]
theorem report_code : (space.report name position prior).code = space.code := by
  cases space <;> rfl

@[simp]
theorem report_position : (space.report name position prior).position = position := by
  cases space <;> rfl

/-- The only note points at the first use. -/
@[simp]
theorem report_notes :
    (space.report name position prior).notes.map Note.position = [some prior] := by
  cases space <;> rfl

theorem code_mem_redeclared : space.code ∈ ErrorCode.redeclared := by
  cases space <;> simp [code, ErrorCode.redeclared, ErrorCode.repetitions]

end Namespace

/-! ### Scopes -/

/-- A name as it is used at a place. -/
structure NameUse where
  name : String
  position : Cursor

/-- A name that is introduced by a token. -/
def Token.use (token : Token) : NameUse :=
  ⟨token.text, token.start⟩

/-- An option of a union counts by its canonical form. -/
def Designation.use (designation : Designation) : NameUse :=
  ⟨designation.canonical, designation.position⟩

/-- The uses of names in one scope, in the order in which they are read. -/
structure Scope where
  space : Namespace
  uses : List NameUse

namespace Scope

/-- The uses of one name. -/
def usesOf (scope : Scope) (name : String) : List NameUse :=
  scope.uses.filter fun entry => entry.name = name

/-- What is reported about one name: every use of it but the first one, with the place of the
first. -/
def reportsOf (scope : Scope) (name : String) : List Problem :=
  match scope.usesOf name with
  | [] => []
  | first :: others =>
    others.map fun again => scope.space.report name again.position first.position

/-- The places of all uses. -/
def places (scope : Scope) : List Cursor :=
  scope.uses.map NameUse.position

/-- Names stand where their tokens do. -/
theorem places_map_use (space : Namespace) (row : List Token) :
    (Scope.mk space (row.map Token.use)).places = starts row :=
  List.map_map

/-- What is reported about a scope, in the order of the uses. -/
def repetitions (scope : Scope) : List Problem :=
  (repeats NameUse.name scope.uses).map fun (first, again) =>
    scope.space.report again.name again.position first.position

variable {scope : Scope}

/-- What is reported about a scope is reported about one of its names. -/
theorem mem_repetitions_iff {problem : Problem} :
    problem ∈ scope.repetitions ↔ ∃ name, problem ∈ scope.reportsOf name := by
  have hpairs (name : String) : scope.reportsOf name =
      ((repeats NameUse.name scope.uses).filter fun pair => pair.2.name = name).map
        fun (first, again) => scope.space.report again.name again.position first.position := by
    rw [filter_repeats, reportsOf, usesOf]
    cases huses : scope.uses.filter fun entry => entry.name = name with
    | nil => rfl
    | cons first others =>
      dsimp only
      rw [List.map_map]
      refine List.map_congr_left fun again hagain => ?_
      have hmem : again ∈ scope.uses.filter fun entry => entry.name = name := by
        rw [huses]
        exact List.mem_cons_of_mem _ hagain
      have hname : again.name = name := by simpa using (List.mem_filter.mp hmem).2
      rw [Function.comp_apply, hname]
  constructor
  · intro hmem
    obtain ⟨pair, hpair, rfl⟩ := List.mem_map.mp hmem
    refine ⟨pair.2.name, ?_⟩
    rw [hpairs]
    exact List.mem_map_of_mem (List.mem_filter.mpr ⟨hpair, by simp⟩)
  · rintro ⟨name, hmem⟩
    rw [hpairs] at hmem
    exact (List.filter_sublist.map _).subset hmem

theorem mem_reportsOf_iff {name : String} {problem : Problem} :
    problem ∈ scope.reportsOf name ↔ ∃ first others again, scope.usesOf name = first :: others ∧
      again ∈ others ∧ problem = scope.space.report name again.position first.position := by
  unfold reportsOf
  constructor
  · intro hmem
    split at hmem
    case h_1 => cases hmem
    case h_2 first others huses =>
      obtain ⟨again, hagain, rfl⟩ := List.mem_map.mp hmem
      exact ⟨first, others, again, huses, hagain, rfl⟩
  · rintro ⟨first, others, again, huses, hagain, rfl⟩
    rw [huses]
    exact List.mem_map_of_mem hagain

/-- What is reported about a name has the code of the scope and is at a use of the name. -/
theorem exists_use_of_mem_reportsOf {name : String} {problem : Problem}
    (h : problem ∈ scope.reportsOf name) : problem.code = scope.space.code ∧
      ∃ again ∈ scope.usesOf name, problem.position = again.position := by
  obtain ⟨first, others, again, huses, hagain, rfl⟩ := mem_reportsOf_iff.mp h
  refine ⟨scope.space.report_code _ _ _, again, ?_, scope.space.report_position _ _ _⟩
  rw [huses]
  exact List.mem_cons_of_mem _ hagain

/-- No use of a name is reported twice if the uses are at distinct places. -/
theorem nodup_reportsOf (distinct : scope.places.Nodup) (name : String) :
    (scope.reportsOf name).Nodup := by
  have huses : ((scope.usesOf name).map NameUse.position).Nodup :=
    distinct.sublist (List.filter_sublist.map _)
  unfold reportsOf
  split
  case h_1 => exact .nil
  case h_2 first others hnames =>
    rw [hnames, List.map_cons, List.nodup_cons] at huses
    refine List.Nodup.of_map Problem.position ?_
    rw [List.map_map]
    simpa only [Function.comp_def, Namespace.report_position] using huses.2

end Scope

/-! ### The scopes of a document -/

/-- The scopes inside a declaration. -/
def DeclaredNames.scopes : DeclaredNames → List Scope
  | nothing | typeAlias _ => []
  | enum name values => [⟨.values name.text, values.map Token.use⟩]
  | union name options => [⟨.options name.text, options.map Designation.use⟩]
  | struct name fields => [⟨.fields name.text, fields.map Token.use⟩]
  | resolver name properties =>
    ⟨.properties name.text, properties.map fun property => property.1.use⟩ ::
      properties.map fun property =>
        ⟨.parameters (name.text ++ "." ++ property.1.text), property.2.map Token.use⟩
  | endpoint name parameters => [⟨.parameters name.text, parameters.map Token.use⟩]

/-- Is the name that of a primitive type? -/
def Token.isPrimitive (name : Token) : Bool :=
  (Primitive.ofName? name.text).isSome

/-- What is reported about the declaration of a type that is named like a primitive one. -/
def Token.primitiveReport (name : Token) : Problem :=
  .typeRedeclared name.text name.start none

namespace Document

/-- The names of types that are those of primitive ones. -/
def primitiveNames (declarations : List Declaration) : List Token :=
  (declarations.filterMap Declaration.typeName?).filter Token.isPrimitive

/-- The scope of the types, that of the endpoints, and those of all declarations, also of such
whose own name was used before. -/
def scopes (declarations : List Declaration) : List Scope :=
  ⟨.types, ((declarations.filterMap Declaration.typeName?).filter
    fun name => !name.isPrimitive).map Token.use⟩ ::
  ⟨.endpoints, (declarations.filterMap Declaration.endpointName?).map Token.use⟩ ::
  declarations.flatMap fun declaration => declaration.names.scopes

/-- The places of all uses of names. -/
def usePlaces (declarations : List Declaration) : List Cursor :=
  starts (primitiveNames declarations) ++ (scopes declarations).flatMap Scope.places

end Document

/-! ### All problems with names -/

/-- What is repeated among names is what is repeated in their scope. -/
theorem repetitions_eq {α : Type} (space : Namespace) (use : α → NameUse) (entries : List α) :
    (repeats (fun entry => (use entry).name) entries).map (fun (first, again) =>
      space.report (use again).name (use again).position (use first).position) =
      Scope.repetitions ⟨space, entries.map use⟩ := by
  rw [Scope.repetitions, repeats_map, List.map_map]
  rfl

/-- What is repeated inside a declaration is what is repeated in its scopes. -/
theorem DeclaredNames.memberProblems_eq (names : DeclaredNames) :
    names.memberProblems = names.scopes.flatMap Scope.repetitions := by
  cases names with
  | nothing => rfl
  | typeAlias name => rfl
  | enum name values =>
    exact (repetitions_eq (.values name.text) Token.use values).trans
      (List.flatMap_singleton ..).symm
  | union name options =>
    exact (repetitions_eq (.options name.text) Designation.use options).trans
      (List.flatMap_singleton ..).symm
  | struct name fields =>
    exact (repetitions_eq (.fields name.text) Token.use fields).trans
      (List.flatMap_singleton ..).symm
  | resolver name properties =>
    have hproperties := repetitions_eq (.properties name.text)
      (fun property : Token × List Token => property.1.use) properties
    have hparameters (property : Token × List Token) :=
      repetitions_eq (.parameters (name.text ++ "." ++ property.1.text)) Token.use property.2
    rw [memberProblems, scopes, List.flatMap_cons, List.flatMap_map, ← hproperties]
    simp only [← hparameters]
    rfl
  | endpoint name parameters =>
    exact (repetitions_eq (.parameters name.text) Token.use parameters).trans
      (List.flatMap_singleton ..).symm

/-- The problems with names are those with the names of primitive types and the repetitions in all
scopes. -/
theorem Document.nameProblems_eq (declarations : List Declaration) :
    DeclaredNames.problems (declarations.map Declaration.names) =
      (primitiveNames declarations).map Token.primitiveReport ++
        (scopes declarations).flatMap Scope.repetitions := by
  have htypes := repetitions_eq .types Token.use
    ((declarations.filterMap Declaration.typeName?).filter fun name => !name.isPrimitive)
  have hendpoints := repetitions_eq .endpoints Token.use
    (declarations.filterMap Declaration.endpointName?)
  have hmembers : declarations.flatMap (fun declaration => declaration.names.memberProblems) =
      (declarations.flatMap fun declaration => declaration.names.scopes).flatMap
        Scope.repetitions := by
    rw [List.flatMap_assoc]
    simp only [DeclaredNames.memberProblems_eq]
  rw [DeclaredNames.problems, typeNames_eq, endpointNames_eq, List.flatMap_map, hmembers, scopes,
    List.flatMap_cons, List.flatMap_cons, ← htypes, ← hendpoints, DeclaredNames.typeProblems,
    List.partition_eq_filter_filter]
  simp only [List.append_assoc]
  rfl

/-! ### Places of uses -/

/-- The places of a declaration are that of its name and those of the uses in its scopes. -/
theorem DeclaredNames.places_perm (names : DeclaredNames) :
    names.places.Perm (starts names.typeName?.toList ++ (starts names.endpointName?.toList ++
      names.scopes.flatMap Scope.places)) := by
  cases names with
  | nothing => rfl
  | typeAlias name => rfl
  | enum name values =>
    rw [scopes, List.flatMap_singleton, Scope.places_map_use]
    rfl
  | union name options =>
    rw [scopes, List.flatMap_singleton, Scope.places, List.map_map]
    rfl
  | struct name fields =>
    rw [scopes, List.flatMap_singleton, Scope.places_map_use]
    rfl
  | resolver name properties =>
    -- the names of the properties come first, then those of all parameters
    have hperm := List.flatMap_append_perm properties (fun property => [property.1.start])
      fun property => starts property.2
    rw [← List.map_eq_flatMap] at hperm
    rw [scopes, List.flatMap_cons, List.flatMap_map, Scope.places, List.map_map]
    simp only [Scope.places_map_use]
    exact hperm.symm.cons name.start
  | endpoint name parameters =>
    rw [scopes, List.flatMap_singleton, Scope.places_map_use]
    rfl

namespace Document

theorem usePlaces_perm (declarations : List Declaration) :
    ((declarations.map Declaration.names).flatMap DeclaredNames.places).Perm
      (usePlaces declarations) := by
  have hall := List.Perm.flatMap_left (declarations.map Declaration.names)
    fun names _ => DeclaredNames.places_perm names
  have hparts := (List.flatMap_append_perm (declarations.map Declaration.names)
    (fun names => starts names.typeName?.toList) fun names => starts names.endpointName?.toList ++
      names.scopes.flatMap Scope.places)
  have hothers := (List.flatMap_append_perm (declarations.map Declaration.names)
    (fun names => starts names.endpointName?.toList) fun names => names.scopes.flatMap Scope.places)
  have hnames (name? : DeclaredNames → Option Token) :
      ((declarations.map Declaration.names).flatMap fun names => starts (name? names).toList) =
        starts ((declarations.map Declaration.names).filterMap name?) := by
    rw [List.filterMap_eq_flatMap_toList, starts, List.map_flatMap]
    rfl
  have hprimitive := ((List.filter_append_perm Token.isPrimitive
    (declarations.filterMap Declaration.typeName?)).map Token.start).symm
  rw [List.map_append] at hprimitive
  rw [hnames, typeNames_eq] at hparts
  rw [hnames, endpointNames_eq] at hothers
  refine hall.trans (hparts.symm.trans ((hothers.symm.append_left _).trans ?_))
  refine (hprimitive.append_right _).trans ?_
  rw [usePlaces, scopes, List.flatMap_cons, List.flatMap_cons, Scope.places_map_use,
    Scope.places_map_use, List.append_assoc, List.flatMap_assoc, List.flatMap_map]
  rfl

/-- Every use of a name stands at a place of its own if the tokens do. -/
theorem nodup_usePlaces {declarations : List Declaration}
    (distinct : (starts (declarations.flatMap Declaration.tokens)).Nodup) :
    (usePlaces declarations).Nodup := by
  refine (usePlaces_perm declarations).nodup_iff.mp (distinct.sublist ?_)
  rw [List.flatMap_map]
  exact flatMap_sublist_starts Declaration.names_places declarations

end Document

end GraphSchema
