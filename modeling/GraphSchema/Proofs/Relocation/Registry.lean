import GraphSchema.Proofs.Relocation.Naming
import GraphSchema.Registry

/-!
# Relocation of the registry

Numbers are given in the order of the declarations, and types are found by their names, so nothing
in a registry but its places depends on where its document stands: building a registry and linking
it commute with a relocation (`Registry.ofDeclarations_move`, `Registry.linked_move`).
-/

namespace GraphSchema

variable (r : Relocation)

/-- The value at its new place. -/
def EnumValue.move (value : EnumValue) : EnumValue :=
  ⟨value.name, r.start value.position⟩

/-- The option at its new place. -/
def UnionOption.move (option : UnionOption) : UnionOption :=
  ⟨option.designation.move r, option.type⟩

/-- The body of a type with its places moved. -/
def TypeBody.move : TypeBody → TypeBody
  | typeAlias target aliased => typeAlias (target.move r) aliased
  | enum values => enum (values.map (EnumValue.move r))
  | union options => union (options.map (UnionOption.move r))
  | struct fields => struct fields
  | resolver properties => resolver properties

/-- The declared type at its new place. -/
def DeclaredType.move (type : DeclaredType) : DeclaredType :=
  ⟨type.id, type.name, r.start type.position, type.body.move r⟩

/-- The type at its new place, if it has one. -/
def SchemaType.move : SchemaType → SchemaType
  | primitive type => primitive type
  | declared type => declared (type.move r)
  | container type => container type

/-- The table with the places of its types moved. -/
def TypeTable.move (table : TypeTable) : TypeTable :=
  ⟨table.assigned.map (SchemaType.move r)⟩

/-- The graph node at its new place. -/
def GraphNode.move (node : GraphNode) : GraphNode :=
  { node with
    position := r.start node.position
    designation := node.designation.move r }

/-- The parameter at its new place. -/
def Parameter.move (parameter : Parameter) : Parameter :=
  { parameter with
    position := r.start parameter.position
    designation := parameter.designation.move r }

/-- The draft of a graph node at its new place. -/
def NodeDraft.move (draft : NodeDraft) : NodeDraft :=
  ⟨draft.name.move r, draft.parameters.map (TypedName.move r), draft.type.move r⟩

/-- The registry with all places moved. -/
def Registry.move (registry : Registry) : Registry :=
  ⟨registry.types.move r, registry.nodes.map (GraphNode.move r),
    registry.parameters.map (Parameter.move r), registry.references.map (Designation.move r)⟩

variable {r}

/-! ### What is known of a type -/

namespace SchemaType

@[simp]
theorem id_move (type : SchemaType) : (type.move r).id = type.id := by
  cases type <;> rfl

@[simp]
theorem designation_move (type : SchemaType) : (type.move r).designation = type.designation := by
  cases type <;> rfl

@[simp]
theorem isAnonymous_move (type : SchemaType) : (type.move r).isAnonymous = type.isAnonymous := by
  cases type <;> rfl

theorem position?_move (type : SchemaType) :
    (type.move r).position? = type.position?.map r.start := by
  cases type <;> rfl

theorem declared?_move (type : SchemaType) :
    (type.move r).declared? = type.declared?.map (DeclaredType.move r) := by
  cases type <;> rfl

theorem container?_move (type : SchemaType) : (type.move r).container? = type.container? := by
  cases type <;> rfl

end SchemaType

/-! ### The table of types -/

namespace TypeTable

theorem types_move (table : TypeTable) :
    (table.move r).types = table.types.map (SchemaType.move r) := by
  rw [types, types, List.map_append, List.map_map]
  rfl

@[simp]
theorem nextId_move (table : TypeTable) : (table.move r).nextId = table.nextId := by
  rw [nextId, move, List.length_map, nextId]

theorem declared_move (table : TypeTable) :
    (table.move r).declared = table.declared.map (DeclaredType.move r) := by
  rw [declared, move, List.filterMap_map, declared, List.map_filterMap]
  exact congrArg (List.filterMap · _) (funext SchemaType.declared?_move)

@[simp]
theorem containers_move (table : TypeTable) : (table.move r).containers = table.containers := by
  rw [containers, move, List.filterMap_map, containers]
  exact congrArg (List.filterMap · _) (funext SchemaType.container?_move)

/-- A number stands for the moved type. -/
theorem type?_move (table : TypeTable) (id : TypeId) :
    (table.move r).type? id = (table.type? id).map (SchemaType.move r) := by
  simp only [type?, types_move, List.find?_map, Function.comp_def, SchemaType.id_move]

/-- A name stands for the moved type, as names do not move. -/
theorem named?_move (table : TypeTable) (name : String) :
    (table.move r).named? name = (table.named? name).map (SchemaType.move r) := by
  simp only [named?, types_move, List.find?_map, Function.comp_def, SchemaType.isAnonymous_move,
    SchemaType.designation_move]

@[simp]
theorem anonymous?_move (table : TypeTable) (designation : String) :
    (table.move r).anonymous? designation = table.anonymous? designation := by
  rw [anonymous?, containers_move, anonymous?]

@[simp]
theorem designation?_move (table : TypeTable) (id : TypeId) :
    (table.move r).designation? id = table.designation? id := by
  simp only [designation?, type?_move, Option.map_map, Function.comp_def,
    SchemaType.designation_move]

@[simp]
theorem terminal_move (table : TypeTable) (id : TypeId) :
    (table.move r).terminal id = table.terminal id := by
  unfold terminal
  rw [type?_move]
  match table.type? id with
  | none | some (.primitive _) | some (.declared _) | some (.container _) => rfl

/-- A declaration is refused for the same name, or gets the same number. -/
theorem declare_move (table : TypeTable) (name : String) (position : Cursor) (body : TypeBody) :
    (table.move r).declare name (r.start position) (body.move r) =
      ((table.declare name position body).mapError (Option.map r.start)).map
        (Prod.map (move r) id) := by
  unfold declare
  rw [named?_move]
  cases table.named? name with
  | some earlier => exact congrArg Except.error (SchemaType.position?_move earlier)
  | none =>
    simp only [Option.map_none, nextId_move, Except.mapError, Except.map, Prod.map_apply]
    simp only [move, List.map_append]
    rfl

/-- A container is found by its designation, or formed under the same number. -/
theorem intern_move (table : TypeTable) (modifier : Modifier) (store : TypeId) :
    (table.move r).intern modifier store = Prod.map (move r) id (table.intern modifier store) := by
  simp only [intern, designation?_move, anonymous?_move, nextId_move, terminal_move]
  split
  · rfl
  · simp only [Prod.map_apply, move, List.map_append]
    rfl

/-- The containers of a designation are the same ones, from the inside to the outside. -/
theorem wrap_move (table : TypeTable) (store : TypeId) (modifiers : List Modifier) :
    (table.move r).wrap store modifiers = Prod.map (move r) id (table.wrap store modifiers) := by
  induction modifiers with
  | nil => rfl
  | cons modifier inner ih =>
    simp only [wrap, ih]
    exact intern_move _ modifier _

/-- A designation is resolved to the same number, or to none. -/
theorem resolve_move (table : TypeTable) (designation : Designation) :
    (table.move r).resolve (designation.move r) =
      Prod.map (move r) id (table.resolve designation) := by
  have hterminal : (designation.move r).terminal = designation.terminal := rfl
  unfold resolve
  rw [hterminal, named?_move]
  cases table.named? designation.terminal with
  | none => rfl
  | some type =>
    simp only [Option.map_some, SchemaType.id_move]
    exact congrArg (Prod.map id some) (wrap_move table type.id designation.modifiers)

/-- Designations are resolved in the same order, so their containers get the same numbers. -/
theorem resolveAll_move (table : TypeTable) (designations : List Designation) :
    (table.move r).resolveAll (designations.map (Designation.move r)) =
      (table.resolveAll designations).move r := by
  unfold resolveAll
  induction designations generalizing table with
  | nil => rfl
  | cons designation others ih =>
    rw [List.map_cons, List.foldl_cons, List.foldl_cons, resolve_move]
    exact ih _

@[simp]
theorem reference?_move (table : TypeTable) (designation : Designation) :
    (table.move r).reference? (designation.move r) = table.reference? designation := by
  have hmodifiers : (designation.move r).modifiers = designation.modifiers := rfl
  have hterminal : (designation.move r).terminal = designation.terminal := rfl
  unfold reference?
  rw [hmodifiers, hterminal, named?_move, anonymous?_move, Designation.canonical_move,
    Option.map_map]
  simp only [Function.comp_def, SchemaType.id_move]

end TypeTable

/-! ### The members of declarations -/

/-- The draft of a graph node moves with the signature that it is made from. -/
theorem Signature.draft_move (signature : Signature) :
    (signature.move r).draft = signature.draft.move r := by
  rw [draft, parameterList_move, firsts_map]
  rfl

/-- The members of a body become the same graph nodes, moved. -/
theorem Body.drafts_move (body : Body) :
    (body.move r).drafts = body.drafts.map (NodeDraft.move r) := by
  cases body with
  | enum | union => rfl
  | struct fields =>
    rw [move, drafts, firsts_map, drafts, List.map_map, List.map_map]
    rfl
  | resolver properties =>
    rw [move, drafts, firsts_map, drafts, List.map_map, List.map_map]
    exact congrArg (List.map · _) (funext Signature.draft_move)

theorem NodeDraft.references_move (draft : NodeDraft) :
    (draft.move r).references = draft.references.map (Designation.move r) := by
  simp [references, move, TypedName.move]

/-- The designations of the options that count. -/
theorem firstOptions_move (options : List TypeReference) :
    firsts Designation.canonical
        ((options.map (TypeReference.move r)).map TypeReference.designation) =
      (firsts Designation.canonical (options.map TypeReference.designation)).map
        (Designation.move r) := by
  have hdesignations : (options.map (TypeReference.move r)).map TypeReference.designation =
      (options.map TypeReference.designation).map (Designation.move r) := by
    simp
  rw [hdesignations, firsts_map]
  rfl

/-- What is recorded of a body moves with it. -/
theorem Body.declared_move (node : Nat) (body : Body) :
    (body.move r).declared node = (body.declared node).move r := by
  unfold declared
  rw [drafts_move, List.length_map]
  cases body with
  | struct | resolver => rfl
  | enum values =>
    simp only [move, firsts_map, TypeBody.move, List.map_map]
    rfl
  | union options =>
    simp only [move]
    rw [firstOptions_move, TypeBody.move, List.map_map, List.map_map]
    rfl

/-- The designations in a body move with it. -/
theorem Body.references_move (body : Body) :
    (body.move r).references = body.references.map (Designation.move r) := by
  have hdrafts : (body.drafts.map (NodeDraft.move r)).flatMap NodeDraft.references =
      (body.drafts.flatMap NodeDraft.references).map (Designation.move r) := by
    rw [List.flatMap_map, List.map_flatMap]
    exact congrArg (List.flatMap · _) (funext NodeDraft.references_move)
  rw [← drafts_move] at hdrafts
  cases body with
  | union options => exact firstOptions_move options
  | enum | struct | resolver => exact hdrafts

theorem Body.nodeKind_move (parent : TypeId) (body : Body) :
    (body.move r).nodeKind parent = body.nodeKind parent := by
  cases body <;> rfl

namespace Registry

/-! ### Building a registry -/

@[simp]
theorem endpoint?_move (registry : Registry) (name : String) :
    (registry.move r).endpoint? name = (registry.endpoint? name).map (GraphNode.move r) := by
  simp only [endpoint?, move, List.find?_map]
  rfl

/-- A graph node and its parameters get the same numbers. -/
theorem addNode_move (owner : String) (kind : NodeKind) (registry : Registry) (draft : NodeDraft) :
    (registry.move r).addNode owner kind (draft.move r) =
      (registry.addNode owner kind draft).move r := by
  simp only [addNode, move, List.length_map, NodeDraft.references_move]
  simp [NodeDraft.move, TypedName.move, List.zipIdx_map, GraphNode.move, Parameter.move,
    Function.comp_def]

theorem foldl_addNode_move (owner : String) (kind : NodeKind) (registry : Registry)
    (drafts : List NodeDraft) :
    (drafts.map (NodeDraft.move r)).foldl (addNode owner kind) (registry.move r) =
      (drafts.foldl (addNode owner kind) registry).move r := by
  induction drafts generalizing registry with
  | nil => rfl
  | cons draft others ih => rw [List.map_cons, List.foldl_cons, addNode_move, ih, List.foldl_cons]

/-- Adding a declaration commutes with a relocation. -/
theorem add_move (registry : Registry) (declaration : Declaration) :
    (registry.move r).add (declaration.move r) = (registry.add declaration).move r := by
  cases declaration with
  | typeAlias _ name _ target =>
    have hdeclare : (registry.move r).types.declare (name.move r).text (name.move r).start
        (.typeAlias (target.move r).bareDesignation none) = _ :=
      registry.types.declare_move name.text name.start (.typeAlias target.bareDesignation none)
    simp only [add, Declaration.move, hdeclare]
    cases registry.types.declare name.text name.start (.typeAlias target.bareDesignation none) with
    | error => rfl
    | ok added =>
      simp only [Except.mapError, Except.map, move, List.map_append]
      rfl
  | block _ name _ body _ =>
    have hlength : (registry.move r).nodes.length = registry.nodes.length := List.length_map _
    have hdeclare : (registry.move r).types.declare (name.move r).text (name.move r).start
        ((body.move r).declared (registry.nodes.length + 1)) = _ :=
      (congrArg _ (body.declared_move _)).trans
        (registry.types.declare_move name.text name.start (body.declared _))
    simp only [add, Declaration.move, Body.drafts_move, Body.nodeKind_move, Body.references_move,
      hlength, hdeclare]
    cases registry.types.declare name.text name.start
        (body.declared (registry.nodes.length + 1)) with
    | error => rfl
    | ok added =>
      cases body with
      | union options =>
        simp only [Except.mapError, Except.map, Body.drafts, List.map_nil, List.foldl_nil, move,
          Body.move, List.map_append]
        rfl
      | enum | struct | resolver =>
        exact foldl_addNode_move _ _ { registry with types := added.1 } _
  | endpoint kind _ signature =>
    have hname : (signature.move r).name.text = signature.name.text := rfl
    simp only [add, Declaration.move, Signature.draft_move, addNode_move, hname, endpoint?_move]
    cases registry.endpoint? signature.name.text <;> rfl

theorem foldl_add_move (registry : Registry) (declarations : List Declaration) :
    (declarations.map (Declaration.move r)).foldl add (registry.move r) =
      (declarations.foldl add registry).move r := by
  induction declarations generalizing registry with
  | nil => rfl
  | cons declaration others ih => rw [List.map_cons, List.foldl_cons, add_move, ih, List.foldl_cons]

/-- The registry of declarations moves with them. -/
theorem ofDeclarations_move (declarations : List Declaration) :
    ofDeclarations (declarations.map (Declaration.move r)) = (ofDeclarations declarations).move r :=
  foldl_add_move empty declarations

/-- A name that is not declared is not declared anywhere else either. -/
theorem undefinedProblems_move (registry : Registry) :
    (registry.move r).undefinedProblems = registry.undefinedProblems.map (Problem.move r) := by
  unfold undefinedProblems
  rw [move, List.filterMap_map, List.map_filterMap]
  refine congrArg (List.filterMap · _) (funext fun reference => ?_)
  have hterminal : (reference.move r).terminal = reference.terminal := rfl
  rw [Function.comp_apply, hterminal, TypeTable.named?_move]
  cases registry.types.named? reference.terminal <;> rfl

/-! ### Linking -/

/-- A body is filled in from the names in it. -/
theorem linkBody_move (types : TypeTable) (body : TypeBody) :
    linkBody (types.move r) (body.move r) = (linkBody types body).move r := by
  cases body with
  | typeAlias target _ =>
    simp only [linkBody, TypeBody.move, TypeTable.reference?_move]
  | union options =>
    simp only [linkBody, TypeBody.move, List.map_map, UnionOption.move, Function.comp_def,
      TypeTable.reference?_move]
  | enum | struct | resolver => rfl

theorem linkType_move (types : TypeTable) (type : SchemaType) :
    linkType (types.move r) (type.move r) = (linkType types type).move r := by
  cases type with
  | declared type =>
    simp only [linkType, SchemaType.move, DeclaredType.move, linkBody_move]
  | primitive | container => rfl

/-- Linking commutes with a relocation. -/
theorem linked_move (registry : Registry) : (registry.move r).linked = registry.linked.move r := by
  have hresolved : (registry.move r).types.resolveAll (registry.move r).references =
      (registry.types.resolveAll registry.references).move r :=
    registry.types.resolveAll_move registry.references
  simp only [linked, hresolved]
  have hassigned (types : TypeTable) : (types.move r).assigned.map (linkType (types.move r)) =
      (types.assigned.map (linkType types)).map (SchemaType.move r) := by
    rw [TypeTable.move, List.map_map, List.map_map]
    exact congrArg (List.map · _) (funext (linkType_move types))
  rw [hassigned]
  simp only [move, List.map_map, Function.comp_def, GraphNode.move, Parameter.move,
    TypeTable.reference?_move]
  rw [TypeTable.move, List.map_map]
  rfl

@[simp]
theorem node?_move (registry : Registry) (id : NodeId) :
    (registry.move r).node? id = (registry.node? id).map (GraphNode.move r) := by
  simp only [node?, move, List.find?_map]
  rfl

@[simp]
theorem parameter?_move (registry : Registry) (id : ParameterId) :
    (registry.move r).parameter? id = (registry.parameter? id).map (Parameter.move r) := by
  simp only [parameter?, move, List.find?_map]
  rfl

end Registry

end GraphSchema
