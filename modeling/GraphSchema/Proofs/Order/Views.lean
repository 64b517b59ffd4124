import GraphSchema.Proofs.Lookup
import GraphSchema.Proofs.Relocation.Outcome

/-!
# Views of models

The view of a model (`SchemaModel.view`) shows everything that is declared and to which types it
refers, without numbers and places: a type that is referred to is shown by its designation.

All categories of a view are sorted, so a view depends on which types, containers and graph nodes
there are, but not on their order (`ModelView.arranged_perm`).
-/

namespace GraphSchema

/-- A parameter: its name and the designation of its type. -/
structure ParameterView where
  name : String
  type : Option String
deriving DecidableEq, Repr

/-- A graph node: the word for its kind, the name of the type it is a member of, its names, the
designation of its type and its parameters in order. -/
structure NodeView where
  kind : String
  parent : Option String
  name : String
  graphName : String
  type : Option String
  parameters : List ParameterView
deriving DecidableEq, Repr

/-- What a declared type is, its members in order. -/
inductive BodyView where
  | typeAlias (target : Option String)
  | enum (values : List String)
  | union (options : List (Option String))
  | struct (fields : List NodeView)
  | resolver (properties : List NodeView)
deriving DecidableEq, Repr

/-- A declared type. -/
structure TypeView where
  name : String
  body : BodyView
deriving DecidableEq, Repr

/-- The name of a schema and the sorted categories of its types and graph nodes. -/
structure ModelView where
  name : String
  aliases : List TypeView
  enums : List TypeView
  unions : List TypeView
  structs : List TypeView
  resolvers : List TypeView
  containers : List String
  nodes : List NodeView
  queries : List NodeView
  mutations : List NodeView
deriving DecidableEq, Repr

/-! ### Views of the parts of a model -/

namespace SchemaModel

variable (model : SchemaModel)

/-- The designation of a type. -/
def typeText (type : Option TypeId) : Option String :=
  type.bind model.types.designation?

/-- The view of a parameter. -/
def parameterView (parameter : Parameter) : ParameterView :=
  ⟨parameter.name, model.typeText parameter.type⟩

/-- The view of a graph node. -/
def nodeView (node : GraphNode) : NodeView where
  kind := node.kind.kindName
  parent := model.typeText node.kind.parent?
  name := node.name
  graphName := node.graphName
  type := model.typeText node.type
  parameters := (model.parametersOf node).map model.parameterView

/-- The view of what a declared type is. -/
def bodyView : TypeBody → BodyView
  | .typeAlias _ aliased => .typeAlias (model.typeText aliased)
  | .enum values => .enum (values.map EnumValue.name)
  | .union options => .union (options.map fun option => model.typeText option.type)
  | .struct fields => .struct ((model.nodesOf fields).map model.nodeView)
  | .resolver properties => .resolver ((model.nodesOf properties).map model.nodeView)

/-- The view of a declared type. -/
def typeView (type : DeclaredType) : TypeView :=
  ⟨type.name, model.bodyView type.body⟩

/-- The view of a model. -/
def view : ModelView where
  name := model.name
  aliases := model.aliases.map model.typeView
  enums := model.enums.map model.typeView
  unions := model.unions.map model.typeView
  structs := model.structs.map model.typeView
  resolvers := model.resolvers.map model.typeView
  containers := model.containers.map Container.designation
  nodes := model.nodes.map model.nodeView
  queries := model.queries.map model.nodeView
  mutations := model.mutations.map model.nodeView

end SchemaModel

/-! ### Sorting -/

/-- Entries with distinct keys stand in the order of their keys in one way only. -/
theorem eq_sortedBy {α : Type} {key : α → String} {row entries : List α} (perm : row.Perm entries)
    (distinct : (entries.map key).Nodup)
    (ordered : row.Pairwise fun a b => (compare (key a) (key b)).isLE = true) :
    row = sortedBy key entries := by
  have hsorted : (sortedBy key entries).Perm entries := List.mergeSort_perm entries _
  refine List.Perm.eq_of_pairwise ?_ ordered (pairwise_mergeSort_key key entries)
    (perm.trans hsorted.symm)
  intro a b ha hb hab hba
  apply eq_of_key_eq distinct (perm.mem_iff.mp ha) (hsorted.mem_iff.mp hb)
  exact Std.LawfulEqCmp.compare_eq_iff_eq.mp (Std.OrientedCmp.isLE_antisymm hab hba)

/-- The order of the entries does not matter when they are sorted by distinct keys. -/
theorem sortedBy_eq_of_perm {α : Type} {key : α → String} {entries others : List α}
    (h : entries.Perm others) (distinct : (entries.map key).Nodup) :
    sortedBy key entries = sortedBy key others :=
  eq_sortedBy ((List.mergeSort_perm entries _).trans h) ((h.map key).nodup_iff.mp distinct)
    (pairwise_mergeSort_key key entries)

namespace ModelView

/-- The declared types of one kind, sorted by name. -/
def typesWhere (types : List TypeView) (select : BodyView → Bool) : List TypeView :=
  sortedBy TypeView.name (types.filter fun type => select type.body)

/-- The graph nodes of some kinds, sorted by graph name. -/
def nodesWhere (nodes : List NodeView) (select : String → Bool) : List NodeView :=
  sortedBy NodeView.graphName (nodes.filter fun node => select node.kind)

/-- The view of a model with the given types, containers and graph nodes. -/
def arranged (name : String) (types : List TypeView) (containers : List String)
    (nodes : List NodeView) : ModelView where
  name := name
  aliases := typesWhere types fun | .typeAlias _ => true | _ => false
  enums := typesWhere types fun | .enum _ => true | _ => false
  unions := typesWhere types fun | .union _ => true | _ => false
  structs := typesWhere types fun | .struct _ => true | _ => false
  resolvers := typesWhere types fun | .resolver _ => true | _ => false
  containers := sortedBy id containers
  nodes := nodesWhere nodes fun _ => true
  queries := nodesWhere nodes fun kind => kind == NodeKind.query.kindName
  mutations := nodesWhere nodes fun kind => kind == NodeKind.mutation.kindName

/-- The order of types, containers and graph nodes does not matter if their names are distinct. -/
theorem arranged_perm (name : String) {types otherTypes : List TypeView}
    {containers otherContainers : List String} {nodes otherNodes : List NodeView}
    (typesPerm : types.Perm otherTypes) (containersPerm : containers.Perm otherContainers)
    (nodesPerm : nodes.Perm otherNodes) (typeNames : (types.map TypeView.name).Nodup)
    (designations : containers.Nodup) (graphNames : (nodes.map NodeView.graphName).Nodup) :
    arranged name types containers nodes = arranged name otherTypes otherContainers otherNodes := by
  have htypes (select : BodyView → Bool) :
      typesWhere types select = typesWhere otherTypes select := by
    refine sortedBy_eq_of_perm (typesPerm.filter _) ?_
    exact typeNames.sublist ((List.filter_sublist).map _)
  have hnodes (select : String → Bool) :
      nodesWhere nodes select = nodesWhere otherNodes select := by
    refine sortedBy_eq_of_perm (nodesPerm.filter _) ?_
    exact graphNames.sublist ((List.filter_sublist).map _)
  have hcontainers : sortedBy id containers = sortedBy id otherContainers :=
    sortedBy_eq_of_perm containersPerm (by rwa [List.map_id])
  simp only [arranged, htypes, hnodes, hcontainers]

end ModelView

namespace GraphNode

theorem isQuery_eq (node : GraphNode) :
    (node.kind.kindName == NodeKind.query.kindName) = node.isQuery := by
  unfold isQuery
  cases node.kind <;> simp [NodeKind.kindName]

theorem isMutation_eq (node : GraphNode) :
    (node.kind.kindName == NodeKind.mutation.kindName) = node.isMutation := by
  unfold isMutation
  cases node.kind <;> simp [NodeKind.kindName]

end GraphNode

namespace SchemaModel

variable (model : SchemaModel)

theorem typesWhere_view {select : TypeBody → Bool} {shown : BodyView → Bool}
    (selects : ∀ body, shown (model.bodyView body) = select body) :
    (model.declaredOf select).map model.typeView =
      ModelView.typesWhere (model.declared.map model.typeView) shown := by
  have hselect : (fun type : TypeView => shown type.body) ∘ model.typeView =
      fun type => select type.body := funext fun type => selects type.body
  have hname (type : DeclaredType) : (model.typeView type).name = type.name := rfl
  rw [ModelView.typesWhere, List.filter_map, hselect, declaredOf, sortedBy_map hname]

theorem nodesWhere_view {select : GraphNode → Bool} {shown : String → Bool}
    (selects : ∀ node : GraphNode, shown node.kind.kindName = select node) :
    (sortedBy GraphNode.graphName (model.registry.nodes.filter select)).map model.nodeView =
      ModelView.nodesWhere (model.registry.nodes.map model.nodeView) shown := by
  have hselect : (fun node : NodeView => shown node.kind) ∘ model.nodeView = select :=
    funext selects
  have hname (node : GraphNode) : (model.nodeView node).graphName = node.graphName := rfl
  rw [ModelView.nodesWhere, List.filter_map, hselect, sortedBy_map hname]

/-- A view shows the declared types, the containers and the graph nodes. -/
theorem view_eq_arranged : model.view = .arranged model.name
    (model.declared.map model.typeView) (model.types.containers.map Container.designation)
    (model.registry.nodes.map model.nodeView) := by
  have hcontainers : model.containers.map Container.designation =
      sortedBy id (model.types.containers.map Container.designation) := by
    have hname (container : Container) : id container.designation = container.designation := rfl
    rw [sortedBy_map hname, containers]
  have hnodes : model.nodes.map model.nodeView =
      ModelView.nodesWhere (model.registry.nodes.map model.nodeView) fun _ => true := by
    have hall := @nodesWhere_view model (fun _ => true) (fun _ => true) fun _ => rfl
    rw [← hall, List.filter_true, nodes]
  rw [ModelView.arranged, view, hcontainers, hnodes]
  congr 1
  · exact model.typesWhere_view fun body => by cases body <;> rfl
  · exact model.typesWhere_view fun body => by cases body <;> rfl
  · exact model.typesWhere_view fun body => by cases body <;> rfl
  · exact model.typesWhere_view fun body => by cases body <;> rfl
  · exact model.typesWhere_view fun body => by cases body <;> rfl
  · exact model.nodesWhere_view GraphNode.isQuery_eq
  · exact model.nodesWhere_view GraphNode.isMutation_eq

/-! ### Views at other places -/

variable {model} {r : Relocation}

theorem typeText_move (type : Option TypeId) : (model.move r).typeText type = model.typeText type :=
  congrArg type.bind (funext model.types.designation?_move)

theorem nodeView_move (node : GraphNode) :
    (model.move r).nodeView (node.move r) = model.nodeView node := by
  have hparameters : (model.move r).parameterView ∘ Parameter.move r = model.parameterView := by
    funext parameter
    exact congrArg (ParameterView.mk parameter.name) (typeText_move parameter.type)
  simp only [nodeView, parametersOf_move, typeText_move, List.map_map, hparameters]
  rfl

theorem bodyView_move (body : TypeBody) :
    (model.move r).bodyView (body.move r) = model.bodyView body := by
  have hmembers (members : List NodeId) : ((model.move r).nodesOf members).map
      (model.move r).nodeView = (model.nodesOf members).map model.nodeView := by
    rw [nodesOf_move, List.map_map]
    exact congrArg (List.map · _) (funext nodeView_move)
  cases body with
  | typeAlias target aliased => exact congrArg BodyView.typeAlias (typeText_move aliased)
  | enum values => simp only [bodyView, TypeBody.move, List.map_map]; rfl
  | union options =>
    simp only [bodyView, TypeBody.move, List.map_map, Function.comp_def, typeText_move]
    rfl
  | struct fields => exact congrArg BodyView.struct (hmembers fields)
  | resolver properties => exact congrArg BodyView.resolver (hmembers properties)

/-- A view shows no places. -/
theorem view_move : (model.move r).view = model.view := by
  have hdeclared : (model.move r).declared = model.declared.map (DeclaredType.move r) :=
    model.registry.types.declared_move
  have htypes : (model.move r).typeView ∘ DeclaredType.move r = model.typeView :=
    funext fun type => congrArg (TypeView.mk type.name) (bodyView_move type.body)
  have hnodes : (model.move r).registry.nodes = model.registry.nodes.map (GraphNode.move r) := rfl
  have hviews : (model.move r).nodeView ∘ GraphNode.move r = model.nodeView :=
    funext nodeView_move
  have hcontainers : (model.move r).types.containers = model.types.containers :=
    model.registry.types.containers_move
  rw [view_eq_arranged, view_eq_arranged, hdeclared, hnodes, hcontainers, List.map_map,
    List.map_map, htypes, hviews]
  rfl

end SchemaModel

end GraphSchema
