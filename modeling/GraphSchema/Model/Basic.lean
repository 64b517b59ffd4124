import GraphSchema.Registry
import GraphSchema.Types.Reference

/-!
# Schema models

The model of a schema that was accepted: its name and everything it declares, with all references
resolved. Types and graph nodes can be looked up by number and by name, and each category of them is
listed in the order of the names.
-/

namespace GraphSchema

/-- An accepted schema. -/
structure SchemaModel where
  name : String
  position : Cursor
  registry : Registry
deriving DecidableEq, Repr, Inhabited

/-- Sorts by a text, in the order of code points. -/
def sortedBy {α : Type} (key : α → String) (entries : List α) : List α :=
  entries.mergeSort fun a b => (compare (key a) (key b)).isLE

namespace SchemaModel

/-! ### Look-up -/

/-- The types of the model with the queries on them. -/
def types (model : SchemaModel) : TypeTable :=
  model.registry.types

/-- The type with a given number. -/
def type? (model : SchemaModel) (id : TypeId) : Option SchemaType :=
  model.types.type? id

/-- The primitive or declared type with a given name. -/
def typeNamed? (model : SchemaModel) (name : String) : Option SchemaType :=
  model.types.named? name

/-- The container with a given designation. -/
def anonymous? (model : SchemaModel) (designation : String) : Option Container :=
  model.types.anonymous? designation

/-- The graph node with a given number. -/
def node? (model : SchemaModel) (id : NodeId) : Option GraphNode :=
  model.registry.node? id

/-- The graph node with a given graph name. -/
def nodeNamed? (model : SchemaModel) (graphName : String) : Option GraphNode :=
  model.registry.nodes.find? fun node => node.graphName == graphName

/-- The parameter with a given number. -/
def parameter? (model : SchemaModel) (id : ParameterId) : Option Parameter :=
  model.registry.parameter? id

/-- The value with a given name of the enum with a given name. -/
def enumValue? (model : SchemaModel) (enumName value : String) : Option EnumValue := do
  let type ← (← model.typeNamed? enumName).declared?
  type.values.find? fun candidate => candidate.name == value

/-- The graph nodes with the given numbers. -/
def nodesOf (model : SchemaModel) (ids : List NodeId) : List GraphNode :=
  ids.filterMap model.node?

/-- The parameters of a graph node, in order. -/
def parametersOf (model : SchemaModel) (node : GraphNode) : List Parameter :=
  node.parameters.filterMap model.parameter?

/-! ### Sorted categories -/

/-- The declared types. -/
def declared (model : SchemaModel) : List DeclaredType :=
  model.types.declared

/-- The declared types of one kind, sorted by name. -/
def declaredOf (model : SchemaModel) (select : TypeBody → Bool) : List DeclaredType :=
  sortedBy DeclaredType.name (model.declared.filter fun type => select type.body)

/-- The aliases, sorted by name. -/
def aliases (model : SchemaModel) : List DeclaredType :=
  model.declaredOf fun | .typeAlias _ _ => true | _ => false

/-- The enums, sorted by name. -/
def enums (model : SchemaModel) : List DeclaredType :=
  model.declaredOf fun | .enum _ => true | _ => false

/-- The unions, sorted by name. -/
def unions (model : SchemaModel) : List DeclaredType :=
  model.declaredOf fun | .union _ => true | _ => false

/-- The structs, sorted by name. -/
def structs (model : SchemaModel) : List DeclaredType :=
  model.declaredOf fun | .struct _ => true | _ => false

/-- The resolvers, sorted by name. -/
def resolvers (model : SchemaModel) : List DeclaredType :=
  model.declaredOf fun | .resolver _ => true | _ => false

/-- The containers, sorted by designation. -/
def containers (model : SchemaModel) : List Container :=
  sortedBy Container.designation model.types.containers

/-- The graph nodes, sorted by graph name. -/
def nodes (model : SchemaModel) : List GraphNode :=
  sortedBy GraphNode.graphName model.registry.nodes

/-- The queries, sorted by name. -/
def queries (model : SchemaModel) : List GraphNode :=
  sortedBy GraphNode.graphName (model.registry.nodes.filter GraphNode.isQuery)

/-- The mutations, sorted by name. -/
def mutations (model : SchemaModel) : List GraphNode :=
  sortedBy GraphNode.graphName (model.registry.nodes.filter GraphNode.isMutation)

end SchemaModel

end GraphSchema
