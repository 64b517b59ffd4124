import GraphSchema.Types.Basic

/-!
# Graph nodes and parameters

The named places of a schema where values appear: fields of structs, properties of resolvers,
queries and mutations. All but fields may have parameters. A node or parameter keeps the designation
it was written with and, once that is resolved, the type.
-/

namespace GraphSchema

/-- What a graph node is, and the type it is a member of. -/
inductive NodeKind where
  | structField (parent : TypeId)
  | resolverProperty (parent : TypeId)
  | query
  | mutation
deriving DecidableEq, Repr, Inhabited

/-- A field, a property or an endpoint. -/
structure GraphNode where
  id : NodeId
  kind : NodeKind
  name : String
  graphName : String
  position : Cursor
  designation : Designation
  type : Option TypeId
  parameters : List ParameterId
deriving DecidableEq, Repr, Inhabited

/-- A parameter of a graph node. -/
structure Parameter where
  id : ParameterId
  target : NodeId
  name : String
  position : Cursor
  designation : Designation
  type : Option TypeId
deriving DecidableEq, Repr, Inhabited

namespace NodeKind

/-- The word for the kind. -/
def kindName : NodeKind → String
  | structField _ => "struct field"
  | resolverProperty _ => "resolver property"
  | query => "query"
  | mutation => "mutation"

/-- The type that a field or property is a member of. -/
def parent? : NodeKind → Option TypeId
  | structField parent | resolverProperty parent => some parent
  | query | mutation => none

end NodeKind

namespace GraphNode

/-- Is the node a field of a struct? -/
def isField (node : GraphNode) : Bool :=
  match node.kind with
  | .structField _ => true
  | _ => false

/-- Is the node a query? -/
def isQuery (node : GraphNode) : Bool :=
  node.kind == .query

/-- Is the node a mutation? -/
def isMutation (node : GraphNode) : Bool :=
  node.kind == .mutation

/-- Is the node a query or a mutation? -/
def isEndpoint (node : GraphNode) : Bool :=
  node.isQuery || node.isMutation

end GraphNode

end GraphSchema
