import GraphSchema.Distinct
import GraphSchema.Document.Basic
import GraphSchema.Diagnostic.Problem
import GraphSchema.Graph.Basic
import GraphSchema.Types.Table

/-!
# The registry

The registry numbers what the declarations of a document declare. `Registry.add` takes the
declarations one by one; a declaration whose name is taken is left out with all its members, and of
the members of a declaration only the first of each name counts. The designations that are used are
noted in order, and `Registry.linked` resolves them once all types are declared.
-/

namespace GraphSchema

/-- The types, graph nodes and parameters of a schema, and the designations that refer to types. -/
structure Registry where
  types : TypeTable
  nodes : List GraphNode
  parameters : List Parameter
  references : List Designation
deriving DecidableEq, Repr, Inhabited

/-- A graph node before it has a number. -/
structure NodeDraft where
  name : Token
  parameters : List TypedName
  type : TypeReference
deriving DecidableEq, Repr, Inhabited

/-- The graph node that a field makes. -/
def TypedName.draft (field : TypedName) : NodeDraft :=
  ⟨field.name, [], field.type⟩

/-- The graph node that a property or an endpoint makes, with the parameters that count. -/
def Signature.draft (signature : Signature) : NodeDraft :=
  ⟨signature.name, firsts (fun parameter => parameter.name.text) signature.parameterList,
    signature.type⟩

/-- The graph nodes of the members that count. -/
def Body.drafts : Body → List NodeDraft
  | enum _ | union _ => []
  | struct fields => (firsts (fun field => field.name.text) fields).map TypedName.draft
  | resolver properties =>
    (firsts (fun property => property.name.text) properties).map Signature.draft

/-- The designations of a graph node: those of its parameters, then its own. -/
def NodeDraft.references (draft : NodeDraft) : List Designation :=
  draft.parameters.map (fun parameter => parameter.type.designation) ++ [draft.type.designation]

/-- The type that is declared under a number when the next graph node has the number `node`. -/
def Body.declared (node : Nat) (body : Body) : TypeBody :=
  let members := (List.range' node body.drafts.length).map NodeId.mk
  match body with
  | enum values => .enum ((firsts Token.text values).map fun value => ⟨value.text, value.start⟩)
  | union options =>
    .union ((firsts Designation.canonical (options.map TypeReference.designation)).map fun option =>
      ⟨option, none⟩)
  | struct _ => .struct members
  | resolver _ => .resolver members

/-- The designations of the members that count. -/
def Body.references (body : Body) : List Designation :=
  match body with
  | union options => firsts Designation.canonical (options.map TypeReference.designation)
  | _ => body.drafts.flatMap NodeDraft.references

/-- The kind of the members of a declared type. -/
def Body.nodeKind (parent : TypeId) : Body → NodeKind
  | resolver _ => .resolverProperty parent
  | _ => .structField parent

/-- The target of an alias as a designation. -/
def Token.bareDesignation (target : Token) : Designation :=
  ⟨[], target.text, target.start, target.start⟩

/-- The kind of node that an endpoint is. -/
def EndpointKind.nodeKind : EndpointKind → NodeKind
  | query => .query
  | mutation => .mutation

namespace Registry

/-- The registry of a schema that declares nothing. -/
def empty : Registry := ⟨.empty, [], [], []⟩

/-- The endpoint with a given name. -/
def endpoint? (registry : Registry) (name : String) : Option GraphNode :=
  registry.nodes.find? fun node => node.isEndpoint && node.name == name

/-- Adds a graph node and its parameters under the next numbers. -/
def addNode (owner : String) (kind : NodeKind) (registry : Registry) (draft : NodeDraft) :
    Registry :=
  let id : NodeId := ⟨registry.nodes.length + 1⟩
  let parameters := (draft.parameters.zipIdx (registry.parameters.length + 1)).map
    fun (parameter, number) =>
      ⟨⟨number⟩, id, parameter.name.text, parameter.name.start, parameter.type.designation, none⟩
  { registry with
    nodes := registry.nodes ++
      [⟨id, kind, draft.name.text, owner ++ draft.name.text, draft.name.start,
        draft.type.designation, none, parameters.map Parameter.id⟩]
    parameters := registry.parameters ++ parameters
    references := registry.references ++ draft.references }

/-- Adds a declaration, unless its name is taken. -/
def add (registry : Registry) (declaration : Declaration) : Registry :=
  match declaration with
  | .typeAlias _ name _ target =>
    let target := target.bareDesignation
    match registry.types.declare name.text name.start (.typeAlias target none) with
    | .error _ => registry
    | .ok (types, _) => { registry with types, references := registry.references ++ [target] }
  | .block _ name _ body _ =>
    let next := registry.nodes.length + 1
    match registry.types.declare name.text name.start (body.declared next) with
    | .error _ => registry
    | .ok (types, id) =>
      let declared :=
        match body with
        | .union _ => { registry with types, references := registry.references ++ body.references }
        | _ => { registry with types }
      body.drafts.foldl (addNode (name.text ++ ".") (body.nodeKind id)) declared
  | .endpoint kind _ signature =>
    match registry.endpoint? signature.name.text with
    | some _ => registry
    | none => registry.addNode "" kind.nodeKind signature.draft

/-- The registry of the declarations of a document. -/
def ofDeclarations (declarations : List Declaration) : Registry :=
  declarations.foldl add empty

/-- The references whose name is not declared. -/
def undefinedProblems (registry : Registry) : List Problem :=
  registry.references.filterMap fun reference =>
    match registry.types.named? reference.terminal with
    | some _ => none
    | none => some (.typeUndefined reference.terminal reference.terminalPosition)

/-- Fills in the references inside a declared type. -/
def linkBody (types : TypeTable) : TypeBody → TypeBody
  | .typeAlias target _ => .typeAlias target (types.reference? target)
  | .union options =>
    .union (options.map fun option =>
      { option with type := types.reference? option.designation })
  | body => body

/-- Fills in the references inside a type. -/
def linkType (types : TypeTable) : SchemaType → SchemaType
  | .declared type => .declared { type with body := linkBody types type.body }
  | type => type

/-- Forms the containers that the references need, in order, and fills in what they refer to. -/
def linked (registry : Registry) : Registry :=
  let types := registry.types.resolveAll registry.references
  { registry with
    types := ⟨types.assigned.map (linkType types)⟩
    nodes := registry.nodes.map fun node =>
      { node with type := types.reference? node.designation }
    parameters := registry.parameters.map fun parameter =>
      { parameter with type := types.reference? parameter.designation } }

/-- The graph node with a given number. -/
def node? (registry : Registry) (id : NodeId) : Option GraphNode :=
  registry.nodes.find? fun node => node.id == id

/-- The parameter with a given number. -/
def parameter? (registry : Registry) (id : ParameterId) : Option Parameter :=
  registry.parameters.find? fun parameter => parameter.id == id

end Registry

end GraphSchema
