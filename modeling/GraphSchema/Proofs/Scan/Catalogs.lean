import GraphSchema.Registry
import GraphSchema.Token.Lexer

/-!
# Catalogs

While a document is scanned, types, graph nodes and parameters are registered one by one in catalogs
(`TypeCatalog`, `GraphCatalog`), which look names up in tables and count numbers up.  A name is
claimed where it is read, and only if it was not claimed before is anything registered under it.
What a declared type consists of is set when its declaration is complete, and what a name refers to
is left to jobs that are queued meanwhile (`QueuedJob`).  All this, with the problems that were
recorded and the lexer, is what a scan changes (`Scanner`).
-/

namespace GraphSchema

/-! ### Types -/

/-- A type with other members. -/
def SchemaType.withBody (body : TypeBody) : SchemaType → SchemaType
  | declared type => .declared { type with body }
  | type => type

/-- The types that have been registered, by number, by name and by designation, and the number that
comes next. -/
structure TypeCatalog where
  types : List (TypeId × SchemaType)
  named : List (String × TypeId)
  anonymous : List (String × TypeId)
  next : Nat
deriving DecidableEq, Repr, Inhabited

namespace TypeCatalog

/-- The primitive types are there from the beginning. -/
def start : TypeCatalog where
  types := Primitive.all.map fun primitive => (primitive.id, .primitive primitive)
  named := Primitive.all.map fun primitive => (primitive.name, primitive.id)
  anonymous := []
  next := TypeId.firstAssigned

/-- Registers a type under the next number, unless its name is taken. -/
def declare (catalog : TypeCatalog) (name : Token) (body : TypeBody) :
    Except Problem (TypeCatalog × TypeId) :=
  match catalog.named.lookup name.text with
  | some earlier =>
    .error <| .typeRedeclared name.text name.start <|
      (catalog.types.lookup earlier).bind SchemaType.position?
  | none =>
    let id : TypeId := ⟨catalog.next⟩
    .ok ({ catalog with
      types := catalog.types ++ [(id, .declared ⟨id, name.text, name.start, body⟩)]
      named := catalog.named ++ [(name.text, id)]
      next := catalog.next + 1 }, id)

/-- Sets what a declared type consists of. -/
def setBody (catalog : TypeCatalog) (id : TypeId) (body : TypeBody) : TypeCatalog :=
  { catalog with
    types := catalog.types.map fun entry =>
      if entry.1 = id then (entry.1, entry.2.withBody body) else entry }

end TypeCatalog

/-! ### Graph nodes and parameters -/

/-- A graph node whose type has not been resolved. -/
structure NodeEntry where
  id : NodeId
  kind : NodeKind
  name : String
  graphName : String
  position : Cursor
  parameters : List ParameterId
deriving DecidableEq, Repr, Inhabited

/-- A parameter whose type has not been resolved. -/
structure ParameterEntry where
  id : ParameterId
  target : NodeId
  name : String
  position : Cursor
deriving DecidableEq, Repr, Inhabited

/-- The graph node with one more parameter; a field has none. -/
def NodeEntry.withParameter (node : NodeEntry) (id : ParameterId) : NodeEntry :=
  match node.kind with
  | .structField _ => node
  | _ => { node with parameters := node.parameters ++ [id] }

/-- The graph nodes and parameters that have been registered, the names of the endpoints with the
places where they were claimed, and the numbers that come next. -/
structure GraphCatalog where
  nodes : List NodeEntry
  parameters : List ParameterEntry
  rootNames : List (String × Cursor)
  nextNode : Nat
  nextParameter : Nat
deriving DecidableEq, Repr, Inhabited

namespace GraphCatalog

/-- Nothing has been registered. -/
def start : GraphCatalog := ⟨[], [], [], 1, 1⟩

/-- Claims the name of an endpoint. -/
def claimRootName (catalog : GraphCatalog) (name : Token) : Except Problem GraphCatalog :=
  match catalog.rootNames.lookup name.text with
  | some prior => .error (.endpointRedeclared name.text name.start prior)
  | none => .ok { catalog with rootNames := catalog.rootNames ++ [(name.text, name.start)] }

/-- Registers a graph node under the next number. -/
def addNode (catalog : GraphCatalog) (kind : NodeKind) (owner : String) (name : Token) :
    GraphCatalog × NodeId :=
  let id : NodeId := ⟨catalog.nextNode⟩
  ({ catalog with
    nodes := catalog.nodes ++ [⟨id, kind, name.text, owner ++ name.text, name.start, []⟩]
    nextNode := catalog.nextNode + 1 }, id)

/-- Registers a parameter under the next number, with its graph node. -/
def addParameter (catalog : GraphCatalog) (target : NodeId) (name : Token) :
    GraphCatalog × ParameterId :=
  let id : ParameterId := ⟨catalog.nextParameter⟩
  ({ catalog with
    nodes := catalog.nodes.map fun node => if node.id = target then node.withParameter id else node
    parameters := catalog.parameters ++ [⟨id, target, name.text, name.start⟩]
    nextParameter := catalog.nextParameter + 1 }, id)

end GraphCatalog

/-! ### Jobs -/

/-- What is left to do when all declarations have been read: to resolve the target of an alias, the
options of a union, or the type of a graph node or a parameter. -/
inductive QueuedJob where
  | target (type : TypeId) (target : Designation)
  | options (union : TypeId)
  | node (node : NodeId) (type : Designation)
  | parameter (parameter : ParameterId) (type : Designation)
deriving DecidableEq, Repr, Inhabited

/-! ### Scopes -/

/-- The names that are claimed inside one declaration or one list of parameters, or the designations
of the options of a union, each with the place where it was claimed. -/
abbrev NameScope : Type :=
  List (String × Cursor)

/-- Claims a name. If it was claimed before, the place where that was is given. -/
def NameScope.claim (scope : NameScope) (name : String) (position : Cursor) :
    Except Cursor NameScope :=
  match scope.lookup name with
  | some prior => .error prior
  | none => .ok (scope ++ [(name, position)])

/-! ### Scanners -/

/-- What a scan changes. -/
structure Scanner where
  lexer : Lexer
  types : TypeCatalog
  graph : GraphCatalog
  jobs : List QueuedJob
  problems : List Problem
deriving Inhabited

/-- A scan begins with the primitive types. -/
def Scanner.start (lexer : Lexer) : Scanner :=
  ⟨lexer, .start, .start, [], []⟩

end GraphSchema
