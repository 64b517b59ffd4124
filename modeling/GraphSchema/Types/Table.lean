import GraphSchema.Types.Basic

/-!
# The table of types

A table holds the primitive types and the types that were given a number since, in the order of
their numbers. Declaring a type gives it the next number unless its name is taken. Resolving a
designation looks up its name and forms one container for each modifier, from the innermost outward;
a container that exists already is used again, so equal designations have equal numbers.
-/

namespace GraphSchema

/-- The types that have been given a number, the `n`th of them the number `firstAssigned + n`. -/
structure TypeTable where
  assigned : List SchemaType
deriving DecidableEq, Repr, Inhabited

namespace TypeTable

/-- A table with the primitive types alone. -/
def empty : TypeTable := ⟨[]⟩

/-- All types in the order of their numbers. -/
def types (table : TypeTable) : List SchemaType :=
  Primitive.all.map .primitive ++ table.assigned

/-- The number that the next type is given. -/
def nextId (table : TypeTable) : TypeId :=
  ⟨TypeId.firstAssigned + table.assigned.length⟩

/-- The declared types in the order of their numbers. -/
def declared (table : TypeTable) : List DeclaredType :=
  table.assigned.filterMap SchemaType.declared?

/-- The containers in the order of their numbers. -/
def containers (table : TypeTable) : List Container :=
  table.assigned.filterMap SchemaType.container?

/-- The type with a given number. -/
def type? (table : TypeTable) (id : TypeId) : Option SchemaType :=
  table.types.find? fun type => type.id == id

/-- The primitive or declared type with a given name. -/
def named? (table : TypeTable) (name : String) : Option SchemaType :=
  table.types.find? fun type => !type.isAnonymous && type.designation == name

/-- The container with a given designation. -/
def anonymous? (table : TypeTable) (designation : String) : Option Container :=
  table.containers.find? fun type => type.designation == designation

/-- The canonical designation of the type with a given number. -/
def designation? (table : TypeTable) (id : TypeId) : Option String :=
  (table.type? id).map SchemaType.designation

/-- The type that is left when all wrapping is taken away; only containers wrap. -/
def terminal (table : TypeTable) (id : TypeId) : TypeId :=
  match table.type? id with
  | some (.container type) => type.terminal
  | _ => id

/-- Declares a type under the next number. If the name is taken, nothing changes and the place of
the earlier declaration is given back, which a primitive type has not. -/
def declare (table : TypeTable) (name : String) (position : Cursor) (body : TypeBody) :
    Except (Option Cursor) (TypeTable × TypeId) :=
  match table.named? name with
  | some earlier => .error earlier.position?
  | none =>
    .ok (⟨table.assigned ++ [.declared ⟨table.nextId, name, position, body⟩]⟩, table.nextId)

/-- The container that a modifier makes of a type, formed under the next number if there is none. -/
def intern (table : TypeTable) (modifier : Modifier) (store : TypeId) : TypeTable × TypeId :=
  let designation := modifier.text ++ (table.designation? store).getD ""
  match table.anonymous? designation with
  | some container => (table, container.id)
  | none =>
    (⟨table.assigned ++
        [.container ⟨table.nextId, modifier, designation, store, table.terminal store⟩]⟩,
      table.nextId)

/-- Wraps a type in modifiers, the outermost of which comes first. -/
def wrap (table : TypeTable) (store : TypeId) : List Modifier → TypeTable × TypeId
  | [] => (table, store)
  | modifier :: inner =>
    let (table, store) := table.wrap store inner
    table.intern modifier store

/-- Resolves a designation; nothing is formed if its name is not known. -/
def resolve (table : TypeTable) (designation : Designation) : TypeTable × Option TypeId :=
  match table.named? designation.terminal with
  | none => (table, none)
  | some type =>
    let (table, id) := table.wrap type.id designation.modifiers
    (table, some id)

/-- Resolves designations one after the other. -/
def resolveAll (table : TypeTable) (designations : List Designation) : TypeTable :=
  designations.foldl (fun table designation => (table.resolve designation).1) table

/-- The type that a designation refers to, if it is in the table. -/
def reference? (table : TypeTable) (designation : Designation) : Option TypeId :=
  match designation.modifiers with
  | [] => (table.named? designation.terminal).map SchemaType.id
  | _ => (table.anonymous? designation.canonical).map Container.id

end TypeTable

end GraphSchema
