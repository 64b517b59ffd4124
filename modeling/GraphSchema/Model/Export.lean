import GraphSchema.Json
import GraphSchema.Model.Basic

/-!
# The JSON export of a model

A model is exported as one object: the name of the schema, then an array for each category of types,
then the endpoints, all sorted by name. References are written as numbers.
-/

namespace GraphSchema

namespace SchemaModel

/-- The number of a type, once it is resolved. -/
def typeJson : Option TypeId → Json
  | some id => .number id.number
  | none => .null

/-- A parameter in the export. -/
def parameterJson (parameter : Parameter) : Json :=
  .object
    [("name", .string parameter.name), ("type", typeJson parameter.type),
     ("graph-param-id", .number parameter.id.number)]

/-- A graph node in the export; fields have no parameters to list. -/
def nodeJson (model : SchemaModel) (node : GraphNode) : Json :=
  .object
    ([("name", .string node.name), ("type", typeJson node.type),
      ("graph-node-id", .number node.id.number)] ++
     if node.isField then []
     else [("parameters", .array ((model.parametersOf node).map parameterJson))])

/-- A declared type in the export: its name, its number and one more member. -/
def declaredJson (type : DeclaredType) (label : String) (content : Json) : Json :=
  .object [("name", .string type.name), ("id", .number type.id.number), (label, content)]

/-- An alias in the export. -/
def aliasJson (type : DeclaredType) : Json :=
  let aliased :=
    match type.body with
    | .typeAlias _ aliased => aliased
    | _ => none
  declaredJson type "aliased-type-id" (typeJson aliased)

/-- An enum in the export. -/
def enumJson (type : DeclaredType) : Json :=
  declaredJson type "values" (.array (type.values.map fun value => .string value.name))

/-- A union in the export. -/
def unionJson (type : DeclaredType) : Json :=
  declaredJson type "option-types"
    (.array ((type.options.filterMap UnionOption.type).map fun id => .number id.number))

/-- A struct or resolver in the export, its members under the given label. -/
def membersJson (model : SchemaModel) (label : String) (type : DeclaredType) : Json :=
  declaredJson type label (.array ((model.nodesOf type.members).map model.nodeJson))

/-- A container in the export. -/
def containerJson (container : Container) : Json :=
  .object
    [("designation", .string container.designation), ("id", .number container.id.number)]

/-- The export of a model. -/
def json (model : SchemaModel) : Json :=
  .object
    [("schema-name", .string model.name),
     ("alias-types", .array (model.aliases.map aliasJson)),
     ("enum-types", .array (model.enums.map enumJson)),
     ("union-types", .array (model.unions.map unionJson)),
     ("struct-types", .array (model.structs.map (model.membersJson "fields"))),
     ("resolver-types", .array (model.resolvers.map (model.membersJson "properties"))),
     ("anonymous-types", .array (model.containers.map containerJson)),
     ("query-endpoints", .array (model.queries.map model.nodeJson)),
     ("mutations", .array (model.mutations.map model.nodeJson))]

end SchemaModel

/-! ### Diagnostics -/

/-- A place in JSON. -/
def Cursor.json (cursor : Cursor) : Json :=
  .object
    [("index", .number cursor.index), ("line", .number cursor.line),
     ("column", .number cursor.column), ("file", .string cursor.file.text)]

/-- A note in JSON. -/
def Note.json (note : Note) : Json :=
  .object
    [("message", .string note.message), ("position", (note.position.map Cursor.json).getD .null)]

/-- A diagnostic in JSON; notes are left out if there are none. -/
def Diagnostic.json (diagnostic : Diagnostic) : Json :=
  .object
    ([("code", .string diagnostic.code.text), ("message", .string diagnostic.message),
      ("position", diagnostic.position.json)] ++
     if diagnostic.notes.isEmpty then []
     else [("notes", .array (diagnostic.notes.map Note.json))])

end GraphSchema
