import GraphSchema.Designation
import GraphSchema.Types.Primitive

/-!
# Types

A type is primitive, declared by name, or a container: an optional or a list of another type.
Containers have no declaration; they are known by their designation. References inside declared
types are resolved only after all declarations are known, so until then they are absent.
-/

namespace GraphSchema

/-- The number of a graph node. -/
structure NodeId where
  number : Nat
deriving DecidableEq, Repr, Inhabited

/-- The number of a parameter. -/
structure ParameterId where
  number : Nat
deriving DecidableEq, Repr, Inhabited

/-- A value of an enum. -/
structure EnumValue where
  name : String
  position : Cursor
deriving DecidableEq, Repr, Inhabited

/-- An option of a union as it is written, and its type once it is resolved. -/
structure UnionOption where
  designation : Designation
  type : Option TypeId
deriving DecidableEq, Repr, Inhabited

/-- What a declared type is. Fields and properties are graph nodes. -/
inductive TypeBody where
  | typeAlias (target : Designation) (aliased : Option TypeId)
  | enum (values : List EnumValue)
  | union (options : List UnionOption)
  | struct (fields : List NodeId)
  | resolver (properties : List NodeId)
deriving DecidableEq, Repr, Inhabited

/-- A type that a schema declares. -/
structure DeclaredType where
  id : TypeId
  name : String
  position : Cursor
  body : TypeBody
deriving DecidableEq, Repr, Inhabited

/-- An optional or a list. Its store is the type it directly wraps, its terminal the type that is
left when all wrapping is taken away. -/
structure Container where
  id : TypeId
  modifier : Modifier
  designation : String
  store : TypeId
  terminal : TypeId
deriving DecidableEq, Repr, Inhabited

/-- A type of a schema. -/
inductive SchemaType where
  | primitive (primitive : Primitive)
  | declared (type : DeclaredType)
  | container (container : Container)
deriving DecidableEq, Repr, Inhabited

/-- The word for the kind of a declared type. -/
def TypeBody.kindName : TypeBody → String
  | typeAlias _ _ => "alias"
  | enum _ => "enum"
  | union _ => "union"
  | struct _ => "struct"
  | resolver _ => "resolver"

/-- The word for the kind of a container. -/
def Modifier.kindName : Modifier → String
  | optional => "optional"
  | list => "list"

namespace SchemaType

/-- The number of a type. -/
def id : SchemaType → TypeId
  | primitive type => type.id
  | declared type => type.id
  | container type => type.id

/-- The canonical designation: the name of a type that has one, else modifiers and a name. -/
def designation : SchemaType → String
  | primitive type => type.name
  | declared type => type.name
  | container type => type.designation

/-- Where the type is declared. -/
def position? : SchemaType → Option Cursor
  | declared type => some type.position
  | _ => none

/-- The word for the kind of a type. -/
def kindName : SchemaType → String
  | primitive _ => "primitive"
  | declared type => type.body.kindName
  | container type => type.modifier.kindName

/-- Has the type no name? -/
def isAnonymous : SchemaType → Bool
  | container _ => true
  | _ => false

/-- The declared type, if it is one. -/
def declared? : SchemaType → Option DeclaredType
  | declared type => some type
  | _ => none

/-- The container, if it is one. -/
def container? : SchemaType → Option Container
  | container type => some type
  | _ => none

/-- The type that an alias stands for, once it is resolved; nothing for all other types. -/
def aliased? : SchemaType → Option (Option TypeId)
  | declared { body := .typeAlias _ aliased, .. } => some aliased
  | _ => none

/-- The types that decide with a type whether it is pure: the terminal of a container, the type
behind an alias, the options of a union. -/
def purityReferences : SchemaType → List TypeId
  | container type => [type.terminal]
  | declared { body := .typeAlias _ aliased, .. } => aliased.toList
  | declared { body := .union options, .. } => options.filterMap UnionOption.type
  | _ => []

/-- Is the type one that carries no data by itself: a resolver or the primitive `None`? -/
def isImpure : SchemaType → Bool
  | primitive type => !type.isPure
  | declared { body := .resolver _, .. } => true
  | _ => false

/-- Is the type a struct? -/
def isStruct : SchemaType → Bool
  | declared { body := .struct _, .. } => true
  | _ => false

end SchemaType

/-- The type that an alias stands for, once it is resolved. -/
def DeclaredType.aliased? : DeclaredType → Option TypeId
  | { body := .typeAlias _ aliased, .. } => aliased
  | _ => none

/-- Is the type an alias? -/
def DeclaredType.isAlias : DeclaredType → Bool
  | { body := .typeAlias _ _, .. } => true
  | _ => false

/-- Is the type a struct? -/
def DeclaredType.isStruct : DeclaredType → Bool
  | { body := .struct _, .. } => true
  | _ => false

/-- The values of an enum. -/
def DeclaredType.values : DeclaredType → List EnumValue
  | { body := .enum values, .. } => values
  | _ => []

/-- The options of a union. -/
def DeclaredType.options : DeclaredType → List UnionOption
  | { body := .union options, .. } => options
  | _ => []

/-- The graph nodes of the fields or properties. -/
def DeclaredType.members : DeclaredType → List NodeId
  | { body := .struct fields, .. } => fields
  | { body := .resolver properties, .. } => properties
  | _ => []

end GraphSchema
