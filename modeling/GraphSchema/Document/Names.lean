import GraphSchema.Distinct
import GraphSchema.Document.Reading
import GraphSchema.Types.Primitive

/-!
# The names of declarations

A declaration introduces names in namespaces: type names for the whole document, endpoint names for
queries and mutations together, values, fields and properties for one declaration, parameters for
one list. In each namespace the first use of a name counts and every later one is a problem; the
options of a union are handled alike by their designations. Names are introduced as they are read,
so a declaration that is still open when the reading stops has introduced those that came before.
-/

namespace GraphSchema

/-- The names that a declaration has introduced. -/
inductive DeclaredNames where
  | nothing
  | typeAlias (name : Token)
  | enum (name : Token) (values : List Token)
  | union (name : Token) (options : List Designation)
  | struct (name : Token) (fields : List Token)
  | resolver (name : Token) (properties : List (Token × List Token))
  | endpoint (name : Token) (parameters : List Token)
deriving DecidableEq, Repr, Inhabited

/-- The name of a property and the names of its parameters. -/
def Signature.names (signature : Signature) : Token × List Token :=
  (signature.name, signature.parameterList.map TypedName.name)

/-- The names that a property which is still open has introduced. -/
def OpenSignature.names (signature : OpenSignature) : Token × List Token :=
  (signature.name, signature.parameterNames)

/-- The names of a declaration with braces. -/
def Body.names (name : Token) : Body → DeclaredNames
  | enum values => .enum name values
  | union options => .union name (options.map TypeReference.designation)
  | struct fields => .struct name (fields.map TypedName.name)
  | resolver properties => .resolver name (properties.map Signature.names)

/-- The names of a declaration whose members are still being read. -/
def OpenBody.names (name : Token) : OpenBody → DeclaredNames
  | enum values => .enum name values
  | union options _ => .union name (options.map TypeReference.designation)
  | struct fields _ => .struct name (fields.map TypedName.name)
  | resolver properties pending =>
    .resolver name (properties.map Signature.names ++ (pending.map OpenSignature.names).toList)

/-- The names of a declaration. -/
def Declaration.names : Declaration → DeclaredNames
  | typeAlias _ name _ _ => .typeAlias name
  | block _ name _ body _ => body.names name
  | endpoint _ _ signature => .endpoint signature.names.1 signature.names.2

/-- The names that an open declaration has introduced. An alias introduces its name only when it is
complete, any other declaration as soon as the name is read. -/
def OpenDeclaration.names : OpenDeclaration → DeclaredNames
  | aliasName _ | aliasEquals _ _ | aliasTarget _ _ _ | blockName _ _ | endpointName _ _ => .nothing
  | blockBrace kind _ name => (OpenBody.empty kind).names name
  | blockBody _ name _ body => body.names name
  | endpoint _ _ signature => .endpoint signature.names.1 signature.names.2

namespace DeclaredNames

/-- The type name that is introduced. -/
def typeName? : DeclaredNames → Option Token
  | typeAlias name | enum name _ | union name _ | struct name _ | resolver name _ => some name
  | nothing | endpoint _ _ => none

/-- The endpoint name that is introduced. -/
def endpointName? : DeclaredNames → Option Token
  | endpoint name _ => some name
  | _ => none

/-- The repeated parameters of one list. -/
def parameterProblems (nodeName : String) (parameters : List Token) : List Problem :=
  (repeats Token.text parameters).map fun (first, again) =>
    .parameterRedeclared nodeName again.text again.start first.start

/-- What is repeated inside one declaration. -/
def memberProblems : DeclaredNames → List Problem
  | nothing | typeAlias _ => []
  | enum name values =>
    (repeats Token.text values).map fun (first, again) =>
      .valueRedeclared name.text again.text again.start first.start
  | union name options =>
    (repeats Designation.canonical options).map fun (first, again) =>
      .optionRepeated name.text again.canonical again.position first.position
  | struct name fields =>
    (repeats Token.text fields).map fun (first, again) =>
      .fieldRedeclared name.text again.text again.start first.start
  | resolver name properties =>
    ((repeats (fun property => property.1.text) properties).map fun (first, again) =>
      .propertyRedeclared name.text again.1.text again.1.start first.1.start) ++
    properties.flatMap fun property =>
      parameterProblems (name.text ++ "." ++ property.1.text) property.2
  | endpoint name parameters => parameterProblems name.text parameters

/-- The type names that are primitive or were introduced before. -/
def typeProblems (names : List Token) : List Problem :=
  let (primitive, others) := names.partition fun name => (Primitive.ofName? name.text).isSome
  (primitive.map fun name => .typeRedeclared name.text name.start none) ++
  (repeats Token.text others).map fun (first, again) =>
    .typeRedeclared again.text again.start (some first.start)

/-- The endpoint names that were introduced before. -/
def endpointProblems (names : List Token) : List Problem :=
  (repeats Token.text names).map fun (first, again) =>
    .endpointRedeclared again.text again.start first.start

/-- Every name that is used again in its namespace. -/
def problems (names : List DeclaredNames) : List Problem :=
  typeProblems (names.filterMap typeName?) ++
  endpointProblems (names.filterMap endpointName?) ++
  names.flatMap memberProblems

end DeclaredNames

/-- What a complete declaration has too few of. -/
def Declaration.shortages : Declaration → List Problem
  | block _ name _ (.enum []) _ => [.enumEmpty name.text name.start]
  | block _ name _ (.union options) _ =>
    if options.length < 2 then [.unionTooSmall name.text options.length name.start] else []
  | block _ name _ (.struct []) _ => [.structEmpty name.text name.start]
  | block _ name _ (.resolver []) _ => [.resolverEmpty name.text name.start]
  | _ => []

/-- The names of what has been read, declaration by declaration. -/
def Reading.names (reading : Reading) : List DeclaredNames :=
  reading.declarations.map Declaration.names ++
    (reading.pending?.map OpenDeclaration.names).toList

/-- The problems that show while a document is read: repeated names and shortages. -/
def Reading.problems (reading : Reading) : List Problem :=
  DeclaredNames.problems reading.names ++ reading.declarations.flatMap Declaration.shortages

end GraphSchema
