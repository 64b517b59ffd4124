import GraphSchema.Designation
import GraphSchema.Fragment.Basic

/-!
# Documents

A document is what a source text says once its tokens are put together: a header and declarations.
Every part keeps the tokens it is made of, so `tokens` gives back the row of tokens a part was read
from, and `fragment` shows the part as a tree over the source text.
-/

namespace GraphSchema

/-- The modifier that a token stands for. -/
def Modifier.ofKind? : TokenKind → Option Modifier
  | .questionMark => some optional
  | .listMarker => some list
  | _ => none

/-- A designation as it is written: the tokens of its modifiers and the name of a type. -/
structure TypeReference where
  modifiers : List Token
  terminal : Token
deriving DecidableEq, Repr, Inhabited

/-- A name followed by a type: a field of a struct or a parameter. -/
structure TypedName where
  name : Token
  type : TypeReference
deriving DecidableEq, Repr, Inhabited

/-- A list of parameters in parentheses. Every parameter is kept with the token that follows it, a
comma or the closing parenthesis. -/
structure ParameterListing where
  opening : Token
  entries : List (TypedName × Token)
deriving DecidableEq, Repr, Inhabited

/-- A name, parameters if there are any, and a type: a property of a resolver or an endpoint. -/
structure Signature where
  name : Token
  parameters : Option ParameterListing
  type : TypeReference
deriving DecidableEq, Repr, Inhabited

/-- The members of a declaration with braces. -/
inductive Body where
  | enum (values : List Token)
  | union (options : List TypeReference)
  | struct (fields : List TypedName)
  | resolver (properties : List Signature)
deriving DecidableEq, Repr, Inhabited

/-- The two kinds of endpoints. -/
inductive EndpointKind where
  | query
  | mutation
deriving DecidableEq, Repr, Inhabited

/-- A declaration. -/
inductive Declaration where
  | typeAlias (keyword name equals target : Token)
  | block (keyword name opening : Token) (body : Body) (closing : Token)
  | endpoint (kind : EndpointKind) (keyword : Token) (signature : Signature)
deriving DecidableEq, Repr, Inhabited

/-- The header of a document: the keyword `schema` and a name. -/
structure Header where
  keyword : Token
  name : Token
deriving DecidableEq, Repr, Inhabited

/-- A whole document. -/
structure Document where
  header : Header
  declarations : List Declaration
deriving DecidableEq, Repr, Inhabited

/-! ### Tokens -/

/-- The tokens of a designation. -/
def TypeReference.tokens (type : TypeReference) : List Token :=
  type.modifiers ++ [type.terminal]

/-- The tokens of a name with its type. -/
def TypedName.tokens (entry : TypedName) : List Token :=
  entry.name :: entry.type.tokens

/-- The tokens of a list of parameters. -/
def ParameterListing.tokens (listing : ParameterListing) : List Token :=
  listing.opening :: listing.entries.flatMap fun entry => entry.1.tokens ++ [entry.2]

/-- The tokens of a property or an endpoint after its keyword. -/
def Signature.tokens (signature : Signature) : List Token :=
  signature.name ::
    ((signature.parameters.map ParameterListing.tokens).getD [] ++ signature.type.tokens)

/-- The tokens between the braces. -/
def Body.tokens : Body → List Token
  | enum values => values
  | union options => options.flatMap TypeReference.tokens
  | struct fields => fields.flatMap TypedName.tokens
  | resolver properties => properties.flatMap Signature.tokens

/-- The tokens of a declaration. -/
def Declaration.tokens : Declaration → List Token
  | typeAlias keyword name equals target => [keyword, name, equals, target]
  | block keyword name opening body closing =>
    keyword :: name :: opening :: (body.tokens ++ [closing])
  | endpoint _ keyword signature => keyword :: signature.tokens

/-- The tokens of a header. -/
def Header.tokens (header : Header) : List Token :=
  [header.keyword, header.name]

/-- The tokens of a document. -/
def Document.tokens (document : Document) : List Token :=
  document.header.tokens ++ document.declarations.flatMap Declaration.tokens

/-! ### Meaning -/

/-- The designation that is written. -/
def TypeReference.designation (type : TypeReference) : Designation where
  modifiers := type.modifiers.filterMap fun token => Modifier.ofKind? token.kind
  terminal := type.terminal.text
  position := (type.modifiers.head?.getD type.terminal).start
  terminalPosition := type.terminal.start

/-- The parameters of a property or an endpoint. -/
def Signature.parameterList (signature : Signature) : List TypedName :=
  (signature.parameters.map fun listing => listing.entries.map Prod.fst).getD []

/-- The number of members between the braces. -/
def Body.size : Body → Nat
  | enum values => values.length
  | union options => options.length
  | struct fields => fields.length
  | resolver properties => properties.length

/-- The name of the type that is declared; an endpoint declares none. -/
def Declaration.typeName? : Declaration → Option Token
  | typeAlias _ name _ _ => some name
  | block _ name _ _ _ => some name
  | endpoint _ _ _ => none

/-- The name of the endpoint that is declared, if one is. -/
def Declaration.endpointName? : Declaration → Option Token
  | endpoint _ _ signature => some signature.name
  | _ => none

/-! ### Trees -/

/-- The construct made of the given parts; it has at least one. -/
def Fragment.made (kind : ConstructKind) (source : List Char) (first : Fragment)
    (others : List Fragment) : Fragment :=
  .close kind first.start source (first :: others)

/-- The tree of a designation. -/
def TypeReference.fragment (source : List Char) (type : TypeReference) : Fragment :=
  .close .typeDesignation type.terminal.start source (type.tokens.map .token)

/-- The tree of a name with its type. -/
def TypedName.fragment (kind : ConstructKind) (source : List Char) (entry : TypedName) : Fragment :=
  .made kind source (.token entry.name) [entry.type.fragment source]

/-- The tree of a list of parameters. -/
def ParameterListing.fragment (source : List Char) (listing : ParameterListing) : Fragment :=
  .made .parameterList source (.token listing.opening)
    (listing.entries.flatMap fun entry =>
      [entry.1.fragment .parameter source, .token entry.2])

/-- The trees of the parts of a property or an endpoint after its keyword. -/
def Signature.fragments (source : List Char) (signature : Signature) : List Fragment :=
  .token signature.name ::
    ((signature.parameters.map (ParameterListing.fragment source)).toList ++
      [signature.type.fragment source])

/-- The tree of a property of a resolver. -/
def Signature.fragment (source : List Char) (signature : Signature) : Fragment :=
  .close .resolverProperty signature.name.start source (signature.fragments source)

/-- The trees of the members between the braces. -/
def Body.fragments (source : List Char) : Body → List Fragment
  | enum values => values.map fun value => .made .enumValue source (.token value) []
  | union options => options.map (TypeReference.fragment source)
  | struct fields => fields.map (TypedName.fragment .structField source)
  | resolver properties => properties.map (Signature.fragment source)

/-- The kind of construct that the declaration of a body is. -/
def Body.kind : Body → ConstructKind
  | enum _ => .enumDeclaration
  | union _ => .unionDeclaration
  | struct _ => .structDeclaration
  | resolver _ => .resolverDeclaration

/-- The kind of construct that the declaration of an endpoint is. -/
def EndpointKind.constructKind : EndpointKind → ConstructKind
  | query => .queryDeclaration
  | mutation => .mutationDeclaration

/-- The tree of a declaration. -/
def Declaration.fragment (source : List Char) : Declaration → Fragment
  | typeAlias keyword name equals target =>
    .made .aliasDeclaration source (.token keyword) [.token name, .token equals, .token target]
  | block keyword name opening body closing =>
    .made body.kind source (.token keyword)
      (.token name :: .token opening :: (body.fragments source ++ [.token closing]))
  | endpoint kind keyword signature =>
    .made kind.constructKind source (.token keyword) (signature.fragments source)

/-- The tree of a header. -/
def Header.fragment (source : List Char) (header : Header) : Fragment :=
  .made .schemaHeader source (.token header.keyword) [.token header.name]

end GraphSchema
