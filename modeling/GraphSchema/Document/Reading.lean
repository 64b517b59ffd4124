import GraphSchema.Diagnostic.Problem
import GraphSchema.Document.Basic
import GraphSchema.Token.Lexer

/-!
# Reading a document

A document is read token by token. `Reading` holds what has been read: the header, the finished
declarations and the declaration that is still open. `Reading.step` takes one token; it gives
nothing for a token that no document could continue with. What could have come instead is the
`Expectation` of the reading, from which the problem that is reported follows.

The language needs no stack: a declaration has members, a member may have parameters, and both have
designations, which are rows of tokens. So each state lists the parts of the open declaration, the
innermost last, and every token is looked at once.
-/

namespace GraphSchema

/-- What may come next in a document. -/
inductive Expectation where
  | kind (kind : TokenKind)
  | name (rule : NamingRule)
  | declaration
  | designation (afterOptional : Bool)
  | separator
deriving DecidableEq, Repr, Inhabited

namespace Expectation

/-- How the expectation is named in a message. -/
def text : Expectation → String
  | kind expected => expected.describe
  | name rule => rule.description
  | declaration => "a declaration"
  | designation _ => "a type designation"
  | separator => "`,` or `)`"

/-- The problem with a token that is not what was expected. A word that has the wrong shape for a
name is an illegal name, a second `?` in a row makes an optional of an optional, and two keywords
are reserved for declarations that do not exist yet. -/
def refusal (expectation : Expectation) (token : Token) : Problem :=
  let unexpected := Problem.unexpectedToken expectation.text token.describe token.start
  match expectation, token.kind with
  | name rule, found => if found.isWord then .illegalName token.text rule token.start else unexpected
  | designation true, .questionMark => .optionalChain token.start
  | designation _, found =>
    if found.isWord then .illegalName token.text .typeName token.start else unexpected
  | declaration, .keyword .trait => .unsupported .trait token.start
  | declaration, .keyword .subscription => .unsupported .subscription token.start
  | _, _ => unexpected

end Expectation

/-- What a token makes of something open: still open, or finished. -/
inductive Progress (σ α : Type) where
  | more (state : σ)
  | done (value : α)
deriving Repr, Inhabited

/-- Applies a function to the open and one to the finished case. -/
def Progress.map {σ τ α β : Type} (f : σ → τ) (g : α → β) : Progress σ α → Progress τ β
  | more state => .more (f state)
  | done value => .done (g value)

/-! ### Designations -/

/-- Is the last of the modifiers a `?`? -/
def endsOptional (modifiers : List Token) : Bool :=
  (modifiers.getLast?.map Token.kind) == some .questionMark

/-- What may follow the modifiers of a designation. -/
def TypeReference.expectation (modifiers : List Token) : Expectation :=
  .designation (endsOptional modifiers)

/-- Takes a token after the modifiers of a designation. -/
def TypeReference.step (modifiers : List Token) (token : Token) :
    Option (Progress (List Token) TypeReference) :=
  match token.kind with
  | .questionMark =>
    if endsOptional modifiers then none else some (.more (modifiers ++ [token]))
  | .listMarker => some (.more (modifiers ++ [token]))
  | .typeName => some (.done ⟨modifiers, token⟩)
  | _ => none

/-! ### Parameters -/

/-- The place inside a list of parameters. -/
inductive ParameterStage where
  | name
  | type (name : Token) (modifiers : List Token)
  | separator (parameter : TypedName)
deriving DecidableEq, Repr, Inhabited

/-- A list of parameters that is still open. -/
structure OpenParameters where
  opening : Token
  entries : List (TypedName × Token)
  stage : ParameterStage
deriving DecidableEq, Repr, Inhabited

namespace OpenParameters

/-- What may come next in a list of parameters. -/
def expectation (listing : OpenParameters) : Expectation :=
  match listing.stage with
  | .name => .name .lowerCamelCase
  | .type _ modifiers => TypeReference.expectation modifiers
  | .separator _ => .separator

/-- Takes a token in a list of parameters. -/
def step (listing : OpenParameters) (token : Token) :
    Option (Progress OpenParameters ParameterListing) :=
  match listing.stage with
  | .name =>
    if token.isLowerName then some (.more { listing with stage := .type token [] }) else none
  | .type name modifiers =>
    (TypeReference.step modifiers token).map fun
      | .more modifiers => .more { listing with stage := .type name modifiers }
      | .done type => .more { listing with stage := .separator ⟨name, type⟩ }
  | .separator parameter =>
    let entries := listing.entries ++ [(parameter, token)]
    match token.kind with
    | .comma => some (.more { listing with entries, stage := .name })
    | .parenClose => some (.done ⟨listing.opening, entries⟩)
    | _ => none

/-- The names of the parameters whose types are complete. -/
def names (listing : OpenParameters) : List Token :=
  listing.entries.map (fun entry => entry.1.name) ++
    match listing.stage with
    | .separator parameter => [parameter.name]
    | _ => []

end OpenParameters

/-! ### Properties and endpoints -/

/-- A property or an endpoint whose name has been read and whose type has not. -/
inductive OpenSignature where
  | named (name : Token)
  | parameters (name : Token) (listing : OpenParameters)
  | typed (name : Token) (parameters : Option ParameterListing) (modifiers : List Token)
deriving DecidableEq, Repr, Inhabited

namespace OpenSignature

/-- What may come next in a property or an endpoint. -/
def expectation : OpenSignature → Expectation
  | named _ => TypeReference.expectation []
  | parameters _ listing => listing.expectation
  | typed _ _ modifiers => TypeReference.expectation modifiers

/-- Takes a token of the type. -/
def typeStep (name : Token) (listing : Option ParameterListing) (modifiers : List Token)
    (token : Token) : Option (Progress OpenSignature Signature) :=
  (TypeReference.step modifiers token).map
    (Progress.map (typed name listing) fun type => ⟨name, listing, type⟩)

/-- Takes a token in a property or an endpoint. -/
def step (signature : OpenSignature) (token : Token) :
    Option (Progress OpenSignature Signature) :=
  match signature with
  | named name =>
    if token.kind = .parenOpen then some (.more (.parameters name ⟨token, [], .name⟩))
    else typeStep name none [] token
  | parameters name listing =>
    (listing.step token).map fun
      | .more listing => .more (.parameters name listing)
      | .done listing => .more (.typed name (some listing) [])
  | typed name listing modifiers => typeStep name listing modifiers token

/-- The name. -/
def name : OpenSignature → Token
  | named name | parameters name _ | typed name _ _ => name

/-- The names of the parameters whose types are complete. -/
def parameterNames : OpenSignature → List Token
  | named _ | typed _ none _ => []
  | parameters _ listing => listing.names
  | typed _ (some listing) _ => listing.entries.map fun entry => entry.1.name

end OpenSignature

/-! ### Members -/

/-- The kinds of declarations with braces. -/
inductive BlockKind where
  | enum
  | union
  | struct
  | resolver
deriving DecidableEq, Repr, Inhabited

/-- Members of which the last one may still be open. -/
inductive OpenBody where
  | enum (values : List Token)
  | union (options : List TypeReference) (modifiers : List Token)
  | struct (fields : List TypedName) (pending : Option (Token × List Token))
  | resolver (properties : List Signature) (pending : Option OpenSignature)
deriving DecidableEq, Repr, Inhabited

namespace OpenBody

/-- No members yet. -/
def empty : BlockKind → OpenBody
  | .enum => enum []
  | .union => union [] []
  | .struct => struct [] none
  | .resolver => resolver [] none

/-- What may come next between the braces, besides the closing one. -/
def expectation : OpenBody → Expectation
  | enum _ | struct _ none | resolver _ none => .name .lowerCamelCase
  | union _ modifiers | struct _ (some (_, modifiers)) => TypeReference.expectation modifiers
  | resolver _ (some signature) => signature.expectation

/-- Takes a token between the braces; between two members, the closing brace ends them. -/
def step (body : OpenBody) (token : Token) : Option (Progress OpenBody Body) :=
  match body with
  | enum values =>
    if token.kind = .braceClose then some (.done (.enum values))
    else if token.isLowerName then some (.more (.enum (values ++ [token])))
    else none
  | union options modifiers =>
    if token.kind = .braceClose ∧ modifiers = [] then some (.done (.union options))
    else (TypeReference.step modifiers token).map fun
      | .more modifiers => .more (.union options modifiers)
      | .done type => .more (.union (options ++ [type]) [])
  | struct fields none =>
    if token.kind = .braceClose then some (.done (.struct fields))
    else if token.isLowerName then some (.more (.struct fields (some (token, []))))
    else none
  | struct fields (some (name, modifiers)) =>
    (TypeReference.step modifiers token).map fun
      | .more modifiers => .more (.struct fields (some (name, modifiers)))
      | .done type => .more (.struct (fields ++ [⟨name, type⟩]) none)
  | resolver properties none =>
    if token.kind = .braceClose then some (.done (.resolver properties))
    else if token.isLowerName then some (.more (.resolver properties (some (.named token))))
    else none
  | resolver properties (some signature) =>
    (signature.step token).map fun
      | .more signature => .more (.resolver properties (some signature))
      | .done property => .more (.resolver (properties ++ [property]) none)

end OpenBody

/-! ### Declarations -/

/-- A declaration that is still open. -/
inductive OpenDeclaration where
  | aliasName (keyword : Token)
  | aliasEquals (keyword name : Token)
  | aliasTarget (keyword name equals : Token)
  | blockName (kind : BlockKind) (keyword : Token)
  | blockBrace (kind : BlockKind) (keyword name : Token)
  | blockBody (keyword name opening : Token) (body : OpenBody)
  | endpointName (kind : EndpointKind) (keyword : Token)
  | endpoint (kind : EndpointKind) (keyword : Token) (signature : OpenSignature)
deriving DecidableEq, Repr, Inhabited

namespace OpenDeclaration

/-- The declaration that a keyword opens. -/
def opened? (token : Token) : Option OpenDeclaration :=
  match token.kind with
  | .keyword .typeAlias => some (aliasName token)
  | .keyword .enum => some (blockName .enum token)
  | .keyword .union => some (blockName .union token)
  | .keyword .struct => some (blockName .struct token)
  | .keyword .resolver => some (blockName .resolver token)
  | .keyword .query => some (endpointName .query token)
  | .keyword .mutation => some (endpointName .mutation token)
  | _ => none

/-- What may come next in a declaration. -/
def expectation : OpenDeclaration → Expectation
  | aliasName _ | aliasTarget _ _ _ | blockName _ _ => .name .typeName
  | aliasEquals _ _ => .kind .equals
  | blockBrace _ _ _ => .kind .braceOpen
  | blockBody _ _ _ body => body.expectation
  | endpointName _ _ => .name .lowerCamelCase
  | endpoint _ _ signature => signature.expectation

/-- Takes a token in a declaration. -/
def step (declaration : OpenDeclaration) (token : Token) :
    Option (Progress OpenDeclaration Declaration) :=
  match declaration with
  | aliasName keyword =>
    if token.kind = .typeName then some (.more (.aliasEquals keyword token)) else none
  | aliasEquals keyword name =>
    if token.kind = .equals then some (.more (.aliasTarget keyword name token)) else none
  | aliasTarget keyword name equals =>
    if token.kind = .typeName then some (.done (.typeAlias keyword name equals token)) else none
  | blockName kind keyword =>
    if token.kind = .typeName then some (.more (.blockBrace kind keyword token)) else none
  | blockBrace kind keyword name =>
    if token.kind = .braceOpen then some (.more (.blockBody keyword name token (.empty kind)))
    else none
  | blockBody keyword name opening body =>
    (body.step token).map
      (Progress.map (blockBody keyword name opening) fun body =>
        .block keyword name opening body token)
  | endpointName kind keyword =>
    if token.isLowerName then some (.more (.endpoint kind keyword (.named token))) else none
  | endpoint kind keyword signature =>
    (signature.step token).map
      (Progress.map (endpoint kind keyword) fun signature => .endpoint kind keyword signature)

end OpenDeclaration

/-! ### Documents -/

/-- What has been read of a document. -/
inductive Reading where
  | start
  | headed (keyword : Token)
  | body (header : Header) (declarations : List Declaration) (pending : Option OpenDeclaration)
deriving DecidableEq, Repr, Inhabited

namespace Reading

/-- What may come next in a document, besides its end. -/
def expectation : Reading → Expectation
  | start => .kind (.keyword .schema)
  | headed _ => .name .lowerCamelCase
  | body _ _ none => .declaration
  | body _ _ (some declaration) => declaration.expectation

/-- Takes the next token of a document. -/
def step (reading : Reading) (token : Token) : Option Reading :=
  match reading with
  | start => if token.kind = .keyword .schema then some (headed token) else none
  | headed keyword => if token.isLowerName then some (body ⟨keyword, token⟩ [] none) else none
  | body header declarations none =>
    (OpenDeclaration.opened? token).map fun opened => body header declarations (some opened)
  | body header declarations (some opened) =>
    (opened.step token).map fun
      | .more opened => body header declarations (some opened)
      | .done declaration => body header (declarations ++ [declaration]) none

/-- The document that has been read, if the tokens may end here. -/
def document? : Reading → Option Document
  | body header declarations none => some ⟨header, declarations⟩
  | _ => none

/-- The header, once it is complete. -/
def header? : Reading → Option Header
  | body header _ _ => some header
  | _ => none

/-- The declarations that are complete. -/
def declarations : Reading → List Declaration
  | body _ declarations _ => declarations
  | _ => []

/-- The declaration that is still open. -/
def pending? : Reading → Option OpenDeclaration
  | body _ _ pending => pending
  | _ => none

/-- The problem with tokens that end here. -/
def endProblem? (reading : Reading) : TokenStream.Ending → Option Problem
  | .error failure => some (.lexical failure)
  | .endOfInput position =>
    match reading.document? with
    | some _ => none
    | none => some (.unexpectedEnd reading.expectation.text position)

/-- Reads tokens up to their end or to the first one that cannot be taken: what has been read, and
the problem that stopped the reading. -/
def run (reading : Reading) (ending : TokenStream.Ending) : List Token → Reading × Option Problem
  | [] => (reading, reading.endProblem? ending)
  | token :: rest =>
    match reading.step token with
    | some next => next.run ending rest
    | none => (reading, some (reading.expectation.refusal token))

/-- Reads the tokens of a source text from their start. -/
def ofStream (stream : TokenStream) : Reading × Option Problem :=
  run start stream.ending stream.tokens

/-- The tree of what is complete: the header and the declarations. -/
def fragment (file : Path) (source : List Char) (reading : Reading) : Fragment :=
  .close .document (.startOf file) source
    ((reading.header?.map (Header.fragment source)).toList ++
      reading.declarations.map (Declaration.fragment source))

end Reading

end GraphSchema
