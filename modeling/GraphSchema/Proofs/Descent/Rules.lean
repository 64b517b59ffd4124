import GraphSchema.Proofs.Descent.Upcoming
import GraphSchema.Proofs.Grammar.Consumed

/-!
# Reading by descent

The rules of the grammar as programs that ask a lexer for tokens, rule by rule and with loops.
Nothing bounds a loop (`Rule.loop`): it takes turns until one of them ends it, and if none does, the
program gives nothing.

There are four loops, over the declarations of a document (`Rule.documentTurn`), the members of a
declaration with braces (`Rule.memberTurn`), the parameters of a list (`Rule.parameterTurn`) and the
tokens of a designation (`Rule.designationTurn`).  Members end where the lookahead is a closing
brace.  At the end of the input it is none, so another member is tried there.
-/

namespace GraphSchema

/-- A program that asks a lexer for tokens.  It gives a value or a problem, and the lexer after it,
or it does not come to an end. -/
abbrev Rule (α : Type) : Type :=
  ExceptT Problem (StateT Lexer Option) α

namespace Rule

variable {σ α : Type}

noncomputable section

/-- Asks for the next token. -/
def nextToken : Rule (Option Token) :=
  Lexer.nextToken

/-- Looks at the next token. -/
def peek : Rule (Option Token) :=
  Lexer.peek

/-- Is the next token of a kind? -/
def peekIs (kind : TokenKind) : Rule Bool :=
  return (← peek).any (·.kind = kind)

/-- Takes a token that a step takes. -/
def take (expectation : Expectation) (step : Token → Option α) : Rule α := do
  match ← nextToken with
  -- the place of the problem is found by a copy that runs to the end
  | none => throw (.unexpectedEnd expectation.text (← get).endCursor)
  | some token =>
    match step token with
    | some value => return value
    | none => throw (expectation.refusal token)

/-- Takes a token of a kind. -/
def expect (kind : TokenKind) : Rule Token :=
  take (.kind kind) fun token => if token.kind = kind then some token else none

/-- Takes the name of a type. -/
def typeName : Rule Token :=
  take (.name .typeName) fun token => if token.kind = .typeName then some token else none

/-- Takes a name in lower camel case. -/
def lowerName : Rule Token :=
  take (.name .lowerCamelCase) fun token => if token.isLowerName then some token else none

/-- A turn of a loop, from a state and a lexer.  A problem ends the loop. -/
def turnAt (turn : σ → Rule (Progress σ α)) :
    σ × Lexer → Option (Progress (σ × Lexer) (Except Problem α × Lexer))
  | (state, lexer) => (turn state lexer).map fun
    | (.ok (.more next), rest) => .more (next, rest)
    | (.ok (.done value), rest) => .done (.ok value, rest)
    | (.error problem, rest) => .done (.error problem, rest)

/-- Takes turns until one of them ends. -/
def loop (turn : σ → Rule (Progress σ α)) (state : σ) : Rule α :=
  fun lexer => repeated (turnAt turn) (state, lexer)

/-! ### Designations and parameters -/

/-- A modifier, or the name that ends the designation. -/
def designationTurn (modifiers : List Token) : Rule (Progress (List Token) TypeReference) :=
  take (TypeReference.expectation modifiers) (TypeReference.step modifiers)

/-- A designation. -/
def designation : Rule TypeReference :=
  loop designationTurn []

/-- A name with a designation. -/
def typed : Rule TypedName :=
  return ⟨← lowerName, ← designation⟩

/-- The parameters so far and one more, with the token that follows it. -/
def separated (entries : List (TypedName × Token)) (parameter : TypedName) (token : Token) :
    Option (Progress (List (TypedName × Token)) (List (TypedName × Token))) :=
  match token.kind with
  | .comma => some (.more (entries ++ [(parameter, token)]))
  | .parenClose => some (.done (entries ++ [(parameter, token)]))
  | _ => none

/-- A parameter, and a comma or the parenthesis that ends the list. -/
def parameterTurn (entries : List (TypedName × Token)) :
    Rule (Progress (List (TypedName × Token)) (List (TypedName × Token))) := do
  take .separator (separated entries (← typed))

/-- A list of parameters. -/
def parameterList : Rule ParameterListing :=
  return ⟨← expect .parenOpen, ← loop parameterTurn []⟩

/-- A property or an endpoint. -/
def signature : Rule Signature := do
  let name ← lowerName
  if ← peekIs .parenOpen then
    return ⟨name, some (← parameterList), ← designation⟩
  else
    return ⟨name, none, ← designation⟩

/-! ### Declarations -/

/-- The members so far and one more. -/
def member : Body → Rule Body
  | .enum values => return .enum (values ++ [← lowerName])
  | .union options => return .union (options ++ [← designation])
  | .struct fields => return .struct (fields ++ [← typed])
  | .resolver properties => return .resolver (properties ++ [← signature])

/-- Another member, unless the next token is the closing brace. -/
def memberTurn (body : Body) : Rule (Progress Body Body) := do
  -- at the end of the input the next token is no brace, so there a member is missing
  if ← peekIs .braceClose then return .done body else return .more (← member body)

/-- No members yet. -/
def emptyBody : BlockKind → Body
  | .enum => .enum []
  | .union => .union []
  | .struct => .struct []
  | .resolver => .resolver []

/-- The declaration of an alias. -/
def typeAlias : Rule Declaration :=
  return .typeAlias (← expect (.keyword .typeAlias)) (← typeName) (← expect .equals) (← typeName)

/-- A declaration with members in braces. -/
def block (kind : BlockKind) : Rule Declaration :=
  return .block (← expect (.keyword kind.keyword)) (← typeName) (← expect .braceOpen)
    (← loop memberTurn (emptyBody kind)) (← expect .braceClose)

/-- The declaration of an endpoint. -/
def endpoint (kind : EndpointKind) : Rule Declaration :=
  return .endpoint kind (← expect (.keyword kind.keyword)) (← signature)

/-- The declaration that begins with a token, which has not been taken yet. -/
def declaration (token : Token) : Rule Declaration :=
  match token.kind with
  | .keyword .typeAlias => typeAlias
  | .keyword .enum => block .enum
  | .keyword .union => block .union
  | .keyword .struct => block .struct
  | .keyword .resolver => block .resolver
  | .keyword .query => endpoint .query
  | .keyword .mutation => endpoint .mutation
  | _ => throw (Expectation.declaration.refusal token)

/-- Another declaration, unless there is no next token. -/
def documentTurn (declarations : List Declaration) :
    Rule (Progress (List Declaration) (List Declaration)) := do
  match ← peek with
  | none => return .done declarations
  | some token => return .more (declarations ++ [← declaration token])

/-- The header of a document. -/
def header : Rule Header :=
  return ⟨← expect (.keyword .schema), ← lowerName⟩

/-- A whole document. -/
def document : Rule Document :=
  return ⟨← header, ← loop documentTurn []⟩

end

end Rule

end GraphSchema
