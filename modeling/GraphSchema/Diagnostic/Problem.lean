import GraphSchema.Diagnostic.Basic
import GraphSchema.Token.LexError
import GraphSchema.Token.Kind

/-!
# Problems

What can be wrong with a schema, as causes: each problem carries the names and places it is about,
and from them follow its code, its message, its place and its notes. A cycle is given by its first
member and the others, so it always has a place.
-/

namespace GraphSchema

/-- A member of a cycle of aliases. -/
structure AliasMember where
  name : String
  position : Cursor
deriving DecidableEq, Repr, Inhabited

/-- A link of a cycle of structs: a struct and its field that leads to the next one. -/
structure StructLink where
  structName : String
  fieldName : String
  position : Cursor
deriving DecidableEq, Repr, Inhabited

/-- Something that is wrong with a schema. -/
inductive Problem where
  | unexpectedToken (expected found : String) (position : Cursor)
  | unexpectedEnd (expected : String) (position : Cursor)
  | illegalName (name : String) (rule : NamingRule) (position : Cursor)
  | lexical (error : LexError)
  | optionalChain (position : Cursor)
  | unsupported (keyword : Keyword) (position : Cursor)
  | typeRedeclared (name : String) (position : Cursor) (prior : Option Cursor)
  | typeUndefined (name : String) (position : Cursor)
  | aliasCycle (first : AliasMember) (others : List AliasMember)
  | enumEmpty (enumName : String) (position : Cursor)
  | valueRedeclared (enumName value : String) (position prior : Cursor)
  | unionTooSmall (unionName : String) (optionCount : Nat) (position : Cursor)
  | optionRepeated (unionName designation : String) (position prior : Cursor)
  | unionListsItself (unionName : String) (position : Cursor)
  | unionListsNone (unionName : String) (position : Cursor)
  | structEmpty (structName : String) (position : Cursor)
  | fieldRedeclared (structName fieldName : String) (position prior : Cursor)
  | fieldImpure (structName fieldName designation : String) (position : Cursor)
  | structCycle (first : StructLink) (others : List StructLink)
  | resolverEmpty (resolverName : String) (position : Cursor)
  | propertyRedeclared (resolverName propertyName : String) (position prior : Cursor)
  | endpointRedeclared (name : String) (position prior : Cursor)
  | parameterRedeclared (nodeName parameterName : String) (position prior : Cursor)
  | parameterImpure (nodeName parameterName designation : String) (position : Cursor)
  | noEndpoints (schemaName : String) (position : Cursor)
deriving DecidableEq, Repr, Inhabited

namespace Problem

/-- The code of a problem. -/
def code : Problem → ErrorCode
  | unexpectedToken .. | unexpectedEnd .. | illegalName .. | lexical _ => .syntaxError
  | optionalChain _ => .typeOptChain
  | unsupported .. => .unimplemented
  | typeRedeclared .. => .typeRedecl
  | typeUndefined .. => .typeUndef
  | aliasCycle .. => .aliasRecurs
  | enumEmpty .. => .enumNoVal
  | valueRedeclared .. => .enumValRedecl
  | unionTooSmall .. => .unionMissingOpts
  | optionRepeated .. => .unionRedund
  | unionListsItself .. => .unionRecurs
  | unionListsNone .. => .unionIncludesNone
  | structEmpty .. => .structNoFields
  | fieldRedeclared .. => .structFieldRedecl
  | fieldImpure .. => .structFieldImpure
  | structCycle .. => .structRecurs
  | resolverEmpty .. => .resolverNoProps
  | propertyRedeclared .. => .resolverPropRedecl
  | endpointRedeclared .. => .graphRootNodeRedecl
  | parameterRedeclared .. => .paramRedecl
  | parameterImpure .. => .paramImpure
  | noEndpoints .. => .noEndpoints

/-- Where a problem is. -/
def position : Problem → Cursor
  | lexical error => error.position
  | aliasCycle first _ => first.position
  | structCycle first _ => first.position
  | unexpectedToken _ _ position | unexpectedEnd _ position | illegalName _ _ position
  | optionalChain position | unsupported _ position | typeRedeclared _ position _
  | typeUndefined _ position | enumEmpty _ position | valueRedeclared _ _ position _
  | unionTooSmall _ _ position | optionRepeated _ _ position _ | unionListsItself _ position
  | unionListsNone _ position | structEmpty _ position | fieldRedeclared _ _ position _
  | fieldImpure _ _ _ position | resolverEmpty _ position | propertyRedeclared _ _ position _
  | endpointRedeclared _ position _ | parameterRedeclared _ _ position _
  | parameterImpure _ _ _ position | noEndpoints _ position => position

/-- A member of a cycle of aliases with its place. -/
def memberText (member : AliasMember) : String :=
  s!"`{member.name}` ({member.position})"

/-- A link of a cycle of structs with its place and an arrow to the next struct. -/
def linkText (link : StructLink) : String :=
  s!"{link.structName}.{link.fieldName} ({link.position}) -> "

/-- What a problem says. -/
def message : Problem → String
  | unexpectedToken expected found _ => s!"expected {expected}, found {found}"
  | unexpectedEnd expected _ => s!"expected {expected}, found end of input"
  | illegalName name rule _ =>
    s!"illegal {rule.description} `{name}`: must match `{rule.pattern}`"
  | lexical error => error.kind.message
  | optionalChain _ => "optional of optional (`??`) is not a valid type designation"
  | unsupported keyword _ => s!"`{keyword.text}` declarations are not implemented"
  | typeRedeclared name _ (some prior) => s!"type `{name}` is already declared at {prior}"
  | typeRedeclared name _ none => s!"type `{name}` is already declared as a built-in primitive"
  | typeUndefined name _ => s!"undefined type `{name}`"
  | aliasCycle first others =>
    "alias cycle: " ++ ", ".intercalate ((first :: others).map memberText)
  | enumEmpty enumName _ => s!"enum `{enumName}` has no values"
  | valueRedeclared enumName value _ prior =>
    s!"value `{value}` of enum `{enumName}` is already declared at {prior}"
  | unionTooSmall unionName optionCount _ =>
    s!"union `{unionName}` must have at least 2 options, found {optionCount}"
  | optionRepeated unionName designation _ prior =>
    s!"option `{designation}` of union `{unionName}` is already listed at {prior}"
  | unionListsItself unionName _ => s!"union `{unionName}` lists itself as an option"
  | unionListsNone unionName _ => s!"union `{unionName}` lists `None` as an option"
  | structEmpty structName _ => s!"struct `{structName}` has no fields"
  | fieldRedeclared structName fieldName _ prior =>
    s!"field `{fieldName}` of struct `{structName}` is already declared at {prior}"
  | fieldImpure structName fieldName designation _ =>
    s!"field `{structName}.{fieldName}` has impure type `{designation}`: " ++
    "struct fields must carry data only"
  | structCycle first others =>
    "struct cycle: " ++ String.join ((first :: others).map linkText) ++ first.structName
  | resolverEmpty resolverName _ => s!"resolver `{resolverName}` has no properties"
  | propertyRedeclared resolverName propertyName _ prior =>
    s!"property `{propertyName}` of resolver `{resolverName}` is already declared at {prior}"
  | endpointRedeclared name _ prior => s!"root node `{name}` is already declared at {prior}"
  | parameterRedeclared nodeName parameterName _ prior =>
    s!"parameter `{parameterName}` of `{nodeName}` is already declared at {prior}"
  | parameterImpure nodeName parameterName designation _ =>
    s!"parameter `{parameterName}` of `{nodeName}` has impure type `{designation}`: " ++
    "parameters must carry data only"
  | noEndpoints schemaName _ =>
    s!"schema `{schemaName}` declares no query or mutation endpoints"

/-- The other places a problem is about, and remarks on it. -/
def notes : Problem → List Note
  | typeRedeclared name _ none => [⟨s!"`{name}` is a built-in primitive type", none⟩]
  | typeRedeclared _ _ (some prior) | valueRedeclared _ _ _ prior | fieldRedeclared _ _ _ prior
  | propertyRedeclared _ _ _ prior | endpointRedeclared _ _ prior
  | parameterRedeclared _ _ _ prior => [⟨"previously declared here", some prior⟩]
  | optionRepeated _ _ _ prior => [⟨"first listed here", some prior⟩]
  | aliasCycle _ others =>
    others.map fun member => ⟨s!"`{member.name}` is part of the cycle", some member.position⟩
  | structCycle _ others =>
    others.map fun link =>
      ⟨s!"`{link.structName}.{link.fieldName}` continues the cycle", some link.position⟩
  | unsupported _ _ =>
    [⟨"supported declarations are alias, enum, union, struct, resolver, query and mutation", none⟩]
  | _ => []

/-- The diagnostic that reports a problem. -/
def diagnostic (problem : Problem) : Diagnostic :=
  ⟨problem.code, problem.message, problem.position, problem.notes⟩

end Problem

/-- The sorted diagnostics of a list of problems. -/
def Diagnostic.ofProblems (problems : List Problem) : List Diagnostic :=
  Diagnostic.sorted (problems.map Problem.diagnostic)

end GraphSchema
