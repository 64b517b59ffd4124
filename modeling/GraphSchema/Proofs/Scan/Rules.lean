import GraphSchema.Proofs.Descent.Rules
import GraphSchema.Proofs.Scan.Catalogs

/-!
# Scanning

The rules of the descent as programs that register what they read while they read it.  A rule that
declares a name claims it as soon as it has read it, and records a problem if it was claimed before.
From there on it reads what is left of its part all the same, but registers nothing for it: a rule
goes on with the number of the type or of the graph node that it has registered, or with none, and
what belongs to none is neither numbered nor queued.

The four declarations with braces are one program (`Scan.block`) with four rules for their members.
-/

namespace GraphSchema

/-- A program that asks for tokens and registers what it reads.  It gives a value or a problem, and
the scanner after it, or it does not come to an end. -/
abbrev Scan (α : Type) : Type :=
  ExceptT Problem (StateT Scanner Option) α

/-- The members of a declaration that have been read, the names that they have claimed, and what
was made of those that were admitted. -/
structure Members (ε μ : Type) where
  entries : List ε
  scope : NameScope
  admitted : List μ

namespace Members

variable {ε μ : Type}

/-- No members yet. -/
def none : Members ε μ := ⟨[], [], []⟩

/-- One member more, which may have been admitted. -/
def add (members : Members ε μ) (entry : ε) (scope : NameScope) (new? : Option μ) : Members ε μ :=
  ⟨members.entries ++ [entry], scope, members.admitted ++ new?.toList⟩

end Members

namespace Scan

variable {σ α ε μ : Type}

noncomputable section

/-- Reads by a rule that registers nothing. -/
def asks (rule : Rule α) : Scan α :=
  fun scanner => (rule scanner.lexer).map fun (outcome, rest) =>
    (outcome, { scanner with lexer := rest })

/-- A turn of a loop, from a state and a scanner.  A problem ends the loop. -/
def turnAt (turn : σ → Scan (Progress σ α)) :
    σ × Scanner → Option (Progress (σ × Scanner) (Except Problem α × Scanner))
  | (state, scanner) => (turn state scanner).map fun
    | (.ok (.more next), after) => .more (next, after)
    | (.ok (.done value), after) => .done (.ok value, after)
    | (.error problem, after) => .done (.error problem, after)

/-- Takes turns until one of them ends. -/
def loop (turn : σ → Scan (Progress σ α)) (state : σ) : Scan α :=
  fun scanner => repeated (turnAt turn) (state, scanner)

/-! ### Registering -/

/-- Records a problem. -/
def report (problem : Problem) : Scan Unit :=
  modify fun scanner => { scanner with problems := scanner.problems ++ [problem] }

/-- Queues a job, if there is one. -/
def queue (job? : Option QueuedJob) : Scan Unit :=
  modify fun scanner => { scanner with jobs := scanner.jobs ++ job?.toList }

/-- Registers a type, unless its name is taken. -/
def declare (name : Token) (body : TypeBody) : Scan (Option TypeId) := do
  match (← get).types.declare name body with
  | .ok (types, id) =>
    modify fun scanner => { scanner with types }
    return some id
  | .error problem =>
    report problem
    return none

/-- Sets what a declared type consists of, if it was registered. -/
def complete (declared : Option TypeId) (body : TypeBody) : Scan Unit :=
  match declared with
  | some id => modify fun scanner => { scanner with types := scanner.types.setBody id body }
  | none => return ()

/-- Registers a graph node. -/
def addNode (kind : NodeKind) (owner : String) (name : Token) : Scan NodeId :=
  modifyGet fun scanner =>
    let (graph, id) := scanner.graph.addNode kind owner name
    (id, { scanner with graph })

/-- Registers a parameter. -/
def addParameter (target : NodeId) (name : Token) : Scan ParameterId :=
  modifyGet fun scanner =>
    let (graph, id) := scanner.graph.addParameter target name
    (id, { scanner with graph })

/-- Claims a name in a scope.  What it stands for is accepted if the name was not claimed before. -/
def enter (scope : NameScope) (name : String) (position : Cursor) (again : Cursor → Problem)
    (accept : Scan (Option μ)) : Scan (NameScope × Option μ) := do
  match scope.claim name position with
  | .ok claimed => return (claimed, ← accept)
  | .error prior =>
    report (again prior)
    return (scope, none)

/-! ### Parameters and signatures -/

/-- Registers a parameter and queues the job of its type, if its graph node was registered. -/
def parameterOf (target : Option NodeId) (parameter : TypedName) : Scan (Option ParameterId) := do
  match target with
  | some node =>
    let id ← addParameter node parameter.name
    queue (some (.parameter id parameter.type.designation))
    return some id
  | none => return none

/-- A parameter, and a comma or the parenthesis that ends the list. -/
def parameterTurn (target : Option NodeId) (nodeName : String)
    (state : NameScope × List (TypedName × Token)) :
    Scan (Progress (NameScope × List (TypedName × Token)) (List (TypedName × Token))) := do
  let parameter ← asks Rule.typed
  let (scope, _) ← enter state.1 parameter.name.text parameter.name.start
    (.parameterRedeclared nodeName parameter.name.text parameter.name.start)
    (parameterOf target parameter)
  let progress ← asks (Rule.take .separator (Rule.separated state.2 parameter))
  return progress.map (fun entries => (scope, entries)) id

/-- A list of parameters. -/
def parameterList (target : Option NodeId) (nodeName : String) : Scan ParameterListing := do
  let opening ← asks (Rule.expect .parenOpen)
  let entries ← loop (parameterTurn target nodeName) ([], [])
  return ⟨opening, entries⟩

/-- The type of a property or an endpoint. -/
def typeOf (name : Token) (node : Option NodeId) (parameters : Option ParameterListing) :
    Scan Signature := do
  let type ← asks Rule.designation
  queue (node.map fun id => .node id type.designation)
  return ⟨name, parameters, type⟩

/-- A property or an endpoint after its name. -/
def signature (name : Token) (node : Option NodeId) (nodeName : String) : Scan Signature := do
  if ← asks (Rule.peekIs .parenOpen) then
    let parameters ← parameterList node nodeName
    typeOf name node (some parameters)
  else typeOf name node none

/-! ### Members -/

/-- Registers the graph node of a member, if the type that it is a member of was registered. -/
def memberNode (kind : TypeId → NodeKind) (owner : Token) (declared : Option TypeId)
    (name : Token) : Scan (Option NodeId) := do
  match declared with
  | some parent =>
    let id ← addNode (kind parent) (owner.text ++ ".") name
    return some id
  | none => return none

/-- A member that claims its name when it is complete. -/
def claimed (read : Rule ε) (name : ε → String) (position : ε → Cursor)
    (again : ε → Cursor → Problem) (accept : ε → Scan (Option μ)) (members : Members ε μ) :
    Scan (Members ε μ) := do
  let entry ← asks read
  let (scope, new?) ← enter members.scope (name entry) (position entry) (again entry) (accept entry)
  return members.add entry scope new?

/-- A value of an enum. -/
def enumValue (owner : Token) : Members Token EnumValue → Scan (Members Token EnumValue) :=
  claimed Rule.lowerName Token.text Token.start
    (fun value => .valueRedeclared owner.text value.text value.start)
    fun value => return some ⟨value.text, value.start⟩

/-- An option of a union.  Its canonical designation is what it claims. -/
def unionOption (owner : Token) :
    Members TypeReference UnionOption → Scan (Members TypeReference UnionOption) :=
  claimed Rule.designation (·.designation.canonical) (·.designation.position)
    (fun option => .optionRepeated owner.text option.designation.canonical
      option.designation.position)
    fun option => return some ⟨option.designation, none⟩

/-- A field of a struct, whose graph node is registered when its type has been read. -/
def structField (owner : Token) (declared : Option TypeId) :
    Members TypedName NodeId → Scan (Members TypedName NodeId) :=
  claimed Rule.typed (·.name.text) (·.name.start)
    (fun field => .fieldRedeclared owner.text field.name.text field.name.start)
    fun field => do
      let node ← memberNode .structField owner declared field.name
      queue (node.map fun id => .node id field.type.designation)
      return node

/-- A property of a resolver.  Its name is claimed and its graph node registered before its
parameters are read, which belong to the graph node. -/
def resolverProperty (owner : Token) (declared : Option TypeId)
    (members : Members Signature NodeId) : Scan (Members Signature NodeId) := do
  let name ← asks Rule.lowerName
  let (scope, node) ← enter members.scope name.text name.start
    (.propertyRedeclared owner.text name.text name.start)
    (memberNode .resolverProperty owner declared name)
  let property ← signature name node (owner.text ++ "." ++ name.text)
  return members.add property scope node

/-! ### Declarations -/

/-- What the declarations with braces differ in: how a member is read, what it is part of, and how
many there must be. -/
structure BlockRule (ε μ : Type) where
  kind : BlockKind
  member : Token → Option TypeId → Members ε μ → Scan (Members ε μ)
  written : List ε → Body
  made : List μ → TypeBody
  least : Nat
  shortage : Token → Nat → Problem

/-- The members of an enum. -/
def enumRule : BlockRule Token EnumValue :=
  ⟨.enum, fun owner _ => enumValue owner, .enum, .enum, 1,
    fun name _ => .enumEmpty name.text name.start⟩

/-- The members of a union. -/
def unionRule : BlockRule TypeReference UnionOption :=
  ⟨.union, fun owner _ => unionOption owner, .union, .union, 2,
    fun name count => .unionTooSmall name.text count name.start⟩

/-- The members of a struct. -/
def structRule : BlockRule TypedName NodeId :=
  ⟨.struct, structField, .struct, .struct, 1, fun name _ => .structEmpty name.text name.start⟩

/-- The members of a resolver. -/
def resolverRule : BlockRule Signature NodeId :=
  ⟨.resolver, resolverProperty, .resolver, .resolver, 1,
    fun name _ => .resolverEmpty name.text name.start⟩

/-- Another member, unless the next token is the closing brace. -/
def memberTurn (member : Members ε μ → Scan (Members ε μ)) (members : Members ε μ) :
    Scan (Progress (Members ε μ) (Members ε μ)) := do
  if ← asks (Rule.peekIs .braceClose) then
    return .done members
  else
    let members ← member members
    return .more members

/-- Records that a declaration has too few members.  Those that were not admitted count. -/
def checkSize (rule : BlockRule ε μ) (name : Token) (count : Nat) : Scan Unit :=
  if count < rule.least then report (rule.shortage name count) else return ()

/-- The members in braces of a declaration, which are set if the declaration was registered. -/
def braces (rule : BlockRule ε μ) (name : Token) (declared : Option TypeId) :
    Scan (Token × List ε × Token) := do
  let opening ← asks (Rule.expect .braceOpen)
  let members ← loop (memberTurn (rule.member name declared)) .none
  let closing ← asks (Rule.expect .braceClose)
  checkSize rule name members.entries.length
  complete declared (rule.made members.admitted)
  return (opening, members.entries, closing)

/-- A declaration with members in braces, and its number if it was registered.  Its name is claimed
before its members are read. -/
def block (rule : BlockRule ε μ) : Scan (Option TypeId × Declaration) := do
  let keyword ← asks (Rule.expect (.keyword rule.kind.keyword))
  let name ← asks Rule.typeName
  let declared ← declare name (rule.made [])
  let (opening, entries, closing) ← braces rule name declared
  return (declared, .block keyword name opening (rule.written entries) closing)

/-- The declaration of an alias, which claims its name when it is complete. -/
def typeAlias : Scan Declaration := do
  let keyword ← asks (Rule.expect (.keyword .typeAlias))
  let name ← asks Rule.typeName
  let equals ← asks (Rule.expect .equals)
  let target ← asks Rule.typeName
  let declared ← declare name (.typeAlias target.bareDesignation none)
  queue (declared.map fun id => .target id target.bareDesignation)
  return .typeAlias keyword name equals target

/-- A declaration with braces whose members queue jobs of their own, or none. -/
def plainBlock (rule : BlockRule ε μ) : Scan Declaration := do
  let (_, declaration) ← block rule
  return declaration

/-- The declaration of a union, whose options are resolved by one job. -/
def union : Scan Declaration := do
  let (declared, declaration) ← block unionRule
  queue (declared.map QueuedJob.options)
  return declaration

/-- Claims the name of an endpoint and registers its graph node, unless the name is taken. -/
def endpointNode (kind : EndpointKind) (name : Token) : Scan (Option NodeId) := do
  match (← get).graph.claimRootName name with
  | .ok graph =>
    modify fun scanner => { scanner with graph }
    let id ← addNode kind.nodeKind "" name
    return some id
  | .error problem =>
    report problem
    return none

/-- The declaration of an endpoint. -/
def endpoint (kind : EndpointKind) : Scan Declaration := do
  let keyword ← asks (Rule.expect (.keyword kind.keyword))
  let name ← asks Rule.lowerName
  let node ← endpointNode kind name
  let signature ← signature name node name.text
  return .endpoint kind keyword signature

/-- The declaration that begins with a token, which has not been taken yet. -/
def declaration (token : Token) : Scan Declaration :=
  match token.kind with
  | .keyword .typeAlias => typeAlias
  | .keyword .enum => plainBlock enumRule
  | .keyword .union => union
  | .keyword .struct => plainBlock structRule
  | .keyword .resolver => plainBlock resolverRule
  | .keyword .query => endpoint .query
  | .keyword .mutation => endpoint .mutation
  | _ => throw (Expectation.declaration.refusal token)

/-- Another declaration, unless there is no next token. -/
def documentTurn (declarations : List Declaration) :
    Scan (Progress (List Declaration) (List Declaration)) := do
  match ← asks Rule.peek with
  | none => return .done declarations
  | some token =>
    let declaration ← declaration token
    return .more (declarations ++ [declaration])

/-- A whole document. -/
def document : Scan Document := do
  let header ← asks Rule.header
  let declarations ← loop documentTurn []
  return ⟨header, declarations⟩

end

end Scan

end GraphSchema
