import GraphSchema.Diagnostic.Problem
import GraphSchema.Registry
import GraphSchema.Types.Reference

/-!
# Cycles of structs

A struct contains another one if the type of one of its fields is that struct, once containers and
aliases are taken away. No struct may contain itself, however far down. The structs are walked depth
first, each of them entered once. The stack of the walk holds the path from the first struct to the
current one; a field that leads back to a struct on the path closes a cycle. A cycle is reported
unless one of its structs is a member of a cycle that was reported before, and it begins with the
struct whose name comes first.

Every step of the walk takes one struct from the row of starting points, one field from a struct or
one struct from the stack, so `ContainmentWalk.bound` steps end it.
-/

namespace GraphSchema

/-- A field whose type contains a struct. -/
structure ContainmentEdge where
  field : GraphNode
  target : TypeId
deriving DecidableEq, Repr, Inhabited

/-- A struct on the path of a walk: the fields that were followed, the latest first, and those that
are still to be followed. -/
structure ContainmentFrame where
  type : DeclaredType
  taken : List ContainmentEdge
  ahead : List ContainmentEdge
deriving DecidableEq, Repr, Inhabited

/-- How far a walk has come with a struct. -/
inductive Visit where
  | inProgress
  | done
deriving DecidableEq, Repr, Inhabited

/-- The state of a walk: the structs it may still start from, how far it has come with each struct,
the path it is on with its end first, and the cycles that were found. -/
structure ContainmentWalk where
  starts : List DeclaredType
  visits : List (TypeId × Visit)
  path : List ContainmentFrame
  cycles : List (List StructLink)
  cyclic : List TypeId
deriving DecidableEq, Repr, Inhabited

namespace Registry

/-- The struct with a given number. -/
def struct? (registry : Registry) (id : TypeId) : Option DeclaredType :=
  ((registry.types.type? id).bind SchemaType.declared?).filter DeclaredType.isStruct

/-- The structs in the order of their declarations. -/
def structs (registry : Registry) : List DeclaredType :=
  registry.types.declared.filter DeclaredType.isStruct

/-- The fields of a struct that contain a struct, in order. -/
def containment (registry : Registry) (type : DeclaredType) : List ContainmentEdge :=
  type.members.filterMap fun id => do
    let field ← registry.node? id
    let target ← registry.types.structTarget? (← field.type)
    pure ⟨field, target⟩

end Registry

namespace ContainmentWalk

/-- A walk that has not begun. -/
def initial (registry : Registry) : ContainmentWalk :=
  ⟨registry.structs, [], [], [], []⟩

/-- How far the walk has come with a struct; nothing if it was not entered. -/
def visit? (walk : ContainmentWalk) (id : TypeId) : Option Visit :=
  (walk.visits.find? fun entry => entry.1 == id).map Prod.snd

/-- Notes how far the walk has come with a struct. -/
def mark (walk : ContainmentWalk) (id : TypeId) (visit : Visit) : ContainmentWalk :=
  { walk with visits := (id, visit) :: walk.visits.filter fun entry => entry.1 != id }

/-- Puts a struct at the end of the path. -/
def enter (registry : Registry) (walk : ContainmentWalk) (type : DeclaredType) : ContainmentWalk :=
  let walk := walk.mark type.id .inProgress
  { walk with path := ⟨type, [], registry.containment type⟩ :: walk.path }

/-- The link that a struct on the path makes: the field that was followed last. -/
def link? (frame : ContainmentFrame) : Option StructLink :=
  frame.taken.head?.map fun edge => ⟨frame.type.name, edge.field.name, edge.field.position⟩

/-- The part of a path from a struct to its end, in the order in which it was walked. -/
def loop (path : List ContainmentFrame) (target : TypeId) : List ContainmentFrame :=
  let later := path.takeWhile fun frame => frame.type.id != target
  (later ++ (path.drop later.length).take 1).reverse

/-- Does a link's struct come first by name? -/
def isLeast (links : List StructLink) (link : StructLink) : Bool :=
  links.all fun other => (compare link.structName other.structName).isLE

/-- Turns a cycle so that it begins with the struct whose name comes first. -/
def turned (links : List StructLink) : List StructLink :=
  let before := links.takeWhile fun link => !isLeast links link
  links.drop before.length ++ before

/-- Notes the cycle that is closed by a field leading back to a struct on the path, unless a member
of it belongs to a cycle that was found before. -/
def close (walk : ContainmentWalk) (target : TypeId) : ContainmentWalk :=
  let members := loop walk.path target
  let ids := members.map fun frame => frame.type.id
  if ids.any fun id => walk.cyclic.contains id then walk
  else
    { walk with
      cyclic := walk.cyclic ++ ids
      cycles := walk.cycles ++ [turned (members.filterMap link?)] }

/-- One step of the walk. -/
def step (registry : Registry) (walk : ContainmentWalk) : ContainmentWalk :=
  match walk.path with
  | [] =>
    match walk.starts with
    | [] => walk
    | type :: starts =>
      let walk := { walk with starts }
      match walk.visit? type.id with
      | some _ => walk
      | none => walk.enter registry type
  | frame :: path =>
    match frame.ahead with
    | [] => { walk with path }.mark frame.type.id .done
    | edge :: ahead =>
      let frame := { frame with taken := edge :: frame.taken, ahead }
      let walk := { walk with path := frame :: path }
      match walk.visit? edge.target with
      | some .inProgress => walk.close edge.target
      | some .done => walk
      | none =>
        match registry.struct? edge.target with
        | some type => walk.enter registry type
        | none => walk

/-- Takes a number of steps. -/
def run (registry : Registry) : Nat → ContainmentWalk → ContainmentWalk
  | 0, walk => walk
  | steps + 1, walk => run registry steps (walk.step registry)

/-- The number of steps that end the walk: one to start from each struct, one to follow each field,
and one to leave each struct. -/
def bound (registry : Registry) : Nat :=
  total (fun type => 2 + (registry.containment type).length) registry.structs

end ContainmentWalk

namespace Registry

/-- The cycles of structs that are reported. -/
def structCycles (registry : Registry) : List (List StructLink) :=
  (ContainmentWalk.run registry (ContainmentWalk.bound registry) (.initial registry)).cycles

/-- The problem with a cycle of structs. -/
def structCycleProblem? : List StructLink → Option Problem
  | [] => none
  | first :: others => some (.structCycle first others)

/-- The problems with the cycles of structs. -/
def structCycleProblems (registry : Registry) : List Problem :=
  registry.structCycles.filterMap structCycleProblem?

end Registry

end GraphSchema
