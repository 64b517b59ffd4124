import GraphSchema.Diagnostic.Problem
import GraphSchema.Types.Table

/-!
# Cycles of aliases

An alias refers to one type at most, so the aliases that can be reached from one form a chain. An
alias lies on a cycle if its chain comes back to it. Each cycle is reported once, by the member that
was declared first, with its members in the order of their names.
-/

namespace GraphSchema.TypeTable

/-- The alias with a given number. -/
def alias? (table : TypeTable) (id : TypeId) : Option DeclaredType :=
  ((table.type? id).bind SchemaType.declared?).filter DeclaredType.isAlias

/-- The first aliases, `steps` of them at most, that are met when aliases are followed from a
type. -/
def aliasChain (table : TypeTable) : Nat → Option TypeId → List DeclaredType
  | 0, _ => []
  | _ + 1, none => []
  | steps + 1, some id =>
    match table.alias? id with
    | none => []
    | some type => type :: table.aliasChain steps type.aliased?

/-- The aliases of a table in the order of their declarations. -/
def aliases (table : TypeTable) : List DeclaredType :=
  table.declared.filter DeclaredType.isAlias

/-- The cycle on which an alias lies, beginning with it; `steps` bounds the number of aliases that
are followed. -/
def aliasCycle? (table : TypeTable) (steps : Nat) (type : DeclaredType) :
    Option (List DeclaredType) :=
  let chain := table.aliasChain steps type.aliased?
  if chain.any fun other => other.id == type.id then
    some (type :: chain.takeWhile fun other => other.id != type.id)
  else none

/-- Is an alias the first declared one of some aliases? -/
def isFirstOf (type : DeclaredType) (members : List DeclaredType) : Bool :=
  members.all fun other => type.id.number ≤ other.id.number

/-- The problem with a cycle of aliases. -/
def aliasCycleProblem? (members : List DeclaredType) : Option Problem :=
  let named := members.map fun type => (⟨type.name, type.position⟩ : AliasMember)
  match named.mergeSort fun a b => (compare a.name b.name).isLE with
  | [] => none
  | first :: others => some (.aliasCycle first others)

/-- The cycles of aliases, each beginning with the member that was declared first. -/
def aliasCycles (table : TypeTable) : List (List DeclaredType) :=
  let aliases := table.aliases
  aliases.filterMap fun type =>
    match table.aliasCycle? aliases.length type with
    | some members => if isFirstOf type members then some members else none
    | none => none

/-- The problems with the cycles of aliases. -/
def aliasCycleProblems (table : TypeTable) : List Problem :=
  table.aliasCycles.filterMap aliasCycleProblem?

end GraphSchema.TypeTable
