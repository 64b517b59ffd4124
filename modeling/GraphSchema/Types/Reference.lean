import GraphSchema.Total
import GraphSchema.Types.Table

/-!
# Following references

Aliases refer to types, containers to the type they wrap. A chain of references either ends at a
type that refers to nothing, or it is cyclic or leads to a type that is not known. No chain without
a repetition is longer than the table, so following as many references as there are types finds its
end.
-/

namespace GraphSchema.TypeTable

/-- Follows at most `steps` aliases from a type to the first type that is no alias. -/
def aliasTargetWithin (table : TypeTable) : Nat → TypeId → Option TypeId
  | 0, _ => none
  | steps + 1, id =>
    match table.type? id with
    | none => none
    | some type =>
      match type.aliased? with
      | none => some id
      | some none => none
      | some (some next) => table.aliasTargetWithin steps next

/-- The type that an alias stands for in the end, and every other type itself; nothing for an alias
whose chain is cyclic or not resolved. -/
def aliasTarget? (table : TypeTable) (id : TypeId) : Option TypeId :=
  table.aliasTargetWithin (table.types.length + 1) id

/-- Follows at most `steps` aliases and containers from a type to a struct. -/
def structTargetWithin (table : TypeTable) : Nat → TypeId → Option TypeId
  | 0, _ => none
  | steps + 1, id =>
    match table.type? id with
    | none => none
    | some (.container type) => table.structTargetWithin steps type.terminal
    | some type =>
      match type.aliased? with
      | none => if type.isStruct then some id else none
      | some none => none
      | some (some next) => table.structTargetWithin steps next

/-- The struct that is left when containers and aliases are taken away, if a struct is left. -/
def structTarget? (table : TypeTable) (id : TypeId) : Option TypeId :=
  table.structTargetWithin (table.types.length + 1) id

/-- The types that decide with a type whether it is pure; none for a type that is not known. -/
def purityReferences (table : TypeTable) (id : TypeId) : List TypeId :=
  ((table.type? id).map SchemaType.purityReferences).getD []

/-- Is it a type that carries no data by itself? -/
def isImpure (table : TypeTable) (id : TypeId) : Bool :=
  (table.type? id).any SchemaType.isImpure

/-- Visits types until none is pending; `steps` bounds the number of pending types that are looked
at. An impure type ends the search. -/
def pureWithin (table : TypeTable) : Nat → List TypeId → List TypeId → Bool
  | 0, _, _ => true
  | _ + 1, _, [] => true
  | steps + 1, visited, id :: pending =>
    if id ∈ visited then table.pureWithin steps visited pending
    else if table.isImpure id then false
    else table.pureWithin steps (id :: visited) (table.purityReferences id ++ pending)

/-- The number of types that can become pending: the first one and every reference of every type. -/
def purityBound (table : TypeTable) : Nat :=
  1 + total (fun type => type.purityReferences.length) table.types

/-- Does a type carry data only? It does if no resolver and no `None` can be reached from it through
containers, aliases and unions. -/
def isPure (table : TypeTable) (id : TypeId) : Bool :=
  table.pureWithin (table.purityBound + 1) [] [id]

end GraphSchema.TypeTable
