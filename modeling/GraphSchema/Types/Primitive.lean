/-!
# Primitive types and type ids

Every type has a number. The primitive types own the numbers 1 to 10; the types that a schema
declares or forms are numbered from 100 upward.
-/

namespace GraphSchema

/-- The number of a type. -/
structure TypeId where
  number : Nat
deriving DecidableEq, Repr, Inhabited

namespace TypeId

/-- The first number that is given to a type that is not primitive. -/
def firstAssigned : Nat := 100

/-- Is it the number of a primitive type? -/
def isPrimitive (id : TypeId) : Bool :=
  1 ≤ id.number && id.number ≤ 10

instance : ToString TypeId := ⟨fun id => s!"#{id.number}"⟩

end TypeId

/-- A type that is built in. -/
inductive Primitive where
  | nothing
  | bool
  | byte
  | int32
  | uint32
  | int64
  | uint64
  | float64
  | string
  | time
deriving DecidableEq, Repr, Inhabited

namespace Primitive

/-- The primitive types in the order of their numbers. -/
def all : List Primitive :=
  [nothing, bool, byte, int32, uint32, int64, uint64, float64, string, time]

/-- The name of a primitive type. -/
def name : Primitive → String
  | nothing => "None"
  | bool => "Bool"
  | byte => "Byte"
  | int32 => "Int32"
  | uint32 => "Uint32"
  | int64 => "Int64"
  | uint64 => "Uint64"
  | float64 => "Float64"
  | string => "String"
  | time => "Time"

/-- The number of a primitive type. -/
def id (primitive : Primitive) : TypeId :=
  ⟨all.idxOf primitive + 1⟩

/-- The primitive type with a given name. -/
def ofName? (name : String) : Option Primitive :=
  all.find? fun primitive => primitive.name == name

/-- Does the type carry data? All do but `None`. -/
def isPure : Primitive → Bool
  | nothing => false
  | _ => true

theorem mem_all (primitive : Primitive) : primitive ∈ all := by
  cases primitive <;> decide

theorem name_injective {a b : Primitive} (h : a.name = b.name) : a = b := by
  cases a <;> cases b <;> first | rfl | simp [name] at h

end Primitive

end GraphSchema
