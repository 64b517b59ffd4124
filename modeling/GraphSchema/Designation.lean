import GraphSchema.Token.Basic

/-!
# Type designations

A designation refers to a type: modifiers, the outermost first, in front of the name of a type. It
is written without spaces in its canonical form, such as `?[]Int32`.
-/

namespace GraphSchema

/-- What a designation makes of the type behind it. -/
inductive Modifier where
  | optional
  | list
deriving DecidableEq, Repr, Inhabited

/-- The spelling of a modifier. -/
def Modifier.text : Modifier → String
  | optional => "?"
  | list => "[]"

/-- A reference to a type by modifiers and a name, with the places of its first character and of the
name. -/
structure Designation where
  modifiers : List Modifier
  terminal : String
  position : Cursor
  terminalPosition : Cursor
deriving DecidableEq, Repr, Inhabited

namespace Designation

/-- The canonical form of modifiers in front of a text. -/
def spell (modifiers : List Modifier) (terminal : String) : String :=
  modifiers.foldr (fun modifier text => modifier.text ++ text) terminal

/-- The canonical form. -/
def canonical (designation : Designation) : String :=
  spell designation.modifiers designation.terminal

instance : ToString Designation := ⟨canonical⟩

end Designation

end GraphSchema
