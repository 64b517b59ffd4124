import GraphSchema.Text.Blank

/-!
# Log levels

The level of detail of the log can be set by a word.
-/

namespace GraphSchema

/-- A level of detail. -/
inductive LogLevel where
  | trace
  | debug
  | info
deriving DecidableEq, Repr, Inhabited

namespace LogLevel

/-- The name of a level. -/
def text : LogLevel → String
  | trace => "TRACE"
  | debug => "DEBUG"
  | info => "INFO"

/-- The level that a word stands for, in capitals or in small letters; `verbose` is another word for
`debug`. Blanks around the word do not count. -/
def ofText? (word : String) : Option LogLevel :=
  match Text.trim word with
  | "TRACE" | "trace" => some trace
  | "DEBUG" | "debug" | "VERBOSE" | "verbose" => some debug
  | "INFO" | "info" => some info
  | _ => none

end LogLevel

end GraphSchema
