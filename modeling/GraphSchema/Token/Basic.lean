import GraphSchema.Cursor
import GraphSchema.Token.Kind

/-!
# Tokens

A token is a piece of a source text with its kind, the place of its first character and the place
after its last one.
-/

namespace GraphSchema

/-- A classified piece of a source text. -/
structure Token where
  kind : TokenKind
  text : String
  start : Cursor
  stop : Cursor
deriving DecidableEq, Repr, Inhabited

namespace Token

/-- May the token serve as a lower-camel-case name? -/
def isLowerName (token : Token) : Bool :=
  token.kind.isLowerName

/-- How the token is named where something else was expected. -/
def describe (token : Token) : String :=
  match token.kind with
  | .space => "whitespace"
  | _ => "`" ++ token.text ++ "`"

end Token

end GraphSchema
