import GraphSchema.Keyword

/-!
# Kinds of tokens and naming rules

A token is a symbol, the list marker `[]`, a word or a run of white space. Words fall into keywords
and three classes of identifiers; the class tells which naming rule a word satisfies, so a name of
the wrong shape can be refused where it is declared.
-/

namespace GraphSchema

/-- The kind of a token. -/
inductive TokenKind where
  | comma
  | braceClose
  | braceOpen
  | dot
  | equals
  | listMarker
  | parenClose
  | parenOpen
  | questionMark
  | keyword (keyword : Keyword)
  | typeName
  | lowerName
  | identifier
  | space
deriving DecidableEq, Repr, Inhabited

namespace TokenKind

/-- The spelling of a kind whose tokens are all alike. -/
def symbol? : TokenKind → Option String
  | comma => some ","
  | braceClose => some "\x7d"
  | braceOpen => some "\x7b"
  | dot => some "."
  | equals => some "="
  | listMarker => some "[]"
  | parenClose => some ")"
  | parenOpen => some "("
  | questionMark => some "?"
  | keyword word => some word.text
  | typeName | lowerName | identifier | space => none

/-- Is a token of this kind a word? -/
def isWord : TokenKind → Bool
  | keyword _ | typeName | lowerName | identifier => true
  | _ => false

/-- Does a token of this kind carry no meaning? -/
def isTrivia : TokenKind → Bool
  | space => true
  | _ => false

/-- May a word of this kind serve as a lower-camel-case name? -/
def isLowerName : TokenKind → Bool
  | lowerName | keyword _ => true
  | _ => false

/-- How the kind is named where it was expected. -/
def describe : TokenKind → String
  | typeName => "type name"
  | lowerName => "name"
  | identifier => "identifier"
  | space => "whitespace"
  | kind => "`" ++ kind.symbol?.getD "" ++ "`"

/-- The kind of a word: a keyword; a type name or a lower-camel-case name if it consists of ASCII
letters and digits and starts with a letter of that case; else an identifier that no rule
accepts. -/
def ofWord (word : String) : TokenKind :=
  match Keyword.ofText? word with
  | some word => keyword word
  | none =>
    match word.toList with
    | [] => identifier
    | first :: rest =>
      if !rest.all Char.isAlphanum then identifier
      else if first.isUpper then typeName
      else if first.isLower then lowerName
      else identifier

end TokenKind

/-- The rule that a declared name has to satisfy. -/
inductive NamingRule where
  | typeName
  | lowerCamelCase
deriving DecidableEq, Repr, Inhabited

namespace NamingRule

/-- The shape of the accepted words. -/
def pattern : NamingRule → String
  | typeName => "[A-Z][A-Za-z0-9]*"
  | lowerCamelCase => "[a-z][A-Za-z0-9]*"

/-- What the accepted words are called. -/
def description : NamingRule → String
  | typeName => "type name"
  | lowerCamelCase => "lower-camel-case name"

/-- Does the rule accept words of this kind? -/
def acceptsKind : NamingRule → TokenKind → Bool
  | typeName, kind => kind == .typeName
  | lowerCamelCase, kind => kind.isLowerName

/-- Does the rule accept this word? -/
def accepts (rule : NamingRule) (word : String) : Bool :=
  rule.acceptsKind (TokenKind.ofWord word)

instance : ToString NamingRule :=
  ⟨fun rule => rule.description ++ " (`" ++ rule.pattern ++ "`)"⟩

end NamingRule

end GraphSchema
