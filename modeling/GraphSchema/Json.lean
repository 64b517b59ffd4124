/-!
# JSON

A JSON value keeps the order of the members of its objects. It is written compactly, without any
space, or laid out with two spaces for each level, where an empty array or object stays on one line.
-/

namespace GraphSchema

/-- A JSON value with whole numbers. -/
inductive Json where
  | null
  | bool (value : Bool)
  | number (value : Nat)
  | string (text : String)
  | array (items : List Json)
  | object (members : List (String × Json))
deriving Repr, Inhabited

namespace Json

/-- Four hexadecimal digits. -/
def hex4 (number : Nat) : List Char :=
  let digits := Nat.toDigits 16 number
  List.replicate (4 - digits.length) '0' ++ digits

/-- A character inside a string. Quotes, backslashes and control characters are escaped. -/
def escape (c : Char) : List Char :=
  if c = '"' then ['\\', '"']
  else if c = '\\' then ['\\', '\\']
  else if c = '\n' then ['\\', 'n']
  else if c = '\r' then ['\\', 'r']
  else if c = '\t' then ['\\', 't']
  else if c.toNat = 0x08 then ['\\', 'b']
  else if c.toNat = 0x0C then ['\\', 'f']
  else if c.toNat < 0x20 then '\\' :: 'u' :: hex4 c.toNat
  else [c]

/-- A string in quotes. -/
def quote (text : String) : String :=
  "\"" ++ String.ofList (text.toList.flatMap escape) ++ "\""

mutual

/-- The value without any space. -/
def compact : Json → String
  | null => "null"
  | bool true => "true"
  | bool false => "false"
  | number value => toString value
  | string text => quote text
  | array [] => "[]"
  | array (item :: items) => "[" ++ item.compact ++ compactItems items ++ "]"
  | object [] => "\x7b\x7d"
  | object ((name, value) :: members) =>
    "\x7b" ++ quote name ++ ":" ++ value.compact ++ compactMembers members ++ "\x7d"

/-- Further items of an array. -/
def compactItems : List Json → String
  | [] => ""
  | item :: items => "," ++ item.compact ++ compactItems items

/-- Further members of an object. -/
def compactMembers : List (String × Json) → String
  | [] => ""
  | (name, value) :: members => "," ++ quote name ++ ":" ++ value.compact ++ compactMembers members

end

/-- A line break and the indentation of a level. -/
def newline (level : Nat) : String :=
  "\n" ++ String.ofList (List.replicate (2 * level) ' ')

mutual

/-- The value laid out at a level of indentation. -/
def prettyAt (level : Nat) : Json → String
  | null => "null"
  | bool true => "true"
  | bool false => "false"
  | number value => toString value
  | string text => quote text
  | array [] => "[]"
  | array (item :: items) =>
    "[" ++ newline (level + 1) ++ item.prettyAt (level + 1) ++ prettyItems (level + 1) items ++
      newline level ++ "]"
  | object [] => "\x7b\x7d"
  | object ((name, value) :: members) =>
    "\x7b" ++ newline (level + 1) ++ quote name ++ ": " ++ value.prettyAt (level + 1) ++
      prettyMembers (level + 1) members ++ newline level ++ "\x7d"

/-- Further items of an array, each on a line of its own. -/
def prettyItems (level : Nat) : List Json → String
  | [] => ""
  | item :: items => "," ++ newline level ++ item.prettyAt level ++ prettyItems level items

/-- Further members of an object, each on a line of its own. -/
def prettyMembers (level : Nat) : List (String × Json) → String
  | [] => ""
  | (name, value) :: members =>
    "," ++ newline level ++ quote name ++ ": " ++ value.prettyAt level ++ prettyMembers level members

end

/-- The value laid out over several lines. -/
def pretty (value : Json) : String :=
  value.prettyAt 0

end Json

end GraphSchema
