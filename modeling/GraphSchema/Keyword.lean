/-!
# Keywords

The ten reserved words of the schema language. Every keyword is spelled as a lower-camel-case name,
so it may also serve as one where no declaration can start.
-/

namespace GraphSchema

/-- A reserved word. -/
inductive Keyword where
  | typeAlias
  | enum
  | mutation
  | query
  | resolver
  | schema
  | struct
  | subscription
  | trait
  | union
deriving DecidableEq, Repr, Inhabited

namespace Keyword

/-- The reserved words in alphabetical order of their spelling. -/
def all : List Keyword :=
  [typeAlias, enum, mutation, query, resolver, schema, struct, subscription, trait, union]

/-- The spelling of a keyword. -/
def text : Keyword → String
  | typeAlias => "alias"
  | enum => "enum"
  | mutation => "mutation"
  | query => "query"
  | resolver => "resolver"
  | schema => "schema"
  | struct => "struct"
  | subscription => "subscription"
  | trait => "trait"
  | union => "union"

/-- The keyword with a given spelling. -/
def ofText? (word : String) : Option Keyword :=
  all.find? fun keyword => keyword.text == word

theorem mem_all (keyword : Keyword) : keyword ∈ all := by
  cases keyword <;> decide

theorem text_injective {a b : Keyword} (h : a.text = b.text) : a = b := by
  cases a <;> cases b <;> first | rfl | simp [text] at h

theorem text_of_ofText? {word : String} {keyword : Keyword} (h : ofText? word = some keyword) :
    keyword.text = word := by
  simpa using List.find?_some h

end Keyword

end GraphSchema
