import GraphSchema.Token.Basic
import GraphSchema.Text.Slice

/-!
# Fragments

The tree of a source text: a fragment is a token or a construct, and a construct owns its parts in
order. The span of a construct reaches from its first to its last part, and its text is the slice of
the source between them.
-/

namespace GraphSchema

/-- What a construct is. -/
inductive ConstructKind where
  | document
  | schemaHeader
  | aliasDeclaration
  | enumDeclaration
  | enumValue
  | unionDeclaration
  | structDeclaration
  | structField
  | resolverDeclaration
  | resolverProperty
  | queryDeclaration
  | mutationDeclaration
  | parameterList
  | parameter
  | typeDesignation
deriving DecidableEq, Repr, Inhabited

namespace ConstructKind

/-- The kinds from the outermost to the innermost. -/
def all : List ConstructKind :=
  [document, schemaHeader, aliasDeclaration, enumDeclaration, enumValue, unionDeclaration,
   structDeclaration, structField, resolverDeclaration, resolverProperty, queryDeclaration,
   mutationDeclaration, parameterList, parameter, typeDesignation]

/-- The name of a kind. -/
def text : ConstructKind → String
  | document => "document"
  | schemaHeader => "schema header"
  | aliasDeclaration => "alias declaration"
  | enumDeclaration => "enum declaration"
  | enumValue => "enum value"
  | unionDeclaration => "union declaration"
  | structDeclaration => "struct declaration"
  | structField => "struct field"
  | resolverDeclaration => "resolver declaration"
  | resolverProperty => "resolver property"
  | queryDeclaration => "query declaration"
  | mutationDeclaration => "mutation declaration"
  | parameterList => "parameter list"
  | parameter => "parameter"
  | typeDesignation => "type designation"

theorem mem_all (kind : ConstructKind) : kind ∈ all := by
  cases kind <;> decide

end ConstructKind

/-- A node of the tree of a source text. -/
inductive Fragment where
  | token (leaf : Token)
  | construct (kind : ConstructKind) (start stop : Cursor) (text : String) (parts : List Fragment)
deriving Repr, Inhabited

namespace Fragment

/-- The place of the first character. -/
def start : Fragment → Cursor
  | token leaf => leaf.start
  | construct _ start _ _ _ => start

/-- The place after the last character. -/
def stop : Fragment → Cursor
  | token leaf => leaf.stop
  | construct _ _ stop _ _ => stop

/-- The text of the fragment. -/
def text : Fragment → String
  | token leaf => leaf.text
  | construct _ _ _ text _ => text

/-- The kind of a construct. -/
def kind? : Fragment → Option ConstructKind
  | token _ => none
  | construct kind _ _ _ _ => some kind

/-- The parts of a construct; a token has none. -/
def parts : Fragment → List Fragment
  | token _ => []
  | construct _ _ _ _ parts => parts

mutual

/-- The number of nodes. -/
def size : Fragment → Nat
  | token _ => 1
  | construct _ _ _ _ parts => 1 + sizes parts

/-- The number of nodes of a row of fragments. -/
def sizes : List Fragment → Nat
  | [] => 0
  | part :: parts => part.size + sizes parts

end

theorem sizes_append (front back : List Fragment) :
    sizes (front ++ back) = sizes front + sizes back := by
  induction front with
  | nil => simp [sizes]
  | cons part front ih => simp [sizes, ih, Nat.add_assoc]

/-- The tokens of a row of fragments from left to right. What is still to be visited is kept as one
row: a construct at its front makes way for its parts. -/
def tokensOf : List Fragment → List Token
  | [] => []
  | token leaf :: rest => leaf :: tokensOf rest
  | construct _ _ _ _ parts :: rest => tokensOf (parts ++ rest)
termination_by row => sizes row
decreasing_by
  · simp [sizes, size]
  · simp [sizes, size, sizes_append]

/-- Every token of a fragment from left to right. -/
def tokens (fragment : Fragment) : List Token :=
  tokensOf [fragment]

/-- The parts of a fragment that are constructs of one kind. -/
def constructs (fragment : Fragment) (kind : ConstructKind) : List Fragment :=
  fragment.parts.filter fun part => part.kind? == some kind

/-- The construct made of the given parts. Without parts it is empty and stands at `place`; where
its span is no slice of the source its text is empty. -/
def close (kind : ConstructKind) (place : Cursor) (source : List Char) (parts : List Fragment) :
    Fragment :=
  let start := (parts.head?.map Fragment.start).getD place
  let stop := (parts.getLast?.map Fragment.stop).getD place
  construct kind start stop
    (String.ofList ((Text.slice source start.index stop.index).getD [])) parts

end Fragment

end GraphSchema
