import GraphSchema.Fragment.Basic
import Mathlib.Data.List.Chain

/-!
# The grammar of schema documents

The grammar is stated on *outlines*: trees of constructs whose leaves are kinds of tokens, which is
what remains of a fragment once texts and places are taken away.  An outline that satisfies
`Outline.IsDocument` is a derivation, and its `Outline.yield` is the row of kinds that it derives.

    document    := `schema` name declaration*
    name        := LowerName | Keyword
    alias       := `alias` TypeName `=` TypeName
    enum        := `enum` TypeName `{` name* `}`
    union       := `union` TypeName `{` designation* `}`
    struct      := `struct` TypeName `{` (name designation)* `}`
    resolver    := `resolver` TypeName `{` (name params? designation)* `}`
    endpoint    := (`query` | `mutation`) name params? designation
    params      := `(` name designation (`,` name designation)* `)`
    designation := (`?` | `[]`)* TypeName, without `?` directly after `?`

Nothing here refers to the way a document is read.
-/

namespace GraphSchema

/-- A tree of constructs over kinds of tokens. -/
inductive Outline where
  | leaf (kind : TokenKind)
  | node (kind : ConstructKind) (parts : List Outline)
deriving Inhabited

namespace Outline

/-! ### The yield -/

mutual

/-- The kinds of tokens at the leaves, from left to right. -/
def yield : Outline → List TokenKind
  | leaf kind => [kind]
  | node _ parts => yields parts

/-- The kinds of tokens at the leaves of a row of outlines. -/
def yields : List Outline → List TokenKind
  | [] => []
  | part :: parts => part.yield ++ yields parts

end

theorem yields_eq_flatMap (parts : List Outline) : yields parts = parts.flatMap yield := by
  induction parts with
  | nil => rfl
  | cons part parts ih => rw [yields, ih, List.flatMap_cons]

@[simp]
theorem yield_leaf (kind : TokenKind) : (leaf kind).yield = [kind] := by
  rw [yield]

@[simp]
theorem yield_node (kind : ConstructKind) (parts : List Outline) :
    (node kind parts).yield = parts.flatMap yield := by
  rw [yield, yields_eq_flatMap]

/-! ### The rules -/

/-- A name is a lower-camel-case word or a keyword. -/
inductive IsName : Outline → Prop
  | lowerName : IsName (leaf .lowerName)
  | keyword (word : Keyword) : IsName (leaf (.keyword word))

/-- May the second of two modifiers stand directly after the first one? -/
def MayPrecede (before after : TokenKind) : Prop :=
  ¬ (before = .questionMark ∧ after = .questionMark)

/-- A designation is a row of modifiers, none of them a `?` directly after a `?`, and the name of a
type. -/
inductive IsDesignation : Outline → Prop
  | mk {modifiers : List TokenKind}
      (modifier : ∀ kind ∈ modifiers, kind = .questionMark ∨ kind = .listMarker)
      (single : modifiers.IsChain MayPrecede) :
      IsDesignation (node .typeDesignation (modifiers.map leaf ++ [leaf .typeName]))

/-- A field or a parameter is a name with a designation. -/
inductive IsTyped (kind : ConstructKind) : Outline → Prop
  | mk {name type : Outline} (isName : IsName name) (isType : IsDesignation type) :
      IsTyped kind (node kind [name, type])

/-- A list of parameters has one at least, and commas between them. -/
inductive IsParameterList : Outline → Prop
  | mk {first : Outline} {others : List Outline} (isFirst : IsTyped .parameter first)
      (areOthers : ∀ other ∈ others, IsTyped .parameter other) :
      IsParameterList (node .parameterList
        (leaf .parenOpen :: first :: others.flatMap (fun other => [leaf .comma, other]) ++
          [leaf .parenClose]))

/-- The parts of a property or an endpoint: a name, parameters if there are any, and a
designation. -/
inductive IsSignature : List Outline → Prop
  | plain {name type : Outline} (isName : IsName name) (isType : IsDesignation type) :
      IsSignature [name, type]
  | applied {name parameters type : Outline} (isName : IsName name)
      (areParameters : IsParameterList parameters) (isType : IsDesignation type) :
      IsSignature [name, parameters, type]

/-- The declaration of a type by a keyword, a name and members in braces. -/
def block (kind : ConstructKind) (word : Keyword) (members : List Outline) : Outline :=
  node kind (leaf (.keyword word) :: leaf .typeName :: leaf .braceOpen ::
    (members ++ [leaf .braceClose]))

/-- The declarations. -/
inductive IsDeclaration : Outline → Prop
  | typeAlias :
      IsDeclaration (node .aliasDeclaration
        [leaf (.keyword .typeAlias), leaf .typeName, leaf .equals, leaf .typeName])
  | enum {values : List Outline} (areNames : ∀ value ∈ values, IsName value) :
      IsDeclaration (block .enumDeclaration .enum
        (values.map fun value => node .enumValue [value]))
  | union {options : List Outline} (areTypes : ∀ option ∈ options, IsDesignation option) :
      IsDeclaration (block .unionDeclaration .union options)
  | struct {fields : List Outline} (areFields : ∀ field ∈ fields, IsTyped .structField field) :
      IsDeclaration (block .structDeclaration .struct fields)
  | resolver {properties : List (List Outline)}
      (areSignatures : ∀ property ∈ properties, IsSignature property) :
      IsDeclaration (block .resolverDeclaration .resolver
        (properties.map (node .resolverProperty)))
  | query {signature : List Outline} (isSignature : IsSignature signature) :
      IsDeclaration (node .queryDeclaration (leaf (.keyword .query) :: signature))
  | mutation {signature : List Outline} (isSignature : IsSignature signature) :
      IsDeclaration (node .mutationDeclaration (leaf (.keyword .mutation) :: signature))

/-- A document is a header and declarations. -/
inductive IsDocument : Outline → Prop
  | mk {name : Outline} {declarations : List Outline} (isName : IsName name)
      (areDeclarations : ∀ declaration ∈ declarations, IsDeclaration declaration) :
      IsDocument (node .document
        (node .schemaHeader [leaf (.keyword .schema), name] :: declarations))

end Outline

/-- Does a row of kinds of tokens derive from the grammar? -/
def Derivable (kinds : List TokenKind) : Prop :=
  ∃ outline : Outline, outline.IsDocument ∧ outline.yield = kinds

/-- Is a row of kinds of tokens the beginning of a row that derives from the grammar? -/
def Viable (kinds : List TokenKind) : Prop :=
  ∃ rest, Derivable (kinds ++ rest)

/-- The beginning of a viable row is viable. -/
theorem Viable.of_append {front back : List TokenKind} (h : Viable (front ++ back)) :
    Viable front := by
  obtain ⟨rest, hrest⟩ := h
  exact ⟨back ++ rest, by rwa [← List.append_assoc]⟩

theorem Derivable.viable {kinds : List TokenKind} (h : Derivable kinds) : Viable kinds :=
  ⟨[], by rwa [List.append_nil]⟩

/-! ### The outlines of fragments -/

namespace Fragment

mutual

/-- The outline of a fragment: its constructs and the kinds of its tokens. -/
def outline : Fragment → Outline
  | token leaf => .leaf leaf.kind
  | construct kind _ _ _ parts => .node kind (outlines parts)

/-- The outlines of a row of fragments. -/
def outlines : List Fragment → List Outline
  | [] => []
  | part :: parts => part.outline :: outlines parts

end

theorem outlines_eq_map (parts : List Fragment) : outlines parts = parts.map outline := by
  induction parts with
  | nil => rfl
  | cons part parts ih => rw [outlines, ih, List.map_cons]

@[simp]
theorem outline_token (leaf : Token) : (token leaf).outline = .leaf leaf.kind := by
  rw [outline]

@[simp]
theorem outline_close (kind : ConstructKind) (place : Cursor) (source : List Char)
    (parts : List Fragment) :
    (close kind place source parts).outline = .node kind (parts.map outline) := by
  rw [close, outline, outlines_eq_map]

end Fragment

end GraphSchema
