import GraphSchema.Document.Reading
import GraphSchema.Proofs.Grammar.Rules

/-!
# Grammatical documents

A document keeps the tokens it was read from, so whether it follows the grammar is a matter of the
kinds of those tokens: `Document.Grammatical`.  Every part is the tree of a derivation, which has
two sides.  The outline of a grammatical part satisfies the rule of that part, and its yield is the
row of kinds of the part's tokens (`Declaration.isDeclaration_outline`,
`Declaration.yield_outline`).  And every row of tokens whose kinds derive from a rule is the row of
tokens of a grammatical part with that outline (`realized_declaration`).
-/

namespace GraphSchema

/-! ### Parts whose tokens have the right kinds -/

/-- A row of modifiers, none of them a `?` directly after a `?`. -/
structure ModifierRow (modifiers : List Token) : Prop where
  modifier : ∀ token ∈ modifiers, token.kind = .questionMark ∨ token.kind = .listMarker
  single : modifiers.IsChain fun before after => Outline.MayPrecede before.kind after.kind

/-- The tokens of a designation have the kinds that the grammar asks for. -/
structure TypeReference.Grammatical (type : TypeReference) : Prop where
  modifiers : ModifierRow type.modifiers
  terminal : type.terminal.kind = .typeName

/-- The tokens of a field or a parameter have the kinds that the grammar asks for. -/
structure TypedName.Grammatical (entry : TypedName) : Prop where
  name : entry.name.isLowerName = true
  type : entry.type.Grammatical

/-- Parameters are separated by commas, and the last one is followed by a closing parenthesis. -/
inductive Separated : List (TypedName × Token) → Prop
  | last {parameter : TypedName} {token : Token} (closes : token.kind = .parenClose) :
      Separated [(parameter, token)]
  | cons {parameter : TypedName} {token : Token} {entries : List (TypedName × Token)}
      (comma : token.kind = .comma) (rest : Separated entries) :
      Separated ((parameter, token) :: entries)

/-- The tokens of a list of parameters have the kinds that the grammar asks for. -/
structure ParameterListing.Grammatical (listing : ParameterListing) : Prop where
  opening : listing.opening.kind = .parenOpen
  separated : Separated listing.entries
  entries : ∀ entry ∈ listing.entries, entry.1.Grammatical

/-- The tokens of a property or an endpoint have the kinds that the grammar asks for. -/
structure Signature.Grammatical (signature : Signature) : Prop where
  name : signature.name.isLowerName = true
  parameters : ∀ listing ∈ signature.parameters, listing.Grammatical
  type : signature.type.Grammatical

/-- The tokens between the braces have the kinds that the grammar asks for. -/
def Body.Grammatical : Body → Prop
  | enum values => ∀ value ∈ values, value.isLowerName = true
  | union options => ∀ option ∈ options, option.Grammatical
  | struct fields => ∀ field ∈ fields, field.Grammatical
  | resolver properties => ∀ property ∈ properties, property.Grammatical

/-- The keyword that a declaration with braces begins with. -/
def Body.keyword : Body → Keyword
  | enum _ => .enum
  | union _ => .union
  | struct _ => .struct
  | resolver _ => .resolver

/-- The keyword that an endpoint begins with. -/
def EndpointKind.keyword : EndpointKind → Keyword
  | query => .query
  | mutation => .mutation

/-- The tokens of a declaration have the kinds that the grammar asks for. -/
def Declaration.Grammatical : Declaration → Prop
  | typeAlias keyword name equals target =>
    keyword.kind = .keyword .typeAlias ∧ name.kind = .typeName ∧ equals.kind = .equals ∧
      target.kind = .typeName
  | block keyword name opening body closing =>
    keyword.kind = .keyword body.keyword ∧ name.kind = .typeName ∧ opening.kind = .braceOpen ∧
      body.Grammatical ∧ closing.kind = .braceClose
  | endpoint kind keyword signature =>
    keyword.kind = .keyword kind.keyword ∧ signature.Grammatical

/-- The tokens of a header have the kinds that the grammar asks for. -/
structure Header.Grammatical (header : Header) : Prop where
  keyword : header.keyword.kind = .keyword .schema
  name : header.name.isLowerName = true

/-- The tokens of a document have the kinds that the grammar asks for. -/
structure Document.Grammatical (document : Document) : Prop where
  header : document.header.Grammatical
  declarations : ∀ declaration ∈ document.declarations, declaration.Grammatical

/-- The name of a declared type is a name of a type. -/
theorem Declaration.Grammatical.typeName {declaration : Declaration} (h : declaration.Grammatical)
    {name : Token} (hname : declaration.typeName? = some name) :
    name.kind = .typeName ∧ name ∈ declaration.tokens := by
  cases declaration with
  | typeAlias keyword token equals target =>
    obtain rfl := Option.some.inj hname
    exact ⟨h.2.1, by simp [tokens]⟩
  | block keyword token opening body closing =>
    obtain rfl := Option.some.inj hname
    exact ⟨h.2.1, by simp [tokens]⟩
  | endpoint kind keyword signature => cases hname

/-- The name of an endpoint is a lower-camel-case name. -/
theorem Declaration.Grammatical.endpointName {declaration : Declaration}
    (h : declaration.Grammatical) {name : Token} (hname : declaration.endpointName? = some name) :
    name.isLowerName = true ∧ name ∈ declaration.tokens := by
  cases declaration with
  | typeAlias keyword token equals target => cases hname
  | block keyword token opening body closing => cases hname
  | endpoint kind keyword signature =>
    obtain rfl := Option.some.inj hname
    exact ⟨h.2.name, by simp [tokens, Signature.tokens]⟩

/-- Entries that are followed by commas and one that is followed by a closing parenthesis. -/
theorem Separated.append_last {front : List (TypedName × Token)} {parameter : TypedName}
    {token : Token} (commas : ∀ entry ∈ front, entry.2.kind = .comma)
    (closes : token.kind = .parenClose) : Separated (front ++ [(parameter, token)]) := by
  induction front with
  | nil => exact .last closes
  | cons entry front ih =>
    refine .cons (commas entry (List.mem_cons_self ..)) (ih ?_)
    intro other hother
    exact commas other (List.mem_cons_of_mem _ hother)

/-! ### The outlines of grammatical parts -/

theorem Outline.isName_leaf_iff {kind : TokenKind} :
    (leaf kind).IsName ↔ kind.isLowerName = true := by
  constructor
  · intro h
    cases h <;> rfl
  · intro h
    cases kind <;> simp only [TokenKind.isLowerName, Bool.false_eq_true] at h
    · exact .keyword _
    · exact .lowerName

variable {source : List Char}

theorem TypeReference.outline_fragment (type : TypeReference) :
    (type.fragment source).outline =
      .node .typeDesignation (type.tokens.map fun token => .leaf token.kind) := by
  rw [fragment, Fragment.outline_close, List.map_map]
  congr 1

theorem TypeReference.yield_outline (type : TypeReference) :
    (type.fragment source).outline.yield = type.tokens.map Token.kind := by
  rw [outline_fragment, Outline.yield_node, List.flatMap_map, List.map_eq_flatMap]
  congr 1

theorem TypeReference.isDesignation_outline (source : List Char) {type : TypeReference}
    (h : type.Grammatical) : (type.fragment source).outline.IsDesignation := by
  have hparts : type.tokens.map (fun token => Outline.leaf token.kind) =
      (type.modifiers.map Token.kind).map .leaf ++ [.leaf .typeName] := by
    rw [tokens, List.map_append, List.map_map, List.map_singleton, h.terminal]
    rfl
  rw [outline_fragment, hparts]
  refine .mk ?_ ?_
  · intro kind hkind
    obtain ⟨token, htoken, rfl⟩ := List.mem_map.mp hkind
    exact h.modifiers.modifier token htoken
  · exact (List.isChain_map _).mpr h.modifiers.single

theorem TypedName.outline_fragment (kind : ConstructKind) (entry : TypedName) :
    (entry.fragment kind source).outline =
      .node kind [.leaf entry.name.kind, (entry.type.fragment source).outline] := by
  simp [fragment, Fragment.made]

theorem TypedName.yield_outline (kind : ConstructKind) (entry : TypedName) :
    (entry.fragment kind source).outline.yield = entry.tokens.map Token.kind := by
  simp [outline_fragment, TypeReference.yield_outline, tokens]

theorem TypedName.isTyped_outline (source : List Char) (kind : ConstructKind) {entry : TypedName}
    (h : entry.Grammatical) : (entry.fragment kind source).outline.IsTyped kind := by
  rw [outline_fragment]
  exact .mk (Outline.isName_leaf_iff.mpr h.name) (TypeReference.isDesignation_outline source h.type)

theorem ParameterListing.outline_fragment (listing : ParameterListing) :
    (listing.fragment source).outline =
      .node .parameterList (.leaf listing.opening.kind :: listing.entries.flatMap fun entry =>
        [(entry.1.fragment .parameter source).outline, .leaf entry.2.kind]) := by
  simp [fragment, Fragment.made, List.map_flatMap]

theorem ParameterListing.yield_outline (listing : ParameterListing) :
    (listing.fragment source).outline.yield = listing.tokens.map Token.kind := by
  simp [outline_fragment, tokens, List.flatMap_assoc, List.map_flatMap, TypedName.yield_outline]

/-- The separator behind a parameter can be read as the one in front of the next parameter. -/
theorem Separated.outlines (source : List Char) {entries : List (TypedName × Token)}
    (h : Separated entries) (grammatical : ∀ entry ∈ entries, entry.1.Grammatical) :
    ∃ (first : Outline) (others : List Outline), first.IsTyped .parameter ∧
      (∀ other ∈ others, other.IsTyped .parameter) ∧
      entries.flatMap (fun entry =>
          [(entry.1.fragment .parameter source).outline, .leaf entry.2.kind]) =
        first :: others.flatMap (fun other => [.leaf .comma, other]) ++ [.leaf .parenClose] := by
  induction h with
  | @last parameter token closes =>
    have hlast := TypedName.isTyped_outline source .parameter
      (grammatical _ (List.mem_singleton_self _))
    refine ⟨_, [], hlast, ?_, ?_⟩
    · intro other hother
      cases hother
    · simp [closes]
  | @cons parameter token entries comma rest ih =>
    obtain ⟨first, others, hfirst, hothers, heq⟩ :=
      ih fun entry hentry => grammatical entry (List.mem_cons_of_mem _ hentry)
    have hparameter := TypedName.isTyped_outline source .parameter
      (grammatical _ (List.mem_cons_self ..))
    refine ⟨_, first :: others, hparameter, ?_, ?_⟩
    · intro other hother
      rcases List.mem_cons.mp hother with rfl | hother
      · exact hfirst
      · exact hothers other hother
    · rw [List.flatMap_cons, heq]
      simp [comma]

theorem ParameterListing.isParameterList_outline (source : List Char)
    {listing : ParameterListing} (h : listing.Grammatical) :
    (listing.fragment source).outline.IsParameterList := by
  obtain ⟨first, others, hfirst, hothers, heq⟩ := h.separated.outlines source h.entries
  rw [outline_fragment, h.opening, heq]
  exact .mk hfirst hothers

theorem Signature.outlines_fragments (signature : Signature) :
    (signature.fragments source).map Fragment.outline =
      .leaf signature.name.kind ::
        ((signature.parameters.map fun listing => (listing.fragment source).outline).toList ++
          [(signature.type.fragment source).outline]) := by
  cases h : signature.parameters <;> simp [fragments, h]

theorem Signature.yields_fragments (signature : Signature) :
    ((signature.fragments source).map Fragment.outline).flatMap Outline.yield =
      signature.tokens.map Token.kind := by
  rw [outlines_fragments]
  cases h : signature.parameters <;>
    simp [tokens, h, TypeReference.yield_outline, ParameterListing.yield_outline]

theorem Signature.isSignature_fragments (source : List Char) {signature : Signature}
    (h : signature.Grammatical) :
    Outline.IsSignature ((signature.fragments source).map Fragment.outline) := by
  have hname := Outline.isName_leaf_iff.mpr h.name
  have htype := TypeReference.isDesignation_outline source h.type
  rw [outlines_fragments]
  cases hparameters : signature.parameters with
  | none => exact .plain hname htype
  | some listing =>
    have hlisting := ParameterListing.isParameterList_outline source (h.parameters _ hparameters)
    exact .applied hname hlisting htype

theorem Signature.outline_fragment (signature : Signature) :
    (signature.fragment source).outline =
      .node .resolverProperty ((signature.fragments source).map Fragment.outline) := by
  rw [fragment, Fragment.outline_close]

/-! ### The outlines of grammatical declarations -/

theorem Body.yields_fragments (body : Body) :
    ((body.fragments source).map Fragment.outline).flatMap Outline.yield =
      body.tokens.map Token.kind := by
  cases body with
  | enum values =>
    rw [fragments, List.map_map, List.flatMap_map, tokens, List.map_eq_flatMap]
    congr 1
  | union options =>
    simp [fragments, tokens, List.flatMap_map, List.map_flatMap, TypeReference.yield_outline]
  | struct fields =>
    simp [fragments, tokens, List.flatMap_map, List.map_flatMap, TypedName.yield_outline]
  | resolver properties =>
    rw [fragments, List.map_map, List.flatMap_map, tokens, List.map_flatMap]
    congr 1
    funext property
    rw [Function.comp_apply, Signature.outline_fragment, Outline.yield_node,
      Signature.yields_fragments]

theorem Declaration.outline_block (keyword name opening : Token) (body : Body) (closing : Token) :
    ((block keyword name opening body closing).fragment source).outline =
      .node body.kind (.leaf keyword.kind :: .leaf name.kind :: .leaf opening.kind ::
        ((body.fragments source).map Fragment.outline ++ [.leaf closing.kind])) := by
  simp [fragment, Fragment.made]

theorem Declaration.yield_outline (declaration : Declaration) :
    (declaration.fragment source).outline.yield = declaration.tokens.map Token.kind := by
  cases declaration with
  | typeAlias keyword name equals target => simp [fragment, Fragment.made, tokens]
  | block keyword name opening body closing =>
    rw [outline_block, Outline.yield_node]
    simp [tokens, Body.yields_fragments]
  | endpoint kind keyword signature =>
    simp [fragment, Fragment.made, tokens, Signature.yields_fragments]

/-- The members between the braces, with the braces, the name and the keyword around them. -/
theorem Body.isDeclaration_block (source : List Char) {body : Body} (h : body.Grammatical) :
    (Outline.block body.kind body.keyword
      ((body.fragments source).map Fragment.outline)).IsDeclaration := by
  cases body with
  | enum values =>
    have hvalues : (fragments source (enum values)).map Fragment.outline =
        (values.map fun value => .leaf value.kind).map fun value =>
          Outline.node .enumValue [value] := by
      simp [fragments, Fragment.made]
    rw [hvalues]
    refine .enum ?_
    intro value hvalue
    obtain ⟨token, htoken, rfl⟩ := List.mem_map.mp hvalue
    exact Outline.isName_leaf_iff.mpr (h token htoken)
  | union options =>
    refine .union ?_
    intro option hoption
    simp only [fragments, List.map_map, List.mem_map] at hoption
    obtain ⟨type, htype, rfl⟩ := hoption
    exact TypeReference.isDesignation_outline source (h type htype)
  | struct fields =>
    refine .struct ?_
    intro field hfield
    simp only [fragments, List.map_map, List.mem_map] at hfield
    obtain ⟨entry, hentry, rfl⟩ := hfield
    exact TypedName.isTyped_outline source _ (h entry hentry)
  | resolver properties =>
    have hproperties : (fragments source (resolver properties)).map Fragment.outline =
        (properties.map fun property => (property.fragments source).map Fragment.outline).map
          (Outline.node .resolverProperty) := by
      simp [fragments, Signature.outline_fragment]
    rw [hproperties]
    refine .resolver ?_
    intro property hproperty
    obtain ⟨signature, hsignature, rfl⟩ := List.mem_map.mp hproperty
    exact Signature.isSignature_fragments source (h signature hsignature)

theorem Declaration.isDeclaration_outline (source : List Char) {declaration : Declaration}
    (h : declaration.Grammatical) : (declaration.fragment source).outline.IsDeclaration := by
  cases declaration with
  | typeAlias keyword name equals target =>
    obtain ⟨hkeyword, hname, hequals, htarget⟩ := h
    simp only [fragment, Fragment.made, Fragment.outline_close, List.map_cons, List.map_nil,
      Fragment.outline_token, hkeyword, hname, hequals, htarget]
    exact .typeAlias
  | block keyword name opening body closing =>
    obtain ⟨hkeyword, hname, hopening, hbody, hclosing⟩ := h
    rw [outline_block, hkeyword, hname, hopening, hclosing]
    exact Body.isDeclaration_block source hbody
  | endpoint kind keyword signature =>
    obtain ⟨hkeyword, hsignature⟩ := h
    have hparts := Signature.isSignature_fragments source hsignature
    simp only [fragment, Fragment.made, Fragment.outline_close, List.map_cons,
      Fragment.outline_token, hkeyword]
    cases kind with
    | query => exact .query hparts
    | mutation => exact .mutation hparts

/-! ### From derivations to grammatical parts -/

/-- Every row of tokens whose kinds derive from a rule is the row of tokens of a good part whose
outline is that derivation. -/
def Realized {α : Type} (Rule : Outline → Prop) (Good : α → Prop) (tokens : α → List Token)
    (fragment : List Char → α → Fragment) : Prop :=
  ∀ (outline : Outline) (row : List Token), Rule outline → outline.yield = row.map Token.kind →
    ∃ part, Good part ∧ tokens part = row ∧ ∀ source, (fragment source part).outline = outline

/-- A row of derivations is realized part by part. -/
theorem Realized.many {α : Type} {Rule : Outline → Prop} {Good : α → Prop}
    {tokens : α → List Token} {fragment : List Char → α → Fragment}
    (realized : Realized Rule Good tokens fragment) (outlines : List Outline) (row : List Token)
    (rules : ∀ outline ∈ outlines, Rule outline)
    (yields : outlines.flatMap Outline.yield = row.map Token.kind) :
    ∃ parts : List α, (∀ part ∈ parts, Good part) ∧ parts.flatMap tokens = row ∧
      ∀ source, (parts.map (fragment source)).map Fragment.outline = outlines := by
  induction outlines generalizing row with
  | nil =>
    have hrow : row = [] := by simpa using yields.symm
    exact ⟨[], by simp, by simp [hrow], by simp⟩
  | cons outline outlines ih =>
    rw [List.flatMap_cons, eq_comm, List.map_eq_append_iff] at yields
    obtain ⟨front, back, rfl, hfront, hback⟩ := yields
    obtain ⟨part, hgood, rfl, hpart⟩ :=
      realized outline front (rules outline (List.mem_cons_self ..)) hfront.symm
    obtain ⟨parts, hgoods, rfl, hparts⟩ :=
      ih back (fun other hother => rules other (List.mem_cons_of_mem _ hother)) hback.symm
    refine ⟨part :: parts, ?_, rfl, ?_⟩
    · intro other hother
      rcases List.mem_cons.mp hother with rfl | hother
      · exact hgood
      · exact hgoods other hother
    · intro source
      rw [List.map_cons, List.map_cons, hpart, hparts]

theorem isLowerName_of_isName {outline : Outline} {row : List Token} (h : outline.IsName)
    (yields : outline.yield = row.map Token.kind) :
    ∃ token : Token, token.isLowerName = true ∧ row = [token] ∧ outline = .leaf token.kind := by
  cases h <;>
  · rw [Outline.yield_leaf, eq_comm, List.map_eq_singleton_iff] at yields
    obtain ⟨token, rfl, hkind⟩ := yields
    exact ⟨token, by rw [Token.isLowerName, hkind]; rfl, rfl, by rw [hkind]⟩

theorem realized_designation :
    Realized Outline.IsDesignation TypeReference.Grammatical TypeReference.tokens
      TypeReference.fragment := by
  rintro _ row (⟨hmodifier, hsingle⟩) hyield
  rw [Outline.yield_node, List.flatMap_append, List.flatMap_map, eq_comm,
    List.map_eq_append_iff] at hyield
  obtain ⟨front, back, rfl, hfront, hback⟩ := hyield
  rw [List.flatMap_singleton, Outline.yield_leaf, List.map_eq_singleton_iff] at hback
  obtain ⟨terminal, rfl, hterminal⟩ := hback
  have hkinds : front.map Token.kind = _ := hfront.trans (List.flatMap_pure_eq_map id _)
  rw [List.map_id] at hkinds
  subst hkinds
  refine ⟨⟨front, terminal⟩, ⟨⟨?_, (List.isChain_map _).mp hsingle⟩, hterminal⟩, rfl, ?_⟩
  · intro token htoken
    exact hmodifier token.kind (List.mem_map_of_mem htoken)
  · intro source
    rw [TypeReference.outline_fragment, TypeReference.tokens, List.map_append, List.map_map,
      List.map_singleton, hterminal]
    rfl

theorem realized_typed (kind : ConstructKind) :
    Realized (Outline.IsTyped kind) TypedName.Grammatical TypedName.tokens
      (TypedName.fragment kind) := by
  rintro _ row (⟨isName, isType⟩) hyield
  simp only [Outline.yield_node, List.flatMap_cons, List.flatMap_nil, List.append_nil] at hyield
  rw [eq_comm, List.map_eq_append_iff] at hyield
  obtain ⟨front, back, rfl, hfront, hback⟩ := hyield
  obtain ⟨name, hname, rfl, rfl⟩ := isLowerName_of_isName isName hfront.symm
  obtain ⟨type, htype, rfl, houtline⟩ := realized_designation _ back isType hback.symm
  refine ⟨⟨name, type⟩, ⟨hname, htype⟩, rfl, ?_⟩
  intro source
  rw [TypedName.outline_fragment, houtline]

/-- The parameters behind an opening parenthesis. -/
theorem realized_entries (others : List Outline) (first : Outline) (row : List Token)
    (hfirst : first.IsTyped .parameter) (hothers : ∀ other ∈ others, other.IsTyped .parameter)
    (hyield : first.yield ++ others.flatMap (fun other => .comma :: other.yield) ++ [.parenClose] =
      row.map Token.kind) :
    ∃ entries : List (TypedName × Token), Separated entries ∧
      (∀ entry ∈ entries, entry.1.Grammatical) ∧
      entries.flatMap (fun entry => entry.1.tokens ++ [entry.2]) = row ∧
      ∀ source, entries.flatMap (fun entry =>
          [(entry.1.fragment .parameter source).outline, .leaf entry.2.kind]) =
        first :: others.flatMap (fun other => [.leaf .comma, other]) ++ [.leaf .parenClose] := by
  induction others generalizing first row with
  | nil =>
    -- the last parameter, and the closing parenthesis
    rw [List.flatMap_nil, List.append_nil, eq_comm, List.map_eq_append_iff] at hyield
    obtain ⟨front, back, rfl, hfront, hback⟩ := hyield
    obtain ⟨token, rfl, htoken⟩ := List.map_eq_singleton_iff.mp hback
    obtain ⟨parameter, hparameter, rfl, houtline⟩ :=
      realized_typed .parameter first front hfirst hfront.symm
    refine ⟨[(parameter, token)], .last htoken, by simpa using hparameter, by simp, ?_⟩
    intro source
    simp [houtline, htoken]
  | cons other others ih =>
    rw [List.flatMap_cons, List.append_assoc, List.cons_append, List.cons_append, eq_comm,
      List.map_eq_append_iff] at hyield
    obtain ⟨front, back, rfl, hfront, hback⟩ := hyield
    -- the comma behind this parameter stands in front of the next one
    obtain ⟨token, back, rfl, htoken, hback⟩ := List.map_eq_cons_iff.mp hback
    obtain ⟨parameter, hparameter, rfl, houtline⟩ :=
      realized_typed .parameter first front hfirst hfront.symm
    obtain ⟨entries, hseparated, hentries, rfl, houtlines⟩ :=
      ih other back (hothers other (List.mem_cons_self ..))
        (fun o ho => hothers o (List.mem_cons_of_mem _ ho)) hback.symm
    refine ⟨(parameter, token) :: entries, .cons htoken hseparated, ?_, by simp, ?_⟩
    · intro entry hentry
      rcases List.mem_cons.mp hentry with rfl | hentry
      · exact hparameter
      · exact hentries entry hentry
    · intro source
      rw [List.flatMap_cons, houtlines, houtline]
      simp [htoken]

theorem realized_parameterList :
    Realized Outline.IsParameterList ParameterListing.Grammatical ParameterListing.tokens
      ParameterListing.fragment := by
  rintro _ row (⟨hfirst, hothers⟩) hyield
  rw [Outline.yield_node, List.cons_append, List.flatMap_cons, Outline.yield_leaf, eq_comm,
    List.singleton_append, List.map_eq_cons_iff] at hyield
  obtain ⟨opening, row, rfl, hopening, hrow⟩ := hyield
  obtain ⟨entries, hseparated, hentries, rfl, houtlines⟩ :=
    realized_entries _ _ row hfirst hothers (by rw [hrow]; simp [List.flatMap_assoc])
  refine ⟨⟨opening, entries⟩, ⟨hopening, hseparated, hentries⟩, rfl, ?_⟩
  intro source
  simp only [ParameterListing.outline_fragment, houtlines, hopening, List.cons_append]

theorem realized_signature (parts : List Outline) (row : List Token)
    (hparts : Outline.IsSignature parts)
    (hyield : parts.flatMap Outline.yield = row.map Token.kind) :
    ∃ signature : Signature, signature.Grammatical ∧ signature.tokens = row ∧
      ∀ source, (signature.fragments source).map Fragment.outline = parts := by
  cases hparts with
  | plain isName isType =>
    simp only [List.flatMap_cons, List.flatMap_nil, List.append_nil] at hyield
    obtain ⟨front, back, rfl, hfront, hback⟩ := List.map_eq_append_iff.mp hyield.symm
    obtain ⟨name, hname, rfl, rfl⟩ := isLowerName_of_isName isName hfront.symm
    obtain ⟨type, htype, rfl, houtline⟩ := realized_designation _ back isType hback.symm
    refine ⟨⟨name, none, type⟩, ⟨hname, by simp, htype⟩, rfl, ?_⟩
    intro source
    rw [Signature.outlines_fragments, houtline]
    rfl
  | applied isName areParameters isType =>
    simp only [List.flatMap_cons, List.flatMap_nil, List.append_nil] at hyield
    obtain ⟨front, others, rfl, hfront, hothers⟩ := List.map_eq_append_iff.mp hyield.symm
    obtain ⟨middle, back, rfl, hmiddle, hback⟩ := List.map_eq_append_iff.mp hothers
    obtain ⟨name, hname, rfl, rfl⟩ := isLowerName_of_isName isName hfront.symm
    obtain ⟨listing, hlisting, rfl, hlistingOutline⟩ :=
      realized_parameterList _ middle areParameters hmiddle.symm
    obtain ⟨type, htype, rfl, houtline⟩ := realized_designation _ back isType hback.symm
    refine ⟨⟨name, some listing, type⟩, ⟨hname, by simpa using hlisting, htype⟩, rfl, ?_⟩
    intro source
    rw [Signature.outlines_fragments, houtline, Option.map_some, hlistingOutline]
    rfl

theorem realized_value :
    Realized (fun outline => ∃ name : Outline, name.IsName ∧ outline = .node .enumValue [name])
      (fun value => value.isLowerName = true) (fun value => [value])
      (fun source value => .made .enumValue source (.token value) []) := by
  rintro _ row ⟨name, isName, rfl⟩ hyield
  rw [Outline.yield_node, List.flatMap_singleton] at hyield
  obtain ⟨value, hvalue, rfl, rfl⟩ := isLowerName_of_isName isName hyield
  exact ⟨value, hvalue, rfl, fun source => by simp [Fragment.made]⟩

theorem realized_property :
    Realized
      (fun outline => ∃ parts, Outline.IsSignature parts ∧ outline = .node .resolverProperty parts)
      Signature.Grammatical Signature.tokens Signature.fragment := by
  rintro _ row ⟨parts, hparts, rfl⟩ hyield
  rw [Outline.yield_node] at hyield
  obtain ⟨signature, hsignature, rfl, houtlines⟩ := realized_signature parts row hparts hyield
  refine ⟨signature, hsignature, rfl, ?_⟩
  intro source
  rw [Signature.outline_fragment, houtlines]

/-- If the members are realized by a body, then so is the whole declaration. -/
theorem realized_block {kind : ConstructKind} {word : Keyword} {members : List Outline}
    (realized : ∀ row : List Token, members.flatMap Outline.yield = row.map Token.kind →
      ∃ body : Body, body.kind = kind ∧ body.keyword = word ∧ body.Grammatical ∧
        body.tokens = row ∧ ∀ source, (body.fragments source).map Fragment.outline = members)
    (row : List Token) (hyield : (Outline.block kind word members).yield = row.map Token.kind) :
    ∃ declaration : Declaration, declaration.Grammatical ∧ declaration.tokens = row ∧
      ∀ source, (declaration.fragment source).outline = Outline.block kind word members := by
  simp only [Outline.block, Outline.yield_node, List.flatMap_cons, Outline.yield_leaf,
    List.singleton_append, List.flatMap_append, List.flatMap_nil, List.append_nil] at hyield
  obtain ⟨keyword, row, rfl, hkeyword, hyield⟩ := List.map_eq_cons_iff.mp hyield.symm
  obtain ⟨name, row, rfl, hname, hyield⟩ := List.map_eq_cons_iff.mp hyield
  obtain ⟨opening, row, rfl, hopening, hyield⟩ := List.map_eq_cons_iff.mp hyield
  obtain ⟨middle, row, rfl, hmiddle, hyield⟩ := List.map_eq_append_iff.mp hyield
  obtain ⟨closing, rfl, hclosing⟩ := List.map_eq_singleton_iff.mp hyield
  obtain ⟨body, hkind, hword, hbody, rfl, houtlines⟩ := realized middle hmiddle.symm
  refine ⟨.block keyword name opening body closing, ?_, rfl, ?_⟩
  · exact ⟨by rw [hkeyword, hword], hname, hopening, hbody, hclosing⟩
  · intro source
    rw [Declaration.outline_block, houtlines, hkind, hkeyword, hname, hopening, hclosing,
      Outline.block]

theorem realized_declaration :
    Realized Outline.IsDeclaration Declaration.Grammatical Declaration.tokens
      Declaration.fragment := by
  intro outline row hrule hyield
  cases hrule with
  | typeAlias =>
    simp only [Outline.yield_node, List.flatMap_cons, Outline.yield_leaf, List.singleton_append,
      List.flatMap_nil] at hyield
    obtain ⟨keyword, row, rfl, hkeyword, hyield⟩ := List.map_eq_cons_iff.mp hyield.symm
    obtain ⟨name, row, rfl, hname, hyield⟩ := List.map_eq_cons_iff.mp hyield
    obtain ⟨equals, row, rfl, hequals, hyield⟩ := List.map_eq_cons_iff.mp hyield
    obtain ⟨target, rfl, htarget⟩ := List.map_eq_singleton_iff.mp hyield
    refine ⟨.typeAlias keyword name equals target, ⟨hkeyword, hname, hequals, htarget⟩, rfl, ?_⟩
    intro source
    simp [Declaration.fragment, Fragment.made, hkeyword, hname, hequals, htarget]
  | enum areNames =>
    refine realized_block (fun row hrow => ?_) row hyield
    obtain ⟨values, hvalues, rfl, houtlines⟩ :=
      realized_value.many _ row (by simpa using areNames) hrow
    exact ⟨.enum values, rfl, rfl, hvalues, by simp [Body.tokens], houtlines⟩
  | union areTypes =>
    refine realized_block (fun row hrow => ?_) row hyield
    obtain ⟨options, hoptions, rfl, houtlines⟩ := realized_designation.many _ row areTypes hrow
    exact ⟨.union options, rfl, rfl, hoptions, rfl, houtlines⟩
  | struct areFields =>
    refine realized_block (fun row hrow => ?_) row hyield
    obtain ⟨fields, hfields, rfl, houtlines⟩ :=
      (realized_typed .structField).many _ row areFields hrow
    exact ⟨.struct fields, rfl, rfl, hfields, rfl, houtlines⟩
  | resolver areSignatures =>
    refine realized_block (fun row hrow => ?_) row hyield
    obtain ⟨properties, hproperties, rfl, houtlines⟩ :=
      realized_property.many _ row (by simpa using areSignatures) hrow
    exact ⟨.resolver properties, rfl, rfl, hproperties, rfl, houtlines⟩
  | query isSignature =>
    rw [Outline.yield_node, List.flatMap_cons, Outline.yield_leaf, List.singleton_append] at hyield
    obtain ⟨keyword, row, rfl, hkeyword, hyield⟩ := List.map_eq_cons_iff.mp hyield.symm
    obtain ⟨signature, hsignature, rfl, houtlines⟩ :=
      realized_signature _ row isSignature hyield.symm
    refine ⟨.endpoint .query keyword signature, ⟨hkeyword, hsignature⟩, rfl, ?_⟩
    intro source
    simp [Declaration.fragment, Fragment.made, hkeyword, houtlines, EndpointKind.constructKind]
  | mutation isSignature =>
    rw [Outline.yield_node, List.flatMap_cons, Outline.yield_leaf, List.singleton_append] at hyield
    obtain ⟨keyword, row, rfl, hkeyword, hyield⟩ := List.map_eq_cons_iff.mp hyield.symm
    obtain ⟨signature, hsignature, rfl, houtlines⟩ :=
      realized_signature _ row isSignature hyield.symm
    refine ⟨.endpoint .mutation keyword signature, ⟨hkeyword, hsignature⟩, rfl, ?_⟩
    intro source
    simp [Declaration.fragment, Fragment.made, hkeyword, houtlines, EndpointKind.constructKind]

/-! ### Documents -/

theorem Header.outline_fragment (header : Header) :
    (header.fragment source).outline =
      .node .schemaHeader [.leaf header.keyword.kind, .leaf header.name.kind] := by
  simp [fragment, Fragment.made]

/-- The tree of a document that has been read to its end. -/
def Document.fragment (file : Path) (source : List Char) (document : Document) : Fragment :=
  (Reading.body document.header document.declarations none).fragment file source

theorem Document.outline_fragment (file : Path) (document : Document) :
    (document.fragment file source).outline =
      .node .document ((document.header.fragment source).outline ::
        (document.declarations.map (Declaration.fragment source)).map Fragment.outline) := by
  simp [fragment, Reading.fragment, Reading.header?, Reading.declarations]

theorem Document.yield_outline (file : Path) (document : Document) :
    (document.fragment file source).outline.yield = document.tokens.map Token.kind := by
  rw [outline_fragment, Outline.yield_node, List.flatMap_cons, Header.outline_fragment, tokens,
    List.map_append, List.map_map, List.flatMap_map, List.map_flatMap]
  simp [Header.tokens, Declaration.yield_outline]

theorem Document.isDocument_outline (file : Path) (source : List Char) {document : Document}
    (h : document.Grammatical) : (document.fragment file source).outline.IsDocument := by
  rw [outline_fragment, Header.outline_fragment, h.header.keyword]
  refine .mk (Outline.isName_leaf_iff.mpr h.header.name) ?_
  intro outline houtline
  rw [List.map_map] at houtline
  obtain ⟨declaration, hdeclaration, rfl⟩ := List.mem_map.mp houtline
  exact Declaration.isDeclaration_outline source (h.declarations declaration hdeclaration)

theorem realized_document (file : Path) :
    Realized Outline.IsDocument Document.Grammatical Document.tokens (Document.fragment file) := by
  rintro _ row (⟨isName, areDeclarations⟩) hyield
  rw [Outline.yield_node, List.flatMap_cons, Outline.yield_node, List.flatMap_cons,
    Outline.yield_leaf, List.flatMap_singleton, List.singleton_append, List.cons_append] at hyield
  obtain ⟨keyword, row, rfl, hkeyword, hrow⟩ := List.map_eq_cons_iff.mp hyield.symm
  obtain ⟨front, back, rfl, hfront, hback⟩ := List.map_eq_append_iff.mp hrow
  obtain ⟨name, hname, rfl, rfl⟩ := isLowerName_of_isName isName hfront.symm
  obtain ⟨declarations, hdeclarations, rfl, houtlines⟩ :=
    realized_declaration.many _ back areDeclarations hback.symm
  refine ⟨⟨⟨keyword, name⟩, declarations⟩, ⟨⟨hkeyword, hname⟩, hdeclarations⟩, rfl, ?_⟩
  intro source
  rw [Document.outline_fragment, houtlines, Header.outline_fragment, hkeyword]

/-- A row of kinds derives from the grammar if and only if it is the row of kinds of the tokens of a
grammatical document. -/
theorem derivable_iff_grammatical {row : List Token} :
    Derivable (row.map Token.kind) ↔
      ∃ document : Document, document.Grammatical ∧ document.tokens = row := by
  constructor
  · rintro ⟨outline, hrule, hyield⟩
    obtain ⟨document, hdocument, htokens, -⟩ := realized_document ⟨""⟩ outline row hrule hyield
    exact ⟨document, hdocument, htokens⟩
  · rintro ⟨document, hdocument, rfl⟩
    exact ⟨_, Document.isDocument_outline ⟨""⟩ [] hdocument, Document.yield_outline ⟨""⟩ document⟩

end GraphSchema
