import GraphSchema.Model.Export
import GraphSchema.Proofs.Integrity
import GraphSchema.Proofs.Json.Layout
import GraphSchema.Proofs.Token.Places

/-!
# The alphabet of the export

Every string in the export of an accepted model is a name that is written in the source text or a
designation, or the label of a member.  Names are made of letters, digits and `_`, and designations
have brackets and question marks besides, so no string needs an escape or has white space in it
(`SchemaModel.NamedBare.madeOf_json`).  Hence both texts of the export are the same but for white
space (`Schema.check_rendersAlike`).
-/

namespace GraphSchema

/-! ### Characters of lexemes -/

/-- A visible ASCII character other than a quote and a backslash. -/
theorem Json.isBare_of_toNat {c : Char} (lower : 0x20 < c.toNat) (upper : c.toNat < 0x7F)
    (quote : c.toNat ≠ 0x22) (backslash : c.toNat ≠ 0x5C) : Json.IsBare c := by
  refine ⟨?_, ?_, by omega, ?_⟩
  · rintro rfl
    exact quote rfl
  · rintro rfl
    exact backslash rfl
  · refine Bool.eq_false_iff.mpr fun hblank => ?_
    simp [Text.isBlank, Text.inRanges, Text.blankRanges] at hblank
    omega

theorem IsAlphanumeric.isBare {c : Char} (h : IsAlphanumeric c) : Json.IsBare c := by
  have hrange {first last : Char} (hc : first ≤ c ∧ c ≤ last) :
      first.toNat ≤ c.toNat ∧ c.toNat ≤ last.toNat := hc
  rcases h with hupper | hlower | hdigit
  · have hbounds : 0x41 ≤ c.toNat ∧ c.toNat ≤ 0x5A := hrange hupper
    exact Json.isBare_of_toNat (by omega) (by omega) (by omega) (by omega)
  · have hbounds : 0x61 ≤ c.toNat ∧ c.toNat ≤ 0x7A := hrange hlower
    exact Json.isBare_of_toNat (by omega) (by omega) (by omega) (by omega)
  · have hbounds : 0x30 ≤ c.toNat ∧ c.toNat ≤ 0x39 := hrange hdigit
    exact Json.isBare_of_toNat (by omega) (by omega) (by omega) (by omega)

theorem IsWord.isBare {text : List Char} (h : IsWord text) : ∀ c ∈ text, Json.IsBare c := by
  have hpart {c : Char} (hc : IsAlphanumeric c ∨ c = '_') : Json.IsBare c := by
    rcases hc with hc | rfl
    · exact hc.isBare
    · exact Json.isBare_of_toNat (by decide) (by decide) (by decide) (by decide)
  cases text with
  | nil => exact absurd h id
  | cons first rest =>
    obtain ⟨hfirst, hrest⟩ := h
    refine List.forall_mem_cons.mpr ⟨hpart ?_, fun c hc => hpart (hrest c hc)⟩
    rcases hfirst with hupper | hlower | hunderscore
    · exact .inl (.inl hupper)
    · exact .inl (.inr (.inl hlower))
    · exact .inr hunderscore

/-- A text whose characters need no escape and are no white space. -/
def BareName (name : String) : Prop :=
  ∀ c ∈ name.toList, Json.IsBare c

/-- Whether a name is bare can be found out character by character. -/
theorem bareName_of_all {name : String}
    (h : (name.toList.all fun c => decide (Json.IsBare c)) = true) : BareName name :=
  fun c hc => of_decide_eq_true (List.all_eq_true.mp h c hc)

theorem BareName.spell {name : String} (h : BareName name) (modifiers : List Modifier) :
    BareName (Designation.spell modifiers name) := by
  induction modifiers with
  | nil => exact h
  | cons modifier modifiers ih =>
    have hmodifier : BareName modifier.text := by
      have hmark {c : Char} (hc : c = '?' ∨ c = '[' ∨ c = ']') : Json.IsBare c := by
        rcases hc with rfl | rfl | rfl <;>
          exact Json.isBare_of_toNat (by decide) (by decide) (by decide) (by decide)
      cases modifier with
      | optional => exact List.forall_mem_singleton.mpr (hmark (.inl rfl))
      | list =>
        exact List.forall_mem_cons.mpr ⟨hmark (.inr (.inl rfl)),
          List.forall_mem_singleton.mpr (hmark (.inr (.inr rfl)))⟩
    intro c hc
    have hspell : (Designation.spell (modifier :: modifiers) name).toList =
        modifier.text.toList ++ (Designation.spell modifiers name).toList :=
      String.toList_append
    rw [hspell, List.mem_append] at hc
    exact hc.elim (hmodifier c) (ih c)

/-! ### Names of a document -/

/-- A lexeme that carries meaning needs no escape. -/
theorem IsLexeme.isBare {kind : TokenKind} {lexeme : List Char} (h : IsLexeme kind lexeme)
    (meaningful : kind.isTrivia = false) : ∀ c ∈ lexeme, Json.IsBare c := by
  cases h with
  | space run nonempty => cases meaningful
  | word word _ => exact word.isBare
  | symbol spelling notWord =>
    have hvisible {c : Char} (hc : c.toNat ∈ [0x28, 0x29, 0x2C, 0x2E, 0x3D, 0x3F, 0x5B, 0x5D,
        0x7B, 0x7D]) : Json.IsBare c := by
      simp only [List.mem_cons, List.not_mem_nil, or_false] at hc
      exact Json.isBare_of_toNat (by omega) (by omega) (by omega) (by omega)
    rcases symbolKind?_of_symbol? spelling notWord with ⟨-, htext⟩ | ⟨c, htext, hsymbol⟩
    · rw [htext]
      exact List.forall_mem_cons.mpr ⟨hvisible (by decide),
        List.forall_mem_singleton.mpr (hvisible (by decide))⟩
    · rw [htext]
      refine List.forall_mem_singleton.mpr ?_
      unfold symbolKind? at hsymbol
      repeat
        split at hsymbol
        case isTrue hc =>
          subst hc
          exact hvisible (by decide)
      cases hsymbol

/-- No token of a document needs an escape. -/
theorem TokenStream.Spells.bareName {file : Path} {source : String} {document : Document}
    (h : (Schema.stream file source).Spells document) {token : Token}
    (mem : token ∈ document.tokens) : BareName token.text := by
  rw [h.tokens] at mem
  obtain ⟨hmem, hmeaningful⟩ := List.mem_filter.mp mem
  obtain ⟨hlexeme, -⟩ := (marks_ofSource file source).tokens token hmem
  exact hlexeme.isBare (by simpa using hmeaningful)

/-- The names of a graph node as it is written: its own and those of its parameters. -/
def WrittenNode.names (written : WrittenNode) : List Token :=
  written.name :: written.parameters.map TypedName.name

theorem Signature.names_subset (signature : Signature) (place : NodePlace) :
    (signature.written place).names ⊆ signature.tokens := by
  intro name hname
  rcases List.mem_cons.mp hname with rfl | hname
  · exact List.mem_cons_self
  · refine List.mem_cons_of_mem _ (List.mem_append_left _ ?_)
    obtain ⟨parameter, hparameter, rfl⟩ := List.mem_map.mp hname
    have hlist : parameter ∈ signature.parameterList := hparameter
    unfold parameterList at hlist
    cases hlisting : signature.parameters with
    | none =>
      rw [hlisting] at hlist
      cases hlist
    | some listing =>
      rw [hlisting] at hlist
      obtain ⟨entry, hentry, rfl⟩ := List.mem_map.mp hlist
      refine List.mem_cons_of_mem _ (List.mem_flatMap.mpr ⟨entry, hentry, ?_⟩)
      exact List.mem_append_left _ List.mem_cons_self

/-- The names of graph nodes are tokens of the declaration that writes them. -/
theorem Declaration.writtenNames_subset {declaration : Declaration} {written : WrittenNode}
    (mem : written ∈ declaration.writtenNodes) : written.names ⊆ declaration.tokens := by
  have hmembers {members : List Token} {keyword name opening closing : Token}
      (h : written.names ⊆ members) :
      written.names ⊆ keyword :: name :: opening :: (members ++ [closing]) := by
    intro token htoken
    simp [h htoken]
  cases declaration with
  | typeAlias => cases mem
  | endpoint kind keyword signature =>
    obtain rfl := List.mem_singleton.mp mem
    exact fun token htoken => List.mem_cons_of_mem _ (signature.names_subset _ htoken)
  | block keyword name opening body closing =>
    refine hmembers ?_
    cases body with
    | enum | union => cases mem
    | struct fields =>
      obtain ⟨field, hfield, rfl⟩ := List.mem_map.mp mem
      refine List.cons_subset.mpr ⟨?_, List.nil_subset _⟩
      exact List.mem_flatMap.mpr ⟨field, hfield, List.mem_cons_self⟩
    | resolver properties =>
      obtain ⟨property, hproperty, rfl⟩ := List.mem_map.mp mem
      exact fun token htoken =>
        List.mem_flatMap.mpr ⟨property, hproperty, property.names_subset _ htoken⟩

/-! ### Names of a model -/

namespace SchemaModel

/-- No name in a model needs an escape. -/
structure NamedBare (model : SchemaModel) : Prop where
  name : BareName model.name
  types : ∀ type ∈ model.declared, BareName type.name
  values : ∀ type ∈ model.declared, ∀ value ∈ type.values, BareName value.name
  nodes : ∀ node ∈ model.registry.nodes, BareName node.name
  parameters : ∀ node ∈ model.registry.nodes, ∀ parameter ∈ model.parametersOf node,
    BareName parameter.name
  containers : ∀ container ∈ model.types.containers, BareName container.designation

variable {model : SchemaModel} {document : Document}

/-! ### The export -/

open Json (MadeOf IsBare)

/-- A bare name in front of a member is found out character by character. -/
theorem madeOf_member {label : String} {value : Json} {members : List (String × Json)}
    (hlabel : (label.toList.all fun c => decide (IsBare c)) = true) (hvalue : MadeOf IsBare value)
    (hmembers : MadeOf IsBare (.object members)) :
    MadeOf IsBare (.object ((label, value) :: members)) :=
  .cons (bareName_of_all hlabel) hvalue hmembers

theorem madeOf_typeJson (type : Option TypeId) : MadeOf IsBare (typeJson type) := by
  cases type with
  | none => exact Json.madeOf_null
  | some id => exact Json.madeOf_number

theorem madeOf_array_map {α : Type} {entries : List α} {json : α → Json}
    (h : ∀ entry ∈ entries, MadeOf IsBare (json entry)) :
    MadeOf IsBare (.array (entries.map json)) :=
  Json.madeOf_array.mpr (List.forall_mem_map.mpr h)

theorem madeOf_parameterJson {parameter : Parameter} (h : BareName parameter.name) :
    MadeOf IsBare (parameterJson parameter) :=
  madeOf_member (by decide) (Json.madeOf_string.mpr h)
    (madeOf_member (by decide) (madeOf_typeJson _)
      (madeOf_member (by decide) Json.madeOf_number .nil))

theorem madeOf_nodeJson {node : GraphNode} (name : BareName node.name)
    (parameters : ∀ parameter ∈ model.parametersOf node, BareName parameter.name) :
    MadeOf IsBare (model.nodeJson node) := by
  refine madeOf_member (by decide) (Json.madeOf_string.mpr name)
    (madeOf_member (by decide) (madeOf_typeJson _)
      (madeOf_member (by decide) Json.madeOf_number ?_))
  split
  · exact .nil
  · exact madeOf_member (by decide) (madeOf_array_map fun parameter hparameter =>
      madeOf_parameterJson (parameters parameter hparameter)) .nil

theorem madeOf_declaredJson {type : DeclaredType} {label : String} {content : Json}
    (name : BareName type.name) (hlabel : BareName label) (hcontent : MadeOf IsBare content) :
    MadeOf IsBare (declaredJson type label content) :=
  madeOf_member (by decide) (Json.madeOf_string.mpr name)
    (madeOf_member (by decide) Json.madeOf_number (.cons hlabel hcontent .nil))

theorem madeOf_declaredOf {select : TypeBody → Bool} {json : DeclaredType → Json}
    (hjson : ∀ type ∈ model.declared, MadeOf IsBare (json type)) :
    MadeOf IsBare (.array ((model.declaredOf select).map json)) :=
  madeOf_array_map fun type htype => hjson type (mem_declaredOf.mp htype).1

namespace NamedBare

variable (h : model.NamedBare)
include h

theorem madeOf_nodes {nodes : List GraphNode} (mem : ∀ node ∈ nodes, node ∈ model.registry.nodes) :
    MadeOf IsBare (.array (nodes.map model.nodeJson)) :=
  madeOf_array_map fun node hnode =>
    madeOf_nodeJson (h.nodes node (mem node hnode)) (h.parameters node (mem node hnode))

theorem madeOf_membersJson {label : String} (hlabel : BareName label) {type : DeclaredType}
    (mem : type ∈ model.declared) : MadeOf IsBare (model.membersJson label type) := by
  refine madeOf_declaredJson (h.types type mem) hlabel (h.madeOf_nodes fun node hnode => ?_)
  obtain ⟨id, -, hfound⟩ := List.mem_filterMap.mp hnode
  exact List.mem_of_find?_eq_some hfound

/-- No string in the export needs an escape or has white space in it. -/
theorem madeOf_json : MadeOf IsBare model.json := by
  have hnames {type : DeclaredType} (mem : type ∈ model.declared) := h.types type mem
  refine madeOf_member (by decide) (Json.madeOf_string.mpr h.name) ?_
  refine madeOf_member (by decide) (madeOf_declaredOf fun type htype => ?_) ?_
  · exact madeOf_declaredJson (hnames htype) (bareName_of_all (by decide)) (madeOf_typeJson _)
  refine madeOf_member (by decide) (madeOf_declaredOf fun type htype => ?_) ?_
  · exact madeOf_declaredJson (hnames htype) (bareName_of_all (by decide))
      (madeOf_array_map fun value hvalue =>
        Json.madeOf_string.mpr (h.values type htype value hvalue))
  refine madeOf_member (by decide) (madeOf_declaredOf fun type htype => ?_) ?_
  · exact madeOf_declaredJson (hnames htype) (bareName_of_all (by decide))
      (madeOf_array_map fun id _ => Json.madeOf_number)
  refine madeOf_member (by decide) (madeOf_declaredOf fun type =>
    h.madeOf_membersJson (bareName_of_all (by decide))) ?_
  refine madeOf_member (by decide) (madeOf_declaredOf fun type =>
    h.madeOf_membersJson (bareName_of_all (by decide))) ?_
  refine madeOf_member (by decide) (madeOf_array_map fun container hcontainer => ?_) ?_
  · exact madeOf_member (by decide)
      (Json.madeOf_string.mpr (h.containers container (mem_sortedBy.mp hcontainer)))
      (madeOf_member (by decide) Json.madeOf_number .nil)
  have hendpoints {select : GraphNode → Bool} {node : GraphNode}
      (hnode : node ∈ sortedBy GraphNode.graphName (model.registry.nodes.filter select)) :
      node ∈ model.registry.nodes :=
    List.mem_of_mem_filter (mem_sortedBy.mp hnode)
  exact madeOf_member (by decide) (h.madeOf_nodes fun node => hendpoints)
    (madeOf_member (by decide) (h.madeOf_nodes fun node => hendpoints) .nil)

end NamedBare

/-! ### Accepted models -/

namespace Describes

variable (h : model.Describes document)
include h

/-- The names of a declared type and of its values are tokens of the document. -/
theorem declared_tokens {type : DeclaredType} (mem : type ∈ model.declared) :
    (∃ token ∈ document.tokens, type.name = token.text) ∧
      ∀ value ∈ type.values, ∃ token ∈ document.tokens, value.name = token.text := by
  obtain ⟨declaration, hmem, -, hdescribed⟩ := exists_left_of_forall₂ h.declared mem
  have hinside {token : Token} (htoken : token ∈ declaration.tokens) : token ∈ document.tokens :=
    List.mem_append_right _
      (List.mem_flatMap.mpr ⟨declaration, List.mem_of_mem_filter hmem, htoken⟩)
  obtain ⟨id, name, position, typeBody⟩ := type
  cases declaration with
  | endpoint kind keyword signature => exact hdescribed.elim
  | typeAlias keyword token equals target =>
    obtain ⟨hname, -, aliased, -, hbody⟩ := hdescribed
    obtain rfl : typeBody = _ := hbody
    exact ⟨⟨token, hinside (by simp [Declaration.tokens]), hname⟩, List.forall_mem_nil _⟩
  | block keyword token opening body closing =>
    obtain ⟨hname, -, hbody⟩ := hdescribed
    refine ⟨⟨token, hinside (by simp [Declaration.tokens]), hname⟩, ?_⟩
    cases body with
    | enum values =>
      obtain rfl : typeBody = _ := hbody
      intro value hvalue
      obtain ⟨word, hword, rfl⟩ := List.mem_map.mp hvalue
      exact ⟨word, hinside (by simp [Declaration.tokens, Body.tokens, hword]), rfl⟩
    | union options =>
      obtain ⟨described, hdescribed, -⟩ := hbody
      obtain rfl : typeBody = _ := hdescribed
      exact List.forall_mem_nil _
    | struct fields =>
      obtain ⟨ids, hids, -⟩ := hbody
      obtain rfl : typeBody = _ := hids
      exact List.forall_mem_nil _
    | resolver properties =>
      obtain ⟨ids, hids, -⟩ := hbody
      obtain rfl : typeBody = _ := hids
      exact List.forall_mem_nil _

/-- The names of a graph node and of its parameters are tokens of the document. -/
theorem node_tokens {node : GraphNode} (mem : node ∈ model.registry.nodes) :
    (∃ token ∈ document.tokens, node.name = token.text) ∧
      ∀ parameter ∈ model.parametersOf node,
        ∃ token ∈ document.tokens, parameter.name = token.text := by
  obtain ⟨written, hwritten, hdescribed⟩ := exists_left_of_forall₂ h.nodes mem
  obtain ⟨declaration, hmem, hdeclaration⟩ := List.mem_flatMap.mp hwritten
  have hinside {token : Token} (htoken : token ∈ written.names) : token ∈ document.tokens :=
    List.mem_append_right _ (List.mem_flatMap.mpr
      ⟨declaration, hmem, Declaration.writtenNames_subset hdeclaration htoken⟩)
  refine ⟨⟨written.name, hinside List.mem_cons_self, hdescribed.name⟩,
    fun parameter hparameter => ?_⟩
  obtain ⟨id, hid, hfound⟩ := List.mem_filterMap.mp hparameter
  obtain ⟨typed, htyped, described, hdescribes, hparameters⟩ :=
    exists_left_of_forall₂ hdescribed.parameters hid
  obtain rfl := Option.some.inj (hfound.symm.trans hdescribes)
  exact ⟨typed.name, hinside (List.mem_cons_of_mem _ (List.mem_map_of_mem htyped)),
    hparameters.name⟩

/-- A model of a document whose tokens need no escape has no name that needs one. -/
theorem namedBare (consistent : model.types.Consistent)
    (bare : ∀ token ∈ document.tokens, BareName token.text) : model.NamedBare := by
  have hword {name : String} (written : ∃ token ∈ document.tokens, name = token.text) :
      BareName name := by
    obtain ⟨token, htoken, rfl⟩ := written
    exact bare token htoken
  -- a container is spelled by modifiers and the name of a primitive or a declared type
  have hnamed {base : SchemaType} (hbase : base ∈ model.types.named) :
      BareName base.designation := by
    obtain ⟨hmem, hanonymous⟩ := TypeTable.mem_named.mp hbase
    cases base with
    | primitive primitive => exact bareName_of_all (by cases primitive <;> decide)
    | declared declared =>
      exact hword (h.declared_tokens (TypeTable.declared_mem_types_iff.mp hmem)).1
    | container container => cases hanonymous
  refine ⟨?_, ?_, ?_, ?_, ?_, ?_⟩
  · refine hword ⟨document.header.name, ?_, h.name⟩
    exact List.mem_append_left _ (by simp [Header.tokens])
  · exact fun type htype => hword (h.declared_tokens htype).1
  · exact fun type htype value hvalue => hword ((h.declared_tokens htype).2 value hvalue)
  · exact fun node hnode => hword (h.node_tokens hnode).1
  · exact fun node hnode parameter hparameter =>
      hword ((h.node_tokens hnode).2 parameter hparameter)
  · intro container hcontainer
    obtain ⟨modifiers, base, -, hbase, -, hspelled⟩ := consistent.spelled hcontainer
    rw [hspelled]
    exact (hnamed hbase).spell modifiers

end Describes

/-- Both texts of the export of a model are JSON for the same value, in which every string is
written without an escape and has no white space in it.  Without blanks and line feeds they are the
same text. -/
structure RendersAlike (model : SchemaModel) : Prop where
  strings : MadeOf IsBare model.json
  compact : model.json.Written Json.Spells model.json.compact.toList
  pretty : model.json.Written Json.Spells model.json.pretty.toList
  bareCompact : model.json.Written Json.SpellsBare model.json.compact.toList
  barePretty : model.json.Written Json.SpellsBare model.json.pretty.toList
  stripped : Json.stripped model.json.pretty.toList = model.json.compact.toList

theorem NamedBare.rendersAlike (h : model.NamedBare) : model.RendersAlike := by
  have hbare := h.madeOf_json
  have hspells : MadeOf (fun c => Json.Spells c (Json.escape c)) model.json :=
    fun _ _ c _ => Json.spells_escape c
  have hself : MadeOf (fun c => Json.SpellsBare c (Json.escape c)) model.json :=
    fun content hcontent c hc => Json.spellsBare_escape (hbare content hcontent c hc)
  exact ⟨hbare, Json.written_text hspells, Json.written_laid 0 hspells, Json.written_text hself,
    Json.written_laid 0 hself, Json.stripped_laid 0 hbare⟩

end SchemaModel

namespace Schema

/-- Both texts of the export of an accepted source text are JSON, and they are the same but for
white space between tokens. -/
theorem check_rendersAlike {file : Path} {source : String} {model : SchemaModel}
    (accepted : (check file source).model = .ok model) : model.RendersAlike := by
  obtain ⟨document, hspells, hfaultless, rfl⟩ := check_eq_ok_iff.mp accepted
  have hconsistent := (Registry.consistent_ofDeclarations document.declarations).linked.types
  have hdescribes := hfaultless.describes hspells.plainNames
  exact (hdescribes.namedBare hconsistent fun token htoken => hspells.bareName htoken).rendersAlike

/-- An export with containers of an enum and a query with a parameter. -/
theorem check_rendersAlike_containers : ∃ model,
    (check default "schema shop enum E \x7b a b \x7d query item(page ?Int32) []?E").model =
        .ok model ∧
      model.RendersAlike := by
  have hsome : (check default
      "schema shop enum E \x7b a b \x7d query item(page ?Int32) []?E").model.toOption.isSome =
      true := by
    decide +kernel
  cases haccepted : (check default
      "schema shop enum E \x7b a b \x7d query item(page ?Int32) []?E").model with
  | ok model => exact ⟨model, rfl, check_rendersAlike haccepted⟩
  | error diagnostics =>
    rw [haccepted] at hsome
    cases hsome

end Schema

end GraphSchema
