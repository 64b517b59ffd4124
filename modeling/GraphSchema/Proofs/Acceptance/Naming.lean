import GraphSchema.Proofs.Acceptance.WellFormed
import GraphSchema.Proofs.Registry.Resolved
import GraphSchema.Proofs.Types.Bodies
import GraphSchema.Proofs.Types.Purity

/-!
# Names and numbers

In a resolved registry names and numbers of types correspond (`Registry.Named`), and what is written
about names is what the types say about numbers.  Aliases are the steps of aliases
(`Registry.Resolved.aliasStep`, `Registry.Resolved.aliases`).  The other steps also pass through
containers, which have no names, so there they are compared by the name that is left when all
wrapping is taken away (`Registry.NamedWithin`).
-/

namespace GraphSchema.Registry

open Relation

/-- A name is that of the type with a number. -/
def Named (registry : Registry) (name : String) (id : TypeId) : Prop :=
  ∃ type, registry.types.named? name = some type ∧ type.id = id

/-- A name is that of the type with a number, or of the terminal of that container. -/
def NamedWithin (registry : Registry) (name : String) (id : TypeId) : Prop :=
  registry.Named name id ∨
    ∃ container, registry.types.type? id = some (.container container) ∧
      registry.Named name container.terminal

variable {registry : Registry} {declarations : List Declaration} {name : String} {id : TypeId}

/-! ### Types that have names -/

theorem Consistent.named_iff (h : registry.Consistent) :
    registry.Named name id ↔
      ∃ type, registry.types.type? id = some type ∧ type.isAnonymous = false ∧
        type.designation = name := by
  constructor
  · rintro ⟨type, hname, rfl⟩
    obtain ⟨hnamed, hdesignation⟩ := h.types.named?_eq_some_iff.mp hname
    obtain ⟨hmem, hanonymous⟩ := TypeTable.mem_named.mp hnamed
    exact ⟨type, h.types.type?_id hmem, hanonymous, hdesignation⟩
  · rintro ⟨type, htype, hanonymous, hdesignation⟩
    obtain ⟨hmem, hid⟩ := h.types.type?_eq_some_iff.mp htype
    refine ⟨type, h.types.named?_eq_some_iff.mpr ⟨?_, hdesignation⟩, hid⟩
    exact TypeTable.mem_named.mpr ⟨hmem, hanonymous⟩

theorem Consistent.named_declared (h : registry.Consistent) {type : DeclaredType}
    (htype : type ∈ registry.types.declared) : registry.Named type.name type.id := by
  refine h.named_iff.mpr ⟨.declared type, ?_, rfl, rfl⟩
  exact h.types.type?_id (TypeTable.declared_mem_types_iff.mpr htype)

theorem Consistent.named_primitive (h : registry.Consistent) (primitive : Primitive) :
    registry.Named primitive.name primitive.id := by
  refine h.named_iff.mpr ⟨.primitive primitive, ?_, rfl, rfl⟩
  exact h.types.type?_id (TypeTable.primitive_mem_types primitive)

/-- A number has one name. -/
theorem Consistent.named_left (h : registry.Consistent) {other : String}
    (named : registry.Named name id) (again : registry.Named other id) : name = other := by
  obtain ⟨type, htype, -, rfl⟩ := h.named_iff.mp named
  obtain ⟨same, hsame, -, rfl⟩ := h.named_iff.mp again
  rw [htype] at hsame
  rw [Option.some.inj hsame]

/-- A name has one number. -/
theorem Named.right {other : TypeId} (named : registry.Named name id)
    (again : registry.Named name other) : id = other := by
  obtain ⟨type, htype, rfl⟩ := named
  obtain ⟨same, hsame, rfl⟩ := again
  rw [htype] at hsame
  rw [Option.some.inj hsame]

theorem Consistent.named_not_container (h : registry.Consistent) (named : registry.Named name id)
    {container : Container} : registry.types.type? id ≠ some (.container container) := by
  intro hcontainer
  obtain ⟨type, htype, hanonymous, -⟩ := h.named_iff.mp named
  rw [hcontainer] at htype
  obtain rfl := Option.some.inj htype
  cases hanonymous

/-! ### Declarations that are recorded -/

/-- What a declared type was declared by: an alias, or a declaration with braces. -/
theorem Records.of_declared (h : Records declarations registry) {type : DeclaredType}
    (htype : type ∈ registry.types.declared) :
    (∃ keyword token equals target aliased,
      .typeAlias keyword token equals target ∈ declarations ∧ token.text = type.name ∧
        type.body = .typeAlias target.bareDesignation aliased) ∨
    ∃ keyword token opening body closing,
      .block keyword token opening body closing ∈ declarations ∧ token.text = type.name ∧
        registry.RecordsBody token body type.body := by
  obtain ⟨declaration, hdeclaration, hrecords⟩ := exists_left_of_forall₂ h.types htype
  have hmem := List.mem_of_mem_filter hdeclaration
  cases declaration with
  | typeAlias keyword token equals target =>
    obtain ⟨hname, -, aliased, hbody⟩ := hrecords
    exact .inl ⟨keyword, token, equals, target, aliased, hmem, hname.symm, hbody⟩
  | block keyword token opening body closing =>
    obtain ⟨hname, -, hbody⟩ := hrecords
    exact .inr ⟨keyword, token, opening, body, closing, hmem, hname.symm, hbody⟩
  | endpoint kind keyword signature => exact hrecords.elim

/-- A declared type that is no alias was declared with braces. -/
theorem Records.block_of_declared (h : Records declarations registry) {type : DeclaredType}
    (htype : type ∈ registry.types.declared)
    (noAlias : ∀ target aliased, type.body ≠ .typeAlias target aliased) :
    ∃ keyword token opening body closing,
      .block keyword token opening body closing ∈ declarations ∧ token.text = type.name ∧
        registry.RecordsBody token body type.body := by
  rcases h.of_declared htype with ⟨_, _, _, target, aliased, _, _, hbody⟩ | hblock
  · exact absurd hbody (noAlias target.bareDesignation aliased)
  · exact hblock

/-- A union was declared with options. -/
theorem Records.of_union (h : Records declarations registry) {type : DeclaredType}
    (htype : type ∈ registry.types.declared) {recorded : List UnionOption}
    (hbody : type.body = .union recorded) :
    ∃ keyword token opening options closing,
      .block keyword token opening (.union options) closing ∈ declarations ∧
        token.text = type.name ∧ registry.RecordsBody token (.union options) type.body := by
  obtain ⟨keyword, token, opening, body, closing, hmem, hname, hrecords⟩ :=
    h.block_of_declared htype fun target aliased halias => by rw [hbody] at halias; cases halias
  obtain ⟨options, rfl⟩ := (hbody ▸ hrecords).exists_options
  exact ⟨keyword, token, opening, options, closing, hmem, hname, hrecords⟩

/-- A struct was declared with fields. -/
theorem Records.of_struct (h : Records declarations registry) {type : DeclaredType}
    (htype : type ∈ registry.types.declared) {ids : List NodeId} (hbody : type.body = .struct ids) :
    Document.IsStruct declarations type.name := by
  obtain ⟨keyword, token, opening, body, closing, hmem, hname, hrecords⟩ :=
    h.block_of_declared htype fun target aliased halias => by rw [hbody] at halias; cases halias
  obtain ⟨fields, rfl⟩ := (hbody ▸ hrecords).exists_fields
  exact ⟨fields, keyword, token, opening, closing, hmem, hname⟩

/-- A resolver was declared with properties. -/
theorem Records.of_resolver (h : Records declarations registry) {type : DeclaredType}
    (htype : type ∈ registry.types.declared) {ids : List NodeId}
    (hbody : type.body = .resolver ids) : Document.IsResolver declarations type.name := by
  obtain ⟨keyword, token, opening, body, closing, hmem, hname, hrecords⟩ :=
    h.block_of_declared htype fun target aliased halias => by rw [hbody] at halias; cases halias
  obtain ⟨properties, rfl⟩ := (hbody ▸ hrecords).exists_properties
  exact ⟨properties, keyword, token, opening, closing, hmem, hname⟩

/-- An alias is declared as it is written. -/
theorem Records.of_alias (h : Records declarations registry) {keyword token equals target : Token}
    (hmem : .typeAlias keyword token equals target ∈ declarations) :
    ∃ type ∈ registry.types.declared, type.name = token.text ∧
      ∃ aliased, type.body = .typeAlias target.bareDesignation aliased := by
  obtain ⟨type, htype, hname, -, hbody⟩ :=
    exists_right_of_forall₂ h.types (List.mem_filter.mpr ⟨hmem, rfl⟩)
  exact ⟨type, htype, hname, hbody⟩

/-- A declaration with braces is declared as it is written. -/
theorem Records.of_block (h : Records declarations registry) {keyword token opening closing : Token}
    {body : Body} (hmem : .block keyword token opening body closing ∈ declarations) :
    ∃ type ∈ registry.types.declared, type.name = token.text ∧
      registry.RecordsBody token body type.body := by
  obtain ⟨type, htype, hname, -, hbody⟩ :=
    exists_right_of_forall₂ h.types (List.mem_filter.mpr ⟨hmem, rfl⟩)
  exact ⟨type, htype, hname, hbody⟩

/-- The type with the name of a declaration with braces is declared as it is written. -/
theorem Resolved.type_of_body (h : Resolved declarations registry) {body : Body}
    (declared : Document.DeclaresBody declarations name body) (named : registry.Named name id) :
    ∃ type ∈ registry.types.declared, registry.types.type? id = some (.declared type) ∧
      type.name = name ∧ type.id = id ∧ ∃ keyword token opening closing,
        .block keyword token opening body closing ∈ declarations ∧ token.text = name ∧
        registry.RecordsBody token body type.body := by
  obtain ⟨keyword, token, opening, closing, hmem, rfl⟩ := declared
  obtain ⟨type, htype, hname, hbody⟩ := h.records.of_block hmem
  have hagain := h.consistent.named_declared htype
  rw [hname] at hagain
  have hid : type.id = id := hagain.right named
  refine ⟨type, htype, ?_, hname, hid, keyword, token, opening, closing, hmem, rfl, hbody⟩
  rw [← hid]
  exact h.consistent.types.type?_id (TypeTable.declared_mem_types_iff.mpr htype)

/-- The type of a reference: it has the name of the reference, or it is a container of that. -/
theorem Resolved.reference?_within (h : Resolved declarations registry) {reference : Designation}
    (hmem : reference ∈ declarations.flatMap Declaration.references) :
    ∃ id, registry.types.reference? reference = some id ∧
      registry.NamedWithin reference.terminal id ∧
      (reference.modifiers = [] → registry.Named reference.terminal id) ∧
      (reference.modifiers ≠ [] →
        ∃ container, registry.types.type? id = some (.container container)) := by
  obtain ⟨base, type, hbase, htype, hreference, -, hterminal, hbare, hwrapped⟩ :=
    h.reference?_spec hmem
  have hnamed : reference.modifiers = [] → registry.Named reference.terminal type.id := by
    intro hnil
    rw [hbare hnil]
    exact ⟨base, hbase, rfl⟩
  -- with modifiers it is the container whose terminal has the name
  have hcontainer : reference.modifiers ≠ [] →
      ∃ container, type = .container container ∧ container.terminal = base.id := by
    intro hne
    cases type with
    | container container => exact ⟨container, rfl, hterminal⟩
    | primitive _ => cases hwrapped hne
    | declared _ => cases hwrapped hne
  refine ⟨type.id, hreference, ?_, hnamed, ?_⟩
  · by_cases hnil : reference.modifiers = []
    · exact .inl (hnamed hnil)
    · obtain ⟨container, rfl, hid⟩ := hcontainer hnil
      refine .inr ⟨container, h.consistent.types.type?_id htype, base, hbase, hid.symm⟩
  · intro hne
    obtain ⟨container, rfl, -⟩ := hcontainer hne
    exact ⟨container, h.consistent.types.type?_id htype⟩

end GraphSchema.Registry
