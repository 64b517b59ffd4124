import GraphSchema.Proofs.Document.References
import GraphSchema.Proofs.Registry.Numbered

/-!
# References that are settled

When the references of a registry are filled in, each of those that are kept is resolved if and only
if its name is that of a primitive type or of a type that is declared anywhere in the document, and
it is resolved to what the first declaration of the name declares (`Registry.Settles`,
`Registry.settled_linked`).  A reference whose name is not defined is not resolved, and no container
is formed for any part of it (`Registry.exists_container_iff`).
-/

namespace GraphSchema

namespace Document

variable {declarations : List Declaration}

/-- The first declaration of a type with a given name. -/
def firstNamed? (declarations : List Declaration) (name : String) : Option Declaration :=
  declarations.find? fun declaration => declaration.typeName?.map Token.text = some name

/-- A declaration whose name is new is the first one of its name. -/
theorem firstNamed?_of_isNewAfter {front back : List Declaration} {written : Declaration}
    (new : written.IsNewAfter front) {name : Token} (named : written.typeName? = some name) :
    firstNamed? (front ++ written :: back) name.text = some written := by
  have hfront : front.find? (fun declaration =>
      declaration.typeName?.map Token.text = some name.text) = none := by
    rw [List.find?_eq_none]
    intro declaration hdeclaration hsame
    obtain ⟨token, htoken, htext⟩ := Option.map_eq_some_iff.mp (of_decide_eq_true hsame)
    refine (new.1 name named).2 ?_
    rw [← htext]
    exact List.mem_map_of_mem (List.mem_filterMap.mpr ⟨declaration, hdeclaration, htoken⟩)
  rw [firstNamed?, List.find?_append, hfront, Option.none_or]
  exact List.find?_cons_of_pos (by simp [named])

/-- What is kept defines the same names. -/
theorem defines_kept_iff (name : String) :
    Defines (kept declarations) name ↔ Defines declarations name := by
  unfold Defines
  rw [mem_typeNames_kept]
  cases hprimitive : Primitive.ofName? name <;> simp

end Document

namespace Registry

variable {registry : Registry} {declarations : List Declaration}

/-! ### What a name stands for -/

/-- The type that a name stands for: the primitive type with the name, or what the first declaration
of the name declares. -/
inductive Names (registry : Registry) (declarations : List Declaration) (name : String) :
    SchemaType → Prop
  | primitive {primitive : Primitive} (named : primitive.name = name) :
      Names registry declarations name (.primitive primitive)
  | declared {type : DeclaredType} {declaration : Declaration}
      (mem : type ∈ registry.types.declared)
      (first : Document.firstNamed? declarations name = some declaration)
      (records : registry.RecordsType declaration.kept type) :
      Names registry declarations name (.declared type)

/-- A type that is recorded has the name that is written. -/
theorem RecordsType.name {declaration : Declaration} {type : DeclaredType}
    (h : registry.RecordsType declaration type) :
    ∃ name, declaration.typeName? = some name ∧ type.name = name.text := by
  cases declaration with
  | typeAlias keyword name equals target => exact ⟨name, rfl, h.1⟩
  | block keyword name opening body closing => exact ⟨name, rfl, h.1⟩
  | endpoint kind keyword signature => exact h.elim

/-- A name that is found stands for the type that is found. -/
theorem Records.names (h : Records (Document.kept declarations) registry)
    (consistent : registry.Consistent) {name : String} {base : SchemaType}
    (found : registry.types.named? name = some base) : registry.Names declarations name base := by
  obtain ⟨hnamed, hname⟩ := consistent.types.named?_eq_some_iff.mp found
  rcases h.mem_named hnamed with ⟨primitive, rfl⟩ | ⟨type, htype, rfl, -⟩
  · exact .primitive hname
  · obtain ⟨declaration, hdeclaration, hrecords⟩ := exists_left_of_forall₂ h.types htype
    obtain ⟨front, written, back, hsplit, hnew, rfl⟩ :=
      Document.exists_new_of_mem_kept (List.mem_of_mem_filter hdeclaration)
    obtain ⟨token, htoken, htext⟩ := hrecords.name
    rw [Declaration.typeName?_kept] at htoken
    refine .declared htype ?_ hrecords
    rw [hsplit, ← hname]
    show Document.firstNamed? _ type.name = _
    rw [htext]
    exact Document.firstNamed?_of_isNewAfter hnew htoken

/-! ### References that are kept -/

/-- A reference that is kept is resolved if its name is defined: to a type that is spelled like it
and wraps the type with the name. -/
theorem exists_reference?_kept (plain : PlainNames declarations) {reference : Designation}
    (mem : reference ∈ (Document.kept declarations).flatMap Declaration.references)
    (defined : Document.Defines (Document.kept declarations) reference.terminal) :
    ∃ base type, (ofDeclarations declarations).linked.types.named? reference.terminal = some base ∧
      type ∈ (ofDeclarations declarations).linked.types.types ∧
      (ofDeclarations declarations).linked.types.reference? reference = some type.id ∧
      type.designation = reference.canonical ∧ type.terminal = base.id ∧
      (reference.modifiers = [] → type = base) := by
  have hrecords := records_kept declarations
  have hlinked := records_kept_linked declarations
  have hconsistent := consistent_ofDeclarations declarations
  have hplain : (ofDeclarations declarations).linked.types.Plain :=
    hlinked.plain fun name hname => plain name ((Document.mem_typeNames_kept _ _).mp hname).1
  rw [← hrecords.references] at mem
  have hknown := (hlinked.isSome_named?_iff hconsistent.linked reference.terminal).mpr defined
  obtain ⟨base, hbase⟩ := Option.isSome_iff_exists.mp hknown
  obtain ⟨type, hmem, htype, hdesignation, hterminal, hbare, -⟩ :=
    hconsistent.linked.types.reference?_spec hplain hbase
      fun text hpart => linked_parts hconsistent mem hknown hpart
  exact ⟨base, type, hbase, hmem, htype, hdesignation, hterminal, hbare⟩

theorem isSome_reference?_kept (plain : PlainNames declarations) {reference : Designation}
    (mem : reference ∈ (Document.kept declarations).flatMap Declaration.references)
    (defined : Document.Defines (Document.kept declarations) reference.terminal) :
    ((ofDeclarations declarations).linked.types.reference? reference).isSome := by
  obtain ⟨base, type, -, -, htype, -⟩ := exists_reference?_kept plain mem defined
  rw [htype]
  rfl

/-- The names that are referred to in what is kept are plain. -/
def PlainReferences (declarations : List Declaration) : Prop :=
  ∀ reference ∈ (Document.kept declarations).flatMap Declaration.references,
    PlainName reference.terminal

/-- There is a container for a part of a reference if and only if the name is defined. -/
theorem exists_container_iff (plain : PlainReferences declarations) {reference : Designation}
    (mem : reference ∈ (Document.kept declarations).flatMap Declaration.references)
    {text : String} (part : reference.HasPart text) :
    (∃ container ∈ (ofDeclarations declarations).linked.types.containers,
      container.designation = text) ↔ Document.Defines declarations reference.terminal := by
  have hrecords := records_kept declarations
  have hlinked := records_kept_linked declarations
  have hconsistent := consistent_ofDeclarations declarations
  have hdefined (name : String) :
      ((ofDeclarations declarations).linked.types.named? name).isSome ↔
        Document.Defines declarations name := by
    rw [hlinked.isSome_named?_iff hconsistent.linked]
    exact Document.defines_kept_iff name
  constructor
  · rintro ⟨container, hcontainer, rfl⟩
    obtain ⟨other, hother, hknown, hpart⟩ :=
      linked_containers hconsistent (containers_ofDeclarations declarations) hcontainer
    rw [hrecords.references] at hother
    -- the container is spelled in one way only
    obtain ⟨suffix, -, -, hspelled⟩ := part
    obtain ⟨others, -, -, hspelledToo⟩ := hpart
    obtain ⟨-, hterminal⟩ := Designation.spell_injective (hspelled.symm.trans hspelledToo)
      (plain reference mem) (plain other hother)
    rw [hterminal]
    exact (hdefined other.terminal).mp hknown
  · intro hdefines
    rw [← hrecords.references] at mem
    exact linked_parts hconsistent mem ((hdefined reference.terminal).mpr hdefines) part

/-- A reference that is kept is resolved if and only if its name is defined. -/
theorem isSome_reference?_iff (names : PlainNames declarations)
    (plain : PlainReferences declarations) {reference : Designation}
    (mem : reference ∈ (Document.kept declarations).flatMap Declaration.references) :
    ((ofDeclarations declarations).linked.types.reference? reference).isSome ↔
      Document.Defines declarations reference.terminal := by
  constructor
  · intro hsome
    obtain ⟨id, hid⟩ := Option.isSome_iff_exists.mp hsome
    unfold TypeTable.reference? at hid
    split at hid
    case h_1 =>
      obtain ⟨type, htype, -⟩ := Option.map_eq_some_iff.mp hid
      refine (Document.defines_kept_iff _).mp
        (((records_kept_linked declarations).isSome_named?_iff
          (consistent_linked declarations) _).mp ?_)
      rw [htype]
      rfl
    case h_2 hmodifiers =>
      obtain ⟨container, hcontainer, -⟩ := Option.map_eq_some_iff.mp hid
      obtain ⟨hmem, hdesignation⟩ :=
        (consistent_linked declarations).types.anonymous?_eq_some_iff.mp hcontainer
      exact (exists_container_iff plain mem (Designation.hasPart_canonical hmodifiers)).mp
        ⟨container, hmem, hdesignation⟩
  · intro hdefines
    exact isSome_reference?_kept names mem ((Document.defines_kept_iff _).mpr hdefines)

/-! ### What references are resolved to -/

/-- The type that a reference is given: one if and only if its name is defined, and then one that is
spelled like the reference and wraps what the name stands for. -/
structure Settles (registry : Registry) (declarations : List Declaration)
    (reference : Designation) (type? : Option TypeId) : Prop where
  isSome_iff : type?.isSome ↔ Document.Defines declarations reference.terminal
  target : ∀ id ∈ type?, ∃ base, registry.Names declarations reference.terminal base ∧
    registry.types.designation? id = some reference.canonical ∧
    registry.types.terminal id = base.id ∧ (reference.modifiers = [] → id = base.id)

theorem settles_reference? (names : PlainNames declarations) (plain : PlainReferences declarations)
    {reference : Designation}
    (mem : reference ∈ (Document.kept declarations).flatMap Declaration.references) :
    (ofDeclarations declarations).linked.Settles declarations reference
      ((ofDeclarations declarations).linked.types.reference? reference) := by
  have hiff := isSome_reference?_iff names plain mem
  refine ⟨hiff, fun id hid => ?_⟩
  have hlinked := records_kept_linked declarations
  have hconsistent := consistent_linked declarations
  have hdefines : Document.Defines declarations reference.terminal :=
    hiff.mp (by rw [Option.mem_def.mp hid]; rfl)
  obtain ⟨base, type, hbase, htype, hresolved, hdesignation, hterminal, hbare⟩ :=
    exists_reference?_kept names mem ((Document.defines_kept_iff _).mpr hdefines)
  obtain rfl := Option.some.inj (hresolved.symm.trans (Option.mem_def.mp hid))
  refine ⟨base, hlinked.names hconsistent hbase, ?_, ?_, fun hnil => by rw [hbare hnil]⟩
  · rw [hconsistent.types.designation?_id htype, hdesignation]
  · rw [hconsistent.types.terminal_id htype, hterminal]

/-- Everything in a registry that refers to a type is settled. -/
structure Settled (declarations : List Declaration) (registry : Registry) : Prop where
  aliases : ∀ type ∈ registry.types.declared, ∀ target aliased,
    type.body = .typeAlias target aliased → registry.Settles declarations target aliased
  options : ∀ type ∈ registry.types.declared, ∀ option ∈ type.options,
    registry.Settles declarations option.designation option.type
  nodes : ∀ node ∈ registry.nodes, registry.Settles declarations node.designation node.type
  parameters : ∀ parameter ∈ registry.parameters,
    registry.Settles declarations parameter.designation parameter.type

/-- The target of an alias is written by its declaration. -/
theorem RecordsType.target_mem {declaration : Declaration} {type : DeclaredType}
    (h : registry.RecordsType declaration type) {target : Designation} {aliased : Option TypeId}
    (body : type.body = .typeAlias target aliased) : target ∈ declaration.references := by
  cases declaration with
  | typeAlias keyword name equals written =>
    obtain ⟨-, -, other, hbody⟩ := h
    rw [hbody] at body
    obtain ⟨rfl, -⟩ := TypeBody.typeAlias.inj body
    exact List.mem_singleton.mpr rfl
  | block keyword name opening members closing =>
    obtain ⟨-, -, hbody⟩ := h
    rw [body] at hbody
    exact hbody.not_alias.elim
  | endpoint kind keyword signature => exact h.elim

/-- The options of a union are written by its declaration. -/
theorem RecordsType.option_mem {declaration : Declaration} {type : DeclaredType}
    (h : registry.RecordsType declaration type) {option : UnionOption}
    (mem : option ∈ type.options) : option.designation ∈ declaration.references := by
  unfold DeclaredType.options at mem
  split at mem
  case h_2 => cases mem
  case h_1 recorded =>
    cases declaration with
    | typeAlias keyword name equals written =>
      obtain ⟨-, -, other, hbody⟩ := h
      cases hbody
    | block keyword name opening members closing =>
      obtain ⟨-, -, hbody⟩ := h
      obtain ⟨options, rfl⟩ := hbody.exists_options
      obtain ⟨others, hothers, hdesignations⟩ := hbody
      obtain rfl := TypeBody.union.inj hothers
      rw [Declaration.references, ← hdesignations]
      exact List.mem_map_of_mem mem
    | endpoint kind keyword signature => exact h.elim

theorem Filled.option_type (h : registry.Filled) {type : DeclaredType}
    (htype : type ∈ registry.types.declared) {option : UnionOption}
    (mem : option ∈ type.options) :
    option.type = registry.types.reference? option.designation := by
  have hbody := h.types type htype
  unfold DeclaredType.options at mem
  split at mem
  case h_1 recorded => exact hbody option mem
  case h_2 => cases mem

/-- After the references are filled in, all of them are settled. -/
theorem settled_linked (names : PlainNames declarations) (plain : PlainReferences declarations) :
    (ofDeclarations declarations).linked.Settled declarations := by
  have hsettles {reference : Designation}
      (hmem : reference ∈ (Document.kept declarations).flatMap Declaration.references) :=
    settles_reference? names plain hmem
  have hlinked := records_kept_linked declarations
  have hconsistent := consistent_linked declarations
  have hfilled := filled_linked (consistent_ofDeclarations declarations)
  generalize (ofDeclarations declarations).linked = registry at *
  have hwritten {type : DeclaredType} (htype : type ∈ registry.types.declared) :
      ∃ declaration ∈ Document.kept declarations, registry.RecordsType declaration type := by
    obtain ⟨declaration, hdeclaration, hrecords⟩ := exists_left_of_forall₂ hlinked.types htype
    exact ⟨declaration, List.mem_of_mem_filter hdeclaration, hrecords⟩
  refine ⟨?_, ?_, ?_, ?_⟩
  · intro type htype target aliased hbody
    obtain ⟨declaration, hdeclaration, hrecords⟩ := hwritten htype
    have hbodyFilled := hfilled.types type htype
    rw [hbody] at hbodyFilled
    rw [hbodyFilled]
    exact hsettles (List.mem_flatMap.mpr ⟨declaration, hdeclaration, hrecords.target_mem hbody⟩)
  · intro type htype option hoption
    obtain ⟨declaration, hdeclaration, hrecords⟩ := hwritten htype
    rw [hfilled.option_type htype hoption]
    exact hsettles (List.mem_flatMap.mpr ⟨declaration, hdeclaration, hrecords.option_mem hoption⟩)
  · intro node hnode
    obtain ⟨written, hmem, hrecords⟩ := exists_left_of_forall₂ hlinked.nodes hnode
    rw [hfilled.nodes node hnode, hrecords.designation]
    exact hsettles (Document.references_subset hmem
      (List.mem_append_right _ (List.mem_singleton.mpr rfl)))
  · intro parameter hparameter
    obtain ⟨entry, hentry, _, -, -, hrecords⟩ :=
      exists_left_of_forall₂ (hlinked.parameter_entries hconsistent) hparameter
    obtain ⟨written, hmem, hentry⟩ := List.mem_flatMap.mp hentry
    obtain ⟨name, hname, rfl⟩ := List.mem_map.mp hentry
    rw [hfilled.parameters parameter hparameter, hrecords.designation]
    exact hsettles (Document.references_subset hmem
      (List.mem_append_left _ (List.mem_map_of_mem hname)))

end Registry

end GraphSchema
