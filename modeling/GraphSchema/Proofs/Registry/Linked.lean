import GraphSchema.Proofs.Registry.Recording
import GraphSchema.Proofs.Types.Spelling

/-!
# Linked registries

Linking fills in the type of every reference and changes nothing else: what was recorded stays
recorded (`Registry.Records.linked`), and every reference has the type that its designation refers
to in the linked table (`Registry.Filled`, `Registry.filled_linked`).  The containers of the linked
table are those that the references need (`Registry.linked_parts`, `Registry.linked_containers`).
-/

namespace GraphSchema

namespace TypeTable

variable {table : TypeTable}

/-- A declared type with its references filled in. -/
def linkDeclared (table : TypeTable) (type : DeclaredType) : DeclaredType :=
  { type with body := Registry.linkBody table type.body }

theorem declared_link : table.link.declared = table.declared.map table.linkDeclared := by
  unfold declared link
  rw [List.filterMap_map, List.map_filterMap]
  congr 1
  funext type
  cases type <;> rfl

theorem named?_link (h : table.Consistent) (name : String) :
    table.link.named? name = (table.named? name).map (Registry.linkType table) := by
  cases hfound : table.named? name with
  | some type =>
    obtain ⟨hnamed, hname⟩ := h.named?_eq_some_iff.mp hfound
    rw [Option.map_some, h.link.named?_eq_some_iff, named_link]
    exact ⟨List.mem_map_of_mem hnamed, by rw [Registry.linkType_designation, hname]⟩
  | none =>
    rw [Option.map_none, named?_eq_find?, List.find?_eq_none, named_link]
    intro type htype hname
    obtain ⟨other, hother, rfl⟩ := List.mem_map.mp htype
    rw [Registry.linkType_designation] at hname
    have hsome := h.named?_eq_some_iff.mpr ⟨hother, beq_iff_eq.mp hname⟩
    rw [hfound] at hsome
    cases hsome

theorem reference?_link (h : table.Consistent) (designation : Designation) :
    table.link.reference? designation = table.reference? designation := by
  unfold reference?
  split
  · rw [named?_link h, Option.map_map]
    congr 1
    funext type
    exact Registry.linkType_id table type
  · rw [anonymous?, containers_link, anonymous?]

end TypeTable

namespace Registry

variable {registry : Registry} {declarations : List Declaration}

/-! ### What was recorded stays recorded -/

theorem linked_nodes (registry : Registry) :
    registry.linked.nodes = registry.nodes.map fun node =>
      { node with
        type := (registry.types.resolveAll registry.references).reference? node.designation } :=
  rfl

theorem linked_parameters (registry : Registry) :
    registry.linked.parameters = registry.parameters.map fun parameter =>
      { parameter with
        type :=
          (registry.types.resolveAll registry.references).reference? parameter.designation } :=
  rfl

theorem linked_declared (h : registry.Consistent) :
    registry.linked.types.declared = registry.types.declared.map
      (registry.types.resolveAll registry.references).linkDeclared := by
  rw [linked_types, TypeTable.declared_link, (h.types.resolveAll _).2.1.declared_eq]

theorem NodePlace.Matches.link {types : List DeclaredType} {place : NodePlace} {kind : NodeKind}
    (h : place.Matches types kind) (table : TypeTable) :
    place.Matches (types.map table.linkDeclared) kind := by
  cases place with
  | field owner =>
    obtain ⟨type, hmem, hname, hkind⟩ := h
    exact ⟨table.linkDeclared type, List.mem_map_of_mem hmem, hname, hkind⟩
  | property owner =>
    obtain ⟨type, hmem, hname, hkind⟩ := h
    exact ⟨table.linkDeclared type, List.mem_map_of_mem hmem, hname, hkind⟩
  | endpoint sort => exact h

theorem recordsNode_linked (consistent : registry.Consistent) {written : WrittenNode}
    {node : GraphNode} (h : RecordsNode registry.types.declared registry.parameters written node)
    (type : Option TypeId) :
    RecordsNode registry.linked.types.declared registry.linked.parameters written
      { node with type } := by
  refine ⟨?_, h.name, h.graphName, h.position, h.designation, ?_⟩
  · rw [linked_declared consistent]
    exact NodePlace.Matches.link h.place _
  · refine h.parameters.imp ?_
    rintro parameter id ⟨recorded, hmem, hid, hrecords⟩
    rw [linked_parameters]
    exact ⟨_, List.mem_map_of_mem hmem, hid, hrecords.target, hrecords.name, hrecords.position,
      hrecords.designation⟩

theorem RecordsMember.linked (consistent : registry.Consistent) {written : WrittenNode}
    {id : NodeId} (h : registry.RecordsMember written id) :
    registry.linked.RecordsMember written id := by
  obtain ⟨node, hmem, hid, hrecords⟩ := h
  rw [RecordsMember, linked_nodes]
  exact ⟨_, List.mem_map_of_mem hmem, hid, recordsNode_linked consistent hrecords _⟩

theorem RecordsBody.linked (consistent : registry.Consistent) {owner : Token} {body : Body}
    {recorded : TypeBody} (h : registry.RecordsBody owner body recorded) (table : TypeTable) :
    registry.linked.RecordsBody owner body (linkBody table recorded) := by
  cases body with
  | enum values =>
    obtain rfl : recorded = _ := h
    rfl
  | union options =>
    obtain ⟨others, rfl, hdesignations⟩ := h
    refine ⟨_, rfl, ?_⟩
    rw [List.map_map]
    exact hdesignations
  | struct fields =>
    obtain ⟨ids, rfl, hall⟩ := h
    exact ⟨ids, rfl, hall.imp fun _ _ hmember => hmember.linked consistent⟩
  | resolver properties =>
    obtain ⟨ids, rfl, hall⟩ := h
    exact ⟨ids, rfl, hall.imp fun _ _ hmember => hmember.linked consistent⟩

theorem RecordsType.linked (consistent : registry.Consistent) {declaration : Declaration}
    {type : DeclaredType} (h : registry.RecordsType declaration type) (table : TypeTable) :
    registry.linked.RecordsType declaration (table.linkDeclared type) := by
  cases declaration with
  | typeAlias keyword name equals target =>
    obtain ⟨hname, hposition, aliased, hbody⟩ := h
    refine ⟨hname, hposition, table.reference? target.bareDesignation, ?_⟩
    rw [TypeTable.linkDeclared, hbody]
    rfl
  | block keyword name opening body closing =>
    obtain ⟨hname, hposition, hbody⟩ := h
    exact ⟨hname, hposition, hbody.linked consistent table⟩
  | endpoint kind keyword signature => exact h

/-- What was recorded stays recorded. -/
theorem Records.linked (h : Records declarations registry) (consistent : registry.Consistent) :
    Records declarations registry.linked := by
  refine ⟨?_, ?_, ?_, h.references⟩
  · rw [linked_declared consistent, List.forall₂_map_right_iff]
    exact h.types.imp fun _ _ hold => hold.linked consistent _
  · rw [linked_nodes, List.forall₂_map_right_iff]
    exact h.nodes.imp fun _ _ hold => recordsNode_linked consistent hold _
  · rw [linked_parameters, linked_nodes, List.map_map, List.flatMap_map]
    exact h.parameters

/-! ### What is filled in -/

/-- The references inside a declared type have their types. -/
def FilledBody (types : TypeTable) : TypeBody → Prop
  | .typeAlias target aliased => aliased = types.reference? target
  | .union options => ∀ option ∈ options, option.type = types.reference? option.designation
  | _ => True

/-- Every reference has the type that its designation refers to. -/
structure Filled (registry : Registry) : Prop where
  types : ∀ type ∈ registry.types.declared, FilledBody registry.types type.body
  nodes : ∀ node ∈ registry.nodes, node.type = registry.types.reference? node.designation
  parameters : ∀ parameter ∈ registry.parameters,
    parameter.type = registry.types.reference? parameter.designation

theorem filled_linked (h : registry.Consistent) : registry.linked.Filled := by
  have hresolved := (h.types.resolveAll registry.references).1
  have hsame (designation : Designation) : registry.linked.types.reference? designation =
      (registry.types.resolveAll registry.references).reference? designation :=
    TypeTable.reference?_link hresolved designation
  refine ⟨?_, ?_, ?_⟩
  · intro type htype
    rw [linked_declared h] at htype
    obtain ⟨other, -, rfl⟩ := List.mem_map.mp htype
    unfold TypeTable.linkDeclared
    dsimp only
    cases other.body with
    | typeAlias target aliased => exact (hsame target).symm
    | enum values => trivial
    | union options =>
      intro option hoption
      obtain ⟨unfilled, -, rfl⟩ := List.mem_map.mp hoption
      exact (hsame unfilled.designation).symm
    | struct fields => trivial
    | resolver properties => trivial
  · intro node hnode
    rw [linked_nodes] at hnode
    obtain ⟨other, -, rfl⟩ := List.mem_map.mp hnode
    exact (hsame other.designation).symm
  · intro parameter hparameter
    rw [linked_parameters] at hparameter
    obtain ⟨other, -, rfl⟩ := List.mem_map.mp hparameter
    exact (hsame other.designation).symm

/-! ### Resolved references -/

/-- All names of types are plain. -/
def PlainNames (declarations : List Declaration) : Prop :=
  ∀ name ∈ Document.typeNames declarations, PlainName name

theorem plain_primitive (primitive : Primitive) : PlainName primitive.name := by
  cases primitive <;> exact ⟨_, _, rfl, by decide, by decide⟩

/-- The names of the linked table are those of primitive types and those that are written. -/
theorem Records.mem_named (h : Records declarations registry) {type : SchemaType}
    (htype : type ∈ registry.types.named) :
    (∃ primitive, type = .primitive primitive) ∨
      ∃ declared ∈ registry.types.declared, type = .declared declared ∧
        type.designation ∈ Document.typeNames declarations := by
  obtain ⟨hmem, hanonymous⟩ := TypeTable.mem_named.mp htype
  cases type with
  | primitive primitive => exact .inl ⟨primitive, rfl⟩
  | declared declared =>
    have hdeclared := TypeTable.declared_mem_types_iff.mp hmem
    refine .inr ⟨declared, hdeclared, rfl, ?_⟩
    rw [← h.declared_names]
    exact List.mem_map_of_mem hdeclared
  | container container => cases hanonymous

theorem Records.plain (h : Records declarations registry) (plain : PlainNames declarations) :
    registry.types.Plain := by
  intro type htype
  rcases h.mem_named htype with ⟨primitive, rfl⟩ | ⟨declared, -, -, hname⟩
  · exact plain_primitive primitive
  · exact plain _ hname

/-- For every part of a reference with a declared name there is a container. -/
theorem linked_parts (h : registry.Consistent) {designation : Designation}
    (hmem : designation ∈ registry.references)
    (known : (registry.linked.types.named? designation.terminal).isSome) {text : String}
    (part : designation.HasPart text) :
    ∃ container ∈ registry.linked.types.containers, container.designation = text := by
  obtain ⟨hresolved, hextends, hparts, -⟩ := h.types.resolveAll registry.references
  rw [linked_types, TypeTable.named?_link hresolved, hextends.named?_eq, Option.isSome_map] at known
  rw [linked_types, TypeTable.containers_link]
  exact hparts designation hmem known text part

/-- The containers of a linked registry are parts of its references. -/
theorem linked_containers (h : registry.Consistent) (fresh : registry.types.containers = [])
    {container : Container} (hmem : container ∈ registry.linked.types.containers) :
    ∃ designation ∈ registry.references,
      (registry.linked.types.named? designation.terminal).isSome ∧
        designation.HasPart container.designation := by
  obtain ⟨hresolved, hextends, -, honly⟩ := h.types.resolveAll registry.references
  rw [linked_types, TypeTable.containers_link] at hmem
  rcases honly container hmem with hold | ⟨designation, hdesignation, known, part⟩
  · rw [fresh] at hold
    cases hold
  · refine ⟨designation, hdesignation, ?_, part⟩
    rw [linked_types, TypeTable.named?_link hresolved, hextends.named?_eq, Option.isSome_map]
    exact known

end Registry

end GraphSchema
