import GraphSchema.Proofs.Document.Accepted

/-!
# What a model says

The model of an accepted source text says what is written, and nothing else
(`SchemaModel.Describes`): each declaration is found by its name, with its members in the order in
which they are written; each reference has a type that is spelled like it; and the types are the
primitive ones, the declared ones and one container for each row of modifiers that ends a reference.
Since no two types are spelled alike, the type of a reference is determined by its spelling.

It follows from what the registry records (`Registry.Records`) and from what its references are
resolved to (`Registry.Resolved`): `Registry.Resolved.describes`.
-/

namespace GraphSchema

namespace SchemaModel

/-! ### Descriptions -/

/-- A reference has a type that is spelled like its designation. -/
def GivesType (model : SchemaModel) (reference : Designation) (type : Option TypeId) : Prop :=
  ∃ id, type = some id ∧ model.types.designation? id = some reference.canonical

/-- A parameter of a graph node is described as it is written. -/
structure DescribesParameter (model : SchemaModel) (target : NodeId) (written : TypedName)
    (parameter : Parameter) : Prop where
  target : parameter.target = target
  name : parameter.name = written.name.text
  position : parameter.position = written.name.start
  designation : parameter.designation = written.type.designation
  type : model.GivesType written.type.designation parameter.type

/-- A graph node is described as it is written, with its parameters in order. -/
structure DescribesNode (model : SchemaModel) (written : WrittenNode) (node : GraphNode) :
    Prop where
  found : model.node? node.id = some node
  place : written.place.Matches model.declared node.kind
  name : node.name = written.name.text
  graphName : node.graphName = written.graphName
  position : node.position = written.name.start
  designation : node.designation = written.type.designation
  type : model.GivesType written.type.designation node.type
  parameters : List.Forall₂ (fun parameter id => ∃ described, model.parameter? id = some described ∧
    model.DescribesParameter node.id parameter described) written.parameters node.parameters

/-- A member of a declared type is described as it is written. -/
def DescribesMember (model : SchemaModel) (written : WrittenNode) (id : NodeId) : Prop :=
  ∃ node, model.node? id = some node ∧ model.DescribesNode written node

/-- An option of a union is described as it is written. -/
structure DescribesOption (model : SchemaModel) (written : TypeReference) (option : UnionOption) :
    Prop where
  designation : option.designation = written.designation
  type : model.GivesType written.designation option.type

/-- What a declared type consists of is described as it is written, the members in order. -/
def DescribesBody (model : SchemaModel) (owner : Token) : Body → TypeBody → Prop
  | .enum values, body => body = .enum (values.map fun value => ⟨value.text, value.start⟩)
  | .union options, body => ∃ described, body = .union described ∧
      List.Forall₂ model.DescribesOption options described
  | .struct fields, body => ∃ ids, body = .struct ids ∧
      List.Forall₂ (fun field => model.DescribesMember (field.written owner)) fields ids
  | .resolver properties, body => ∃ ids, body = .resolver ids ∧
      List.Forall₂ (fun property => model.DescribesMember (property.written (.property owner)))
        properties ids

/-- A declared type is found by its name, and it is described as it is written.  An alias stands for
the type with the name of its target. -/
def DescribesType (model : SchemaModel) (declaration : Declaration) (type : DeclaredType) : Prop :=
  model.typeNamed? type.name = some (.declared type) ∧
    match declaration with
    | .typeAlias _ name _ target => type.name = name.text ∧ type.position = name.start ∧
        ∃ aliased, model.typeNamed? target.text = some aliased ∧
          type.body = .typeAlias target.bareDesignation (some aliased.id)
    | .block _ name _ body _ => type.name = name.text ∧ type.position = name.start ∧
        model.DescribesBody name body type.body
    | .endpoint _ _ _ => False

/-- A model says what a document says, and nothing else. -/
structure Describes (model : SchemaModel) (document : Document) : Prop where
  name : model.name = document.header.name.text
  position : model.position = document.header.name.start
  /-- The declared types are those that are written, in their order. -/
  declared : List.Forall₂ model.DescribesType
    (document.declarations.filter Declaration.declaresType) model.declared
  /-- The graph nodes are those that are written, in their order. -/
  nodes : List.Forall₂ model.DescribesNode
    (document.declarations.flatMap Declaration.writtenNodes) model.registry.nodes
  /-- There are no parameters but those of the graph nodes. -/
  parameters : model.registry.parameters.map Parameter.id =
    model.registry.nodes.flatMap GraphNode.parameters
  /-- A type is primitive, declared or a container. -/
  types : model.types.types = Primitive.all.map .primitive ++
    (model.declared.map .declared ++ model.types.containers.map .container)
  /-- A number stands for one type. -/
  numbers : ∀ type ∈ model.types.types, model.type? type.id = some type
  /-- No two types are spelled alike. -/
  spellings : (model.types.types.map SchemaType.designation).Nodup
  /-- There is a container for each row of modifiers that ends a reference, and no other. -/
  containers : ∀ text, (∃ container ∈ model.types.containers, container.designation = text) ↔
    ∃ reference ∈ document.declarations.flatMap Declaration.references, reference.HasPart text

end SchemaModel

namespace Registry

variable {registry : Registry} {declarations : List Declaration} {model : SchemaModel}

/-- No two types of a consistent table with plain names are spelled alike. -/
theorem designations_nodup (h : registry.Consistent) (plain : registry.types.Plain)
    (types : registry.types.types = Primitive.all.map .primitive ++
      (registry.types.declared.map .declared ++ registry.types.containers.map .container)) :
    (registry.types.types.map SchemaType.designation).Nodup := by
  have hprimitives : (Primitive.all.map SchemaType.primitive).filter
      (fun type => !type.isAnonymous) = Primitive.all.map SchemaType.primitive := by
    simp [List.filter_eq_self, SchemaType.isAnonymous]
  have hdeclared : (registry.types.declared.map SchemaType.declared).filter
      (fun type => !type.isAnonymous) = registry.types.declared.map SchemaType.declared := by
    simp [List.filter_eq_self, SchemaType.isAnonymous]
  have hcontainers : (registry.types.containers.map SchemaType.container).filter
      (fun type => !type.isAnonymous) = [] := by
    simp [SchemaType.isAnonymous]
  have hnamed : registry.types.named = Primitive.all.map .primitive ++
      registry.types.declared.map .declared := by
    rw [TypeTable.named, types, List.filter_append, List.filter_append, hprimitives, hdeclared,
      hcontainers, List.append_nil]
  rw [types, ← List.append_assoc, ← hnamed, List.map_append, List.nodup_append]
  refine ⟨h.types.names, ?_, ?_⟩
  · rw [List.map_map]
    exact h.types.spellings
  · -- a container begins with a modifier, and no name does
    intro name hname text htext hsame
    obtain ⟨type, htype, rfl⟩ := List.mem_map.mp hname
    obtain ⟨other, hother, rfl⟩ := List.mem_map.mp htext
    obtain ⟨container, hcontainer, rfl⟩ := List.mem_map.mp hother
    obtain ⟨modifiers, base, hne, -, -, hspelled⟩ := h.types.spelled hcontainer
    cases modifiers with
    | nil => exact hne rfl
    | cons modifier modifiers =>
      refine (plain type htype).ne_modifier modifier
        (Designation.spell modifiers base.designation) ?_
      rw [hsame]
      exact hspelled

/-! ### From resolved registries to descriptions -/

theorem Resolved.givesType (h : Resolved declarations model.registry) {reference : Designation}
    (hmem : reference ∈ declarations.flatMap Declaration.references) :
    model.GivesType reference (model.types.reference? reference) := by
  obtain ⟨base, type, -, htype, hreference, hspelled, -⟩ := h.reference?_spec hmem
  refine ⟨type.id, hreference, ?_⟩
  rw [← hspelled]
  exact h.consistent.types.designation?_id htype

theorem Resolved.describesParameter (h : Resolved declarations model.registry) {target : NodeId}
    {written : TypedName}
    (hmem : written.type.designation ∈ declarations.flatMap Declaration.references)
    {parameter : Parameter} (hparameter : parameter ∈ model.registry.parameters)
    (records : RecordsParameter target written parameter) :
    model.DescribesParameter target written parameter := by
  refine ⟨records.target, records.name, records.position, records.designation, ?_⟩
  rw [h.filled.parameters parameter hparameter, records.designation]
  exact h.givesType hmem

theorem Resolved.describesNode (h : Resolved declarations model.registry) {written : WrittenNode}
    (hmem : written ∈ declarations.flatMap Declaration.writtenNodes) {node : GraphNode}
    (hnode : node ∈ model.registry.nodes)
    (records : RecordsNode model.declared model.registry.parameters written node) :
    model.DescribesNode written node := by
  obtain ⟨declaration, hdeclaration, hwritten⟩ := List.mem_flatMap.mp hmem
  have hreferences : written.references ⊆ declarations.flatMap Declaration.references := by
    intro reference hreference
    exact List.mem_flatMap.mpr
      ⟨declaration, hdeclaration, Declaration.writtenNodes_references hwritten hreference⟩
  refine ⟨h.consistent.node?_eq_some_iff.mpr ⟨hnode, rfl⟩, records.place, records.name,
    records.graphName, records.position, records.designation, ?_, ?_⟩
  · rw [h.filled.nodes node hnode, records.designation]
    apply h.givesType
    apply hreferences
    exact List.mem_append_right _ (List.mem_singleton.mpr rfl)
  · refine forall₂_imp_of_mem records.parameters ?_
    rintro parameter hparameter id - ⟨recorded, hrecorded, hid, hrecords⟩
    refine ⟨recorded, h.consistent.parameter?_eq_some_iff.mpr ⟨hrecorded, hid⟩, ?_⟩
    refine h.describesParameter (hreferences ?_) hrecorded hrecords
    exact List.mem_append_left _ (List.mem_map_of_mem hparameter)

theorem Resolved.describesMember (h : Resolved declarations model.registry) {written : WrittenNode}
    (hmem : written ∈ declarations.flatMap Declaration.writtenNodes) {id : NodeId}
    (records : model.registry.RecordsMember written id) : model.DescribesMember written id := by
  obtain ⟨node, hnode, hid, hrecords⟩ := records
  exact ⟨node, h.consistent.node?_eq_some_iff.mpr ⟨hnode, hid⟩, h.describesNode hmem hnode hrecords⟩

theorem Resolved.describesBody (h : Resolved declarations model.registry)
    {keyword name opening closing : Token} {body : Body}
    (hmem : .block keyword name opening body closing ∈ declarations) {described : TypeBody}
    (records : model.registry.RecordsBody name body described)
    (filled : FilledBody model.types described) : model.DescribesBody name body described := by
  have hnodes : body.writtenNodes name ⊆ declarations.flatMap Declaration.writtenNodes := by
    intro written hwritten
    exact List.mem_flatMap.mpr ⟨_, hmem, hwritten⟩
  cases body with
  | enum values => exact records
  | union options =>
    obtain ⟨recorded, rfl, hdesignations⟩ := records
    refine ⟨recorded, rfl, ?_⟩
    refine forall₂_imp_of_mem (forall₂_of_map_eq_map hdesignations.symm) ?_
    intro option hoption other hother hsame
    refine ⟨hsame.symm, ?_⟩
    rw [filled other hother, ← hsame]
    apply h.givesType
    exact List.mem_flatMap.mpr ⟨_, hmem, List.mem_map_of_mem hoption⟩
  | struct fields =>
    obtain ⟨ids, rfl, hall⟩ := records
    refine ⟨ids, rfl, forall₂_imp_of_mem hall ?_⟩
    intro field hfield id _ hrecords
    exact h.describesMember (hnodes (List.mem_map_of_mem hfield)) hrecords
  | resolver properties =>
    obtain ⟨ids, rfl, hall⟩ := records
    refine ⟨ids, rfl, forall₂_imp_of_mem hall ?_⟩
    intro property hproperty id _ hrecords
    exact h.describesMember (hnodes (List.mem_map_of_mem hproperty)) hrecords

theorem Resolved.describesType (h : Resolved declarations model.registry)
    {declaration : Declaration} (hmem : declaration ∈ declarations) {type : DeclaredType}
    (htype : type ∈ model.declared) (records : model.registry.RecordsType declaration type) :
    model.DescribesType declaration type := by
  have hfilled := h.filled.types type htype
  refine ⟨?_, ?_⟩
  · refine h.consistent.types.named?_eq_some_iff.mpr ⟨TypeTable.mem_named.mpr ⟨?_, rfl⟩, rfl⟩
    exact TypeTable.declared_mem_types_iff.mpr htype
  · cases declaration with
    | typeAlias keyword name equals target =>
      obtain ⟨hname, hposition, aliased, hbody⟩ := records
      refine ⟨hname, hposition, ?_⟩
      rw [hbody] at hfilled
      have hreference : target.bareDesignation ∈ declarations.flatMap Declaration.references :=
        List.mem_flatMap.mpr ⟨_, hmem, List.mem_singleton.mpr rfl⟩
      obtain ⟨base, other, hbase, -, htarget, -, -, hsame, -⟩ := h.reference?_spec hreference
      -- without modifiers the reference is to the target itself
      rw [hsame rfl] at htarget
      refine ⟨base, hbase, ?_⟩
      rw [hbody, hfilled, htarget]
    | block keyword name opening body closing =>
      obtain ⟨hname, hposition, hbody⟩ := records
      exact ⟨hname, hposition, h.describesBody hmem hbody hfilled⟩
    | endpoint kind keyword signature => exact records

end Registry

/-- The model of a faultless document says what is written, and nothing else. -/
theorem Document.Faultless.describes {document : Document} (h : document.Faultless)
    (plain : Registry.PlainNames document.declarations) :
    (Schema.modelOf document).Describes document := by
  have hresolved : Registry.Resolved document.declarations (Schema.modelOf document).registry :=
    h.resolved plain
  have htypes := Registry.types_linked document.declarations
  refine ⟨rfl, rfl, ?_, ?_, hresolved.records.parameters, htypes, ?_, ?_, ?_⟩
  · refine forall₂_imp_of_mem hresolved.records.types ?_
    intro declaration hdeclaration type htype hrecords
    exact hresolved.describesType (List.mem_of_mem_filter hdeclaration) htype hrecords
  · refine forall₂_imp_of_mem hresolved.records.nodes ?_
    intro written hwritten node hnode hrecords
    exact hresolved.describesNode hwritten hnode hrecords
  · intro type htype
    exact hresolved.consistent.types.type?_id htype
  · exact Registry.designations_nodup hresolved.consistent hresolved.plain htypes
  · intro text
    constructor
    · rintro ⟨container, hcontainer, rfl⟩
      obtain ⟨reference, hreference, -, hpart⟩ := Registry.linked_containers
        (Registry.consistent_ofDeclarations document.declarations)
        (Registry.containers_ofDeclarations document.declarations) hcontainer
      refine ⟨reference, ?_, hpart⟩
      rw [← hresolved.records.references]
      exact hreference
    · rintro ⟨reference, hreference, hpart⟩
      exact hresolved.parts reference hreference text hpart

namespace Schema

/-- The model of an accepted source text says what its document says, and nothing else. -/
theorem check_describes {file : Path} {source : String} {model : SchemaModel}
    (accepted : (check file source).model = .ok model) :
    ∃ document, (stream file source).Spells document ∧ model.Describes document := by
  obtain ⟨document, hspells, hfaultless, rfl⟩ := check_eq_ok_iff.mp accepted
  exact ⟨document, hspells, hfaultless.describes hspells.plainNames⟩

/-- A query may refer to a struct that is declared after it. -/
theorem check_describes_forward : ∃ model document,
    (check default "schema shop query item ?Item struct Item \x7b tags []String \x7d").model =
      .ok model ∧
    (stream default "schema shop query item ?Item struct Item \x7b tags []String \x7d").Spells
      document ∧
    model.Describes document := by
  cases haccepted : (check default
      "schema shop query item ?Item struct Item \x7b tags []String \x7d").model with
  | ok model =>
    obtain ⟨document, hspells, hdescribes⟩ := check_describes haccepted
    exact ⟨model, document, rfl, hspells, hdescribes⟩
  | error diagnostics =>
    have hnone : (check default
        "schema shop query item ?Item struct Item \x7b tags []String \x7d").model.toOption.isNone =
        false := by
      decide +kernel
    rw [haccepted] at hnone
    cases hnone

end Schema

end GraphSchema
