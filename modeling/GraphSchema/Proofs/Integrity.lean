import GraphSchema.Model.Export
import GraphSchema.Proofs.Fidelity
import GraphSchema.Proofs.Registry.Members

/-!
# Referential integrity

In an accepted model every reference leads somewhere (`SchemaModel.Intact`): the types of aliases,
options, graph nodes and parameters are types of the model, every number in a category or in a list
of members or parameters is found, and these lists agree with the parents and targets that members
and parameters name.  So no look-up fails, and nothing is missing in the export
(`SchemaModel.Complete`).

A model is intact because it describes what is written (`SchemaModel.Describes`) and members and
parents agree in every registry (`Registry.Parented`): `Document.Faultless.intact`.
-/

namespace GraphSchema

/-! ### Nulls -/

namespace Json

/-- A value occurs in another one, at any depth. -/
inductive Within (value : Json) : Json → Prop where
  | self : Within value value
  | item {items : List Json} {item : Json} : item ∈ items → Within value item →
      Within value (.array items)
  | member {members : List (String × Json)} {member : String × Json} : member ∈ members →
      Within value member.2 → Within value (.object members)

/-- There is no null in the value. -/
def NullFree (value : Json) : Prop :=
  ¬ Within .null value

@[simp]
theorem nullFree_number (number : Nat) : NullFree (.number number) := by
  intro h
  cases h

@[simp]
theorem nullFree_string (text : String) : NullFree (.string text) := by
  intro h
  cases h

@[simp]
theorem nullFree_object_nil : NullFree (.object []) := by
  intro h
  cases h with
  | member hmem => cases hmem

@[simp]
theorem nullFree_object_cons {member : String × Json} {members : List (String × Json)} :
    NullFree (.object (member :: members)) ↔ member.2.NullFree ∧ NullFree (.object members) := by
  constructor
  · intro h
    refine ⟨fun hfirst => h (.member List.mem_cons_self hfirst), fun hrest => ?_⟩
    cases hrest with
    | member hmem hmember => exact h (.member (List.mem_cons_of_mem _ hmem) hmember)
  · rintro ⟨hfirst, hrest⟩ hwithin
    cases hwithin with
    | member hmem hmember =>
      rcases List.mem_cons.mp hmem with rfl | hmem
      · exact hfirst hmember
      · exact hrest (.member hmem hmember)

@[simp]
theorem nullFree_array_map {α : Type} {entries : List α} {json : α → Json} :
    NullFree (.array (entries.map json)) ↔ ∀ entry ∈ entries, (json entry).NullFree := by
  constructor
  · exact fun h entry hentry hnull => h (.item (List.mem_map_of_mem hentry) hnull)
  · intro h hwithin
    cases hwithin with
    | item hmem hitem =>
      obtain ⟨entry, hentry, rfl⟩ := List.mem_map.mp hmem
      exact h entry hentry hitem

end Json

namespace SchemaModel

variable {model : SchemaModel}

/-! ### Intact models -/

/-- A reference is resolved to a type of the model. -/
def Knows (model : SchemaModel) (type : Option TypeId) : Prop :=
  ∃ id found, type = some id ∧ model.type? id = some found

/-- The members of a type are the graph nodes whose parent it is, in the order of their numbers, and
they are of the kind that the type asks for. -/
structure ListsMembers (model : SchemaModel) (parent : TypeId) (kind : NodeKind)
    (ids : List NodeId) : Prop where
  mem_iff : ∀ id, id ∈ ids ↔
    ∃ node, model.node? id = some node ∧ node.kind.parent? = some parent
  kinds : ∀ id ∈ ids, ∃ node, model.node? id = some node ∧ node.kind = kind
  ascending : ids.Pairwise fun id other => id.number < other.number

/-- Every reference of a model leads to something in the model. -/
structure Intact (model : SchemaModel) : Prop where
  aliased : ∀ type ∈ model.declared, ∀ target aliased, type.body = .typeAlias target aliased →
    model.Knows aliased
  options : ∀ type ∈ model.declared, ∀ option ∈ type.options, model.Knows option.type
  nodeTypes : ∀ node ∈ model.registry.nodes, model.Knows node.type
  parameterTypes : ∀ parameter ∈ model.registry.parameters, model.Knows parameter.type
  /-- Aliases, enums, unions, structs and resolvers are found by their numbers. -/
  categories : ∀ select, ∀ type ∈ model.declaredOf select,
    model.type? type.id = some (.declared type)
  containers : ∀ container ∈ model.containers,
    model.type? container.id = some (.container container)
  nodes : ∀ node ∈ model.nodes ++ model.queries ++ model.mutations,
    model.node? node.id = some node
  fields : ∀ type ∈ model.declared, ∀ ids, type.body = .struct ids →
    model.ListsMembers type.id (.structField type.id) ids
  properties : ∀ type ∈ model.declared, ∀ ids, type.body = .resolver ids →
    model.ListsMembers type.id (.resolverProperty type.id) ids
  /-- A parent is a type that lists the graph node. -/
  parents : ∀ node ∈ model.registry.nodes, ∀ parent, node.kind.parent? = some parent →
    ∃ type, model.type? parent = some (.declared type) ∧ node.id ∈ type.members
  listed : ∀ node ∈ model.registry.nodes, ∀ id ∈ node.parameters,
    ∃ parameter, model.parameter? id = some parameter ∧ parameter.target = node.id
  /-- A parameter is listed once, by its target and by no other graph node. -/
  owners : ∀ parameter ∈ model.registry.parameters, ∃ node,
    model.node? parameter.target = some node ∧ node.isField = false ∧
      node.parameters.count parameter.id = 1 ∧
      ∀ other ∈ model.registry.nodes, parameter.id ∈ other.parameters → other = node

/-- No look-up that starts from a model fails, and its export has no gap. -/
structure Complete (model : SchemaModel) : Prop where
  nodeType : ∀ node ∈ model.registry.nodes, (node.type.bind model.type?).isSome
  parameterType : ∀ parameter ∈ model.registry.parameters, (parameter.type.bind model.type?).isSome
  /-- No option of a union, no field or property and no parameter is passed over. -/
  options : ∀ type ∈ model.declared,
    (type.options.filterMap UnionOption.type).map some = type.options.map UnionOption.type
  members : ∀ type ∈ model.declared, (model.nodesOf type.members).map GraphNode.id = type.members
  parameters : ∀ node ∈ model.registry.nodes,
    (model.parametersOf node).map Parameter.id = node.parameters
  exported : model.json.NullFree

/-! ### Categories -/

theorem mem_sortedBy {α : Type} {key : α → String} {entries : List α} {entry : α} :
    entry ∈ sortedBy key entries ↔ entry ∈ entries :=
  List.mem_mergeSort

theorem mem_declaredOf {select : TypeBody → Bool} {type : DeclaredType} :
    type ∈ model.declaredOf select ↔ type ∈ model.declared ∧ select type.body = true := by
  rw [declaredOf, mem_sortedBy, List.mem_filter]

theorem mem_nodes_of_mem_endpoints {node : GraphNode}
    (h : node ∈ model.nodes ++ model.queries ++ model.mutations) : node ∈ model.registry.nodes := by
  rw [List.mem_append, List.mem_append, nodes, queries, mutations, mem_sortedBy, mem_sortedBy,
    mem_sortedBy] at h
  rcases h with (h | h) | h
  · exact h
  · exact List.mem_of_mem_filter h
  · exact List.mem_of_mem_filter h

/-! ### What is described is intact -/

variable {document : Document}

theorem GivesType.knows {reference : Designation} {type : Option TypeId}
    (h : model.GivesType reference type) : model.Knows type := by
  obtain ⟨id, htype, hdesignation⟩ := h
  rw [TypeTable.designation?, Option.map_eq_some_iff] at hdesignation
  obtain ⟨found, hfound, -⟩ := hdesignation
  exact ⟨id, found, htype, hfound⟩

/-- A designation is written in a document, and a model gives it a type. -/
structure Resolves (model : SchemaModel) (document : Document) (reference : Designation)
    (type : Option TypeId) : Prop where
  written : reference ∈ document.declarations.flatMap Declaration.references
  type : model.GivesType reference type

theorem Describes.aliased (h : model.Describes document)
    (consistent : model.registry.Consistent) {type : DeclaredType} (htype : type ∈ model.declared)
    {target : Designation} {aliased : Option TypeId}
    (body : type.body = .typeAlias target aliased) : model.Resolves document target aliased := by
  obtain ⟨declaration, hmem, -, hdescribes⟩ := exists_left_of_forall₂ h.declared htype
  cases declaration with
  | typeAlias keyword name equals token =>
    obtain ⟨-, -, found, hfound, hbody⟩ := hdescribes
    rw [body] at hbody
    obtain ⟨rfl, rfl⟩ := TypeBody.typeAlias.inj hbody
    obtain ⟨hnamed, hname⟩ := consistent.types.named?_eq_some_iff.mp hfound
    have hdesignation := consistent.types.designation?_id (TypeTable.mem_named.mp hnamed).1
    rw [hname] at hdesignation
    exact ⟨List.mem_flatMap.mpr ⟨_, List.mem_of_mem_filter hmem, List.mem_cons_self⟩, found.id,
      rfl, hdesignation⟩
  | block keyword name opening members closing =>
    obtain ⟨-, -, hbody⟩ := hdescribes
    rw [body] at hbody
    cases members with
    | enum values => cases hbody
    | union options =>
      obtain ⟨_, hunion, -⟩ := hbody
      cases hunion
    | struct fields =>
      obtain ⟨_, hstruct, -⟩ := hbody
      cases hstruct
    | resolver properties =>
      obtain ⟨_, hresolver, -⟩ := hbody
      cases hresolver
  | endpoint kind keyword signature => exact hdescribes.elim

theorem Describes.options (h : model.Describes document) {type : DeclaredType}
    (htype : type ∈ model.declared) {option : UnionOption} (hoption : option ∈ type.options) :
    model.Resolves document option.designation option.type := by
  obtain ⟨declaration, hmem, -, hdescribes⟩ := exists_left_of_forall₂ h.declared htype
  obtain ⟨id, label, position, body⟩ := type
  cases declaration with
  | typeAlias keyword name equals token =>
    obtain ⟨-, -, found, -, rfl⟩ := hdescribes
    cases hoption
  | block keyword name opening members closing =>
    obtain ⟨-, -, hbody⟩ := hdescribes
    cases members with
    | enum values =>
      obtain rfl : body = _ := hbody
      cases hoption
    | union options =>
      obtain ⟨described, rfl, hall⟩ := hbody
      obtain ⟨written, hwritten, hdescribed⟩ := exists_left_of_forall₂ hall hoption
      rw [hdescribed.designation]
      refine ⟨List.mem_flatMap.mpr ⟨_, List.mem_of_mem_filter hmem, ?_⟩, hdescribed.type⟩
      exact List.mem_map_of_mem hwritten
    | struct fields =>
      obtain ⟨_, rfl, -⟩ := hbody
      cases hoption
    | resolver properties =>
      obtain ⟨_, rfl, -⟩ := hbody
      cases hoption
  | endpoint kind keyword signature => exact hdescribes.elim

theorem Describes.nodeTypes (h : model.Describes document) {node : GraphNode}
    (hnode : node ∈ model.registry.nodes) :
    model.Resolves document node.designation node.type := by
  obtain ⟨written, hwritten, hdescribed⟩ := exists_left_of_forall₂ h.nodes hnode
  rw [hdescribed.designation]
  refine ⟨Document.references_subset hwritten ?_, hdescribed.type⟩
  exact List.mem_append_right _ (List.mem_singleton.mpr rfl)

theorem Describes.parameterTypes (h : model.Describes document)
    (consistent : model.registry.Consistent) {parameter : Parameter}
    (hparameter : parameter ∈ model.registry.parameters) :
    model.Resolves document parameter.designation parameter.type := by
  have hid := List.mem_map_of_mem (f := Parameter.id) hparameter
  rw [h.parameters] at hid
  obtain ⟨node, hnode, hlisted⟩ := List.mem_flatMap.mp hid
  obtain ⟨written, hwritten, hnodeDescribed⟩ := exists_left_of_forall₂ h.nodes hnode
  obtain ⟨entry, hentry, described, hfound, hdescribed⟩ :=
    exists_left_of_forall₂ hnodeDescribed.parameters hlisted
  obtain ⟨hmem, hsame⟩ := consistent.parameter?_eq_some_iff.mp hfound
  obtain rfl := eq_of_key_eq consistent.parameter_ids hmem hparameter hsame
  rw [hdescribed.designation]
  refine ⟨Document.references_subset hwritten ?_, hdescribed.type⟩
  exact List.mem_append_left _ (List.mem_map_of_mem hentry)

/-- Members are listed in the order of their numbers, as graph nodes are. -/
theorem ascending_childrenOf (consistent : model.registry.Consistent) (parent : TypeId) :
    ((model.registry.childrenOf parent).map GraphNode.id).Pairwise
      fun id other => id.number < other.number := by
  have hall := ascending_of_numbered (fun _ => rfl : ∀ n, (NodeId.mk n).number = n)
    consistent.nodes
  exact List.pairwise_map.mpr (hall.sublist List.filter_sublist)

theorem listsMembers (parented : model.registry.Parented)
    (consistent : model.registry.Consistent) {type : DeclaredType} (htype : type ∈ model.declared)
    {kind : NodeKind} (hkind : type.memberKind? = some kind) :
    model.ListsMembers type.id kind type.members := by
  have hmembers := parented.members type htype
  refine ⟨?_, ?_, ?_⟩
  · intro id
    rw [hmembers, List.mem_map]
    constructor
    · rintro ⟨node, hchild, rfl⟩
      obtain ⟨hnode, hparent⟩ := Registry.mem_childrenOf.mp hchild
      exact ⟨node, consistent.node?_eq_some_iff.mpr ⟨hnode, rfl⟩, hparent⟩
    · rintro ⟨node, hfound, hparent⟩
      obtain ⟨hnode, hid⟩ := consistent.node?_eq_some_iff.mp hfound
      exact ⟨node, Registry.mem_childrenOf.mpr ⟨hnode, hparent⟩, hid⟩
  · intro id hid
    rw [hmembers, List.mem_map] at hid
    obtain ⟨node, hchild, rfl⟩ := hid
    obtain ⟨hnode, hparent⟩ := Registry.mem_childrenOf.mp hchild
    refine ⟨node, consistent.node?_eq_some_iff.mpr ⟨hnode, rfl⟩, ?_⟩
    -- the parent is the type itself, so the kinds are the same
    obtain ⟨other, hother, hsame, hothers⟩ := parented.parents node hnode _ hparent
    obtain rfl : other = type := by
      have hids := consistent.types.ids
      have := eq_of_key_eq hids (TypeTable.declared_mem_types_iff.mpr hother)
        (TypeTable.declared_mem_types_iff.mpr htype) hsame
      exact SchemaType.declared.inj this
    exact Option.some.inj (hothers.symm.trans hkind)
  · rw [hmembers]
    exact ascending_childrenOf consistent type.id

/-- A model that describes a document, with members that agree with their parents, is intact. -/
theorem Describes.intact (h : model.Describes document) (parented : model.registry.Parented)
    (resolved : Registry.Resolved document.declarations model.registry) : model.Intact := by
  have hconsistent := resolved.consistent
  refine ⟨?_, ?_, ?_, ?_, ?_, ?_, ?_, ?_, ?_, ?_, ?_, ?_⟩
  · exact fun type htype target aliased body => (h.aliased hconsistent htype body).type.knows
  · exact fun type htype option hoption => (h.options htype hoption).type.knows
  · exact fun node hnode => (h.nodeTypes hnode).type.knows
  · exact fun parameter hparameter => (h.parameterTypes hconsistent hparameter).type.knows
  · intro select type htype
    have hmem := TypeTable.declared_mem_types_iff.mpr (mem_declaredOf.mp htype).1
    exact hconsistent.types.type?_id hmem
  · intro container hcontainer
    exact hconsistent.types.type?_id (TypeTable.container_mem_types (mem_sortedBy.mp hcontainer))
  · intro node hnode
    exact hconsistent.node?_eq_some_iff.mpr ⟨mem_nodes_of_mem_endpoints hnode, rfl⟩
  · rintro ⟨id, name, position, body⟩ htype ids rfl
    exact listsMembers parented hconsistent htype rfl
  · rintro ⟨id, name, position, body⟩ htype ids rfl
    exact listsMembers parented hconsistent htype rfl
  · intro node hnode parent hparent
    obtain ⟨type, htype, rfl, hkind⟩ := parented.parents node hnode parent hparent
    refine ⟨type, hconsistent.types.type?_id (TypeTable.declared_mem_types_iff.mpr htype), ?_⟩
    rw [parented.members type htype]
    exact List.mem_map_of_mem (Registry.mem_childrenOf.mpr ⟨hnode, hparent⟩)
  · intro node hnode id hid
    obtain ⟨-, parameter, hparameter, hsame, htarget⟩ := resolved.records.listed hnode hid
    exact ⟨parameter, hconsistent.parameter?_eq_some_iff.mpr ⟨hparameter, hsame⟩, htarget⟩
  · intro parameter hparameter
    obtain ⟨node, hnode, htarget, hfield, hlisted, hunique⟩ :=
      resolved.records.exists_owner hconsistent hparameter
    refine ⟨node, hconsistent.node?_eq_some_iff.mpr ⟨hnode, htarget⟩, hfield, ?_, hunique⟩
    -- no number is given to two parameters
    have hdistinct := hconsistent.parameter_ids
    rw [h.parameters] at hdistinct
    exact List.count_eq_one_of_mem ((List.nodup_flatMap.mp hdistinct).1 node hnode) hlisted

/-! ### Look-ups -/

theorem Knows.isSome {type : Option TypeId} (h : model.Knows type) :
    (type.bind model.type?).isSome := by
  obtain ⟨id, found, rfl, hfound⟩ := h
  rw [Option.bind_some, hfound]
  rfl

/-- Looking up numbers that are all found gives an entry for each. -/
theorem map_filterMap_of_found {α κ : Type} {find? : κ → Option α} {key : α → κ} {ids : List κ}
    (h : ∀ id ∈ ids, ∃ entry, find? id = some entry ∧ key entry = id) :
    (ids.filterMap find?).map key = ids := by
  induction ids with
  | nil => rfl
  | cons id ids ih =>
    obtain ⟨entry, hentry, hkey⟩ := h id List.mem_cons_self
    rw [List.filterMap_cons_some hentry, List.map_cons, hkey,
      ih fun other hother => h other (List.mem_cons_of_mem _ hother)]

theorem node?_id {id : NodeId} {node : GraphNode} (h : model.node? id = some node) :
    node.id = id := by
  simpa using List.find?_some h

theorem parameter?_id {id : ParameterId} {parameter : Parameter}
    (h : model.parameter? id = some parameter) : parameter.id = id := by
  simpa using List.find?_some h

theorem Intact.nodesOf (h : model.Intact) {type : DeclaredType} (htype : type ∈ model.declared) :
    (model.nodesOf type.members).map GraphNode.id = type.members := by
  refine map_filterMap_of_found fun id hid => ?_
  have hfound : ∃ node, model.node? id = some node := by
    obtain ⟨number, name, position, body⟩ := type
    cases body with
    | struct fields =>
      obtain ⟨node, hnode, -⟩ := (h.fields _ htype fields rfl).kinds id hid
      exact ⟨node, hnode⟩
    | resolver properties =>
      obtain ⟨node, hnode, -⟩ := (h.properties _ htype properties rfl).kinds id hid
      exact ⟨node, hnode⟩
    | typeAlias target aliased => cases hid
    | enum values => cases hid
    | union options => cases hid
  obtain ⟨node, hnode⟩ := hfound
  exact ⟨node, hnode, node?_id hnode⟩

theorem Intact.parametersOf (h : model.Intact) {node : GraphNode}
    (hnode : node ∈ model.registry.nodes) :
    (model.parametersOf node).map Parameter.id = node.parameters := by
  refine map_filterMap_of_found fun id hid => ?_
  obtain ⟨parameter, hparameter, -⟩ := h.listed node hnode id hid
  exact ⟨parameter, hparameter, parameter?_id hparameter⟩

theorem Intact.optionTypes (h : model.Intact) {type : DeclaredType}
    (htype : type ∈ model.declared) :
    (type.options.filterMap UnionOption.type).map some = type.options.map UnionOption.type := by
  have hall := h.options type htype
  generalize type.options = options at hall
  induction options with
  | nil => rfl
  | cons option options ih =>
    obtain ⟨id, -, hid, -⟩ := hall option List.mem_cons_self
    rw [List.filterMap_cons_some hid, List.map_cons, List.map_cons, hid,
      ih fun other hother => hall other (List.mem_cons_of_mem _ hother)]

/-! ### The export -/

open Json

theorem Knows.nullFree {type : Option TypeId} (h : model.Knows type) :
    (typeJson type).NullFree := by
  obtain ⟨id, found, rfl, -⟩ := h
  exact nullFree_number id.number

@[simp]
theorem nullFree_declaredJson {type : DeclaredType} {label : String} {content : Json} :
    (declaredJson type label content).NullFree ↔ content.NullFree := by
  simp [declaredJson]

theorem Intact.nullFree_parameterJson (h : model.Intact) {parameter : Parameter}
    (hparameter : parameter ∈ model.registry.parameters) : (parameterJson parameter).NullFree := by
  simp [parameterJson, (h.parameterTypes parameter hparameter).nullFree]

theorem Intact.nullFree_nodeJson (h : model.Intact) {node : GraphNode}
    (hnode : node ∈ model.registry.nodes) : (model.nodeJson node).NullFree := by
  have hparameters : ∀ parameter ∈ model.parametersOf node, (parameterJson parameter).NullFree := by
    intro parameter hparameter
    obtain ⟨id, -, hfound⟩ := List.mem_filterMap.mp hparameter
    exact h.nullFree_parameterJson (List.mem_of_find?_eq_some hfound)
  unfold nodeJson
  split
  · simp [(h.nodeTypes node hnode).nullFree]
  · simpa [(h.nodeTypes node hnode).nullFree] using hparameters

theorem Intact.nullFree_membersJson (h : model.Intact) (label : String) (type : DeclaredType) :
    (model.membersJson label type).NullFree := by
  rw [membersJson, nullFree_declaredJson, nullFree_array_map]
  intro node hnode
  obtain ⟨id, -, hfound⟩ := List.mem_filterMap.mp hnode
  exact h.nullFree_nodeJson (List.mem_of_find?_eq_some hfound)

theorem Intact.nullFree_aliasJson (h : model.Intact) {type : DeclaredType}
    (htype : type ∈ model.aliases) : (aliasJson type).NullFree := by
  obtain ⟨hmem, hselect⟩ := mem_declaredOf.mp htype
  obtain ⟨id, name, position, body⟩ := type
  rw [aliasJson, nullFree_declaredJson]
  cases body with
  | typeAlias target aliased => exact (h.aliased _ hmem target aliased rfl).nullFree
  | enum values => cases hselect
  | union options => cases hselect
  | struct fields => cases hselect
  | resolver properties => cases hselect

/-- The export of an intact model has no null. -/
theorem Intact.nullFree_json (h : model.Intact) : model.json.NullFree := by
  have haliases : ∀ type ∈ model.aliases, (aliasJson type).NullFree :=
    fun type htype => h.nullFree_aliasJson htype
  have hqueries : ∀ node ∈ model.queries, (model.nodeJson node).NullFree :=
    fun node hnode => h.nullFree_nodeJson (List.mem_of_mem_filter (mem_sortedBy.mp hnode))
  have hmutations : ∀ node ∈ model.mutations, (model.nodeJson node).NullFree :=
    fun node hnode => h.nullFree_nodeJson (List.mem_of_mem_filter (mem_sortedBy.mp hnode))
  simpa [json, enumJson, unionJson, containerJson, h.nullFree_membersJson] using
    ⟨haliases, hqueries, hmutations⟩

/-- No look-up fails in an intact model. -/
theorem Intact.complete (h : model.Intact) : model.Complete := by
  refine ⟨?_, ?_, ?_, ?_, ?_, h.nullFree_json⟩
  · exact fun node hnode => (h.nodeTypes node hnode).isSome
  · exact fun parameter hparameter => (h.parameterTypes parameter hparameter).isSome
  · exact fun type htype => h.optionTypes htype
  · exact fun type htype => h.nodesOf htype
  · exact fun node hnode => h.parametersOf hnode

end SchemaModel

/-- The model of a faultless document is intact. -/
theorem Document.Faultless.intact {document : Document} (h : document.Faultless)
    (plain : Registry.PlainNames document.declarations) : (Schema.modelOf document).Intact :=
  (h.describes plain).intact (Registry.parented_linked document.declarations) (h.resolved plain)

namespace Schema

/-- In the model of an accepted source text every reference leads somewhere, and no look-up
fails. -/
theorem check_intact {file : Path} {source : String} {model : SchemaModel}
    (accepted : (check file source).model = .ok model) : model.Intact ∧ model.Complete := by
  obtain ⟨document, hspells, hfaultless, rfl⟩ := check_eq_ok_iff.mp accepted
  have hintact := hfaultless.intact hspells.plainNames
  exact ⟨hintact, hintact.complete⟩

/-- The parameter of a query may refer to a struct that is declared after it. -/
theorem check_intact_forward : ∃ model,
    (check default "schema shop query find(key ?Key) Key struct Key \x7b id String \x7d").model =
      .ok model ∧ model.Intact ∧ model.Complete := by
  have hsome : (check default
      "schema shop query find(key ?Key) Key struct Key \x7b id String \x7d"
      ).model.toOption.isSome = true := by
    decide +kernel
  cases haccepted : (check default
      "schema shop query find(key ?Key) Key struct Key \x7b id String \x7d").model with
  | ok model =>
    obtain ⟨hintact, hcomplete⟩ := check_intact haccepted
    exact ⟨model, rfl, hintact, hcomplete⟩
  | error diagnostics =>
    rw [haccepted] at hsome
    cases hsome

end Schema

end GraphSchema
