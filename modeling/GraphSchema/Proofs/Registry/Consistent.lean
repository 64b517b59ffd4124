import GraphSchema.Proofs.Types.Interning
import GraphSchema.Registry

/-!
# Consistent registries

Whatever is declared, the registry numbers types, graph nodes and parameters without gaps, and its
types are consistent (`Registry.consistent_ofDeclarations`).  Linking fills in references and adds
containers, but changes neither numbers nor names (`Registry.Consistent.linked`).
-/

namespace GraphSchema

/-! ### Filling in references -/

namespace Registry

variable (types : TypeTable) (type : SchemaType)

@[simp]
theorem linkType_id : (linkType types type).id = type.id := by
  cases type <;> rfl

@[simp]
theorem linkType_designation : (linkType types type).designation = type.designation := by
  cases type <;> rfl

@[simp]
theorem linkType_isAnonymous : (linkType types type).isAnonymous = type.isAnonymous := by
  cases type <;> rfl

@[simp]
theorem linkType_terminal : (linkType types type).terminal = type.terminal := by
  cases type <;> rfl

@[simp]
theorem container?_linkType : (linkType types type).container? = type.container? := by
  cases type <;> rfl

end Registry

/-- A table whose declared types refer to the types of the table. -/
def TypeTable.link (table : TypeTable) : TypeTable :=
  ⟨table.assigned.map (Registry.linkType table)⟩

namespace TypeTable

variable {table : TypeTable}

theorem types_link : table.link.types = table.types.map (Registry.linkType table) := by
  unfold types link
  rw [List.map_append, List.map_map]
  rfl

theorem named_link : table.link.named = table.named.map (Registry.linkType table) := by
  rw [named, types_link, List.filter_map, named]
  congr 2
  funext type
  simp

theorem containers_link : table.link.containers = table.containers := by
  rw [containers, link, List.filterMap_map, containers]
  congr 1
  funext type
  simp

/-- Filling in references keeps a table consistent. -/
theorem Consistent.link (h : table.Consistent) : table.link.Consistent := by
  refine ⟨?_, ?_, ?_, ?_⟩
  · have hids : table.link.assigned.map SchemaType.id = table.assigned.map SchemaType.id := by
      rw [TypeTable.link, List.map_map]
      congr 1
      funext type
      simp
    rw [hids, h.numbered, TypeTable.link, List.length_map]
  · rw [named_link, List.map_map]
    have hsame : SchemaType.designation ∘ Registry.linkType table = SchemaType.designation := by
      funext type
      simp
    rw [hsame]
    exact h.names
  · rw [containers_link]
    exact h.spellings
  · rw [containers_link]
    intro container hmem
    obtain ⟨store, hstore⟩ := h.wraps container hmem
    refine ⟨Registry.linkType table store, ?_, ?_, ?_, ?_, ?_⟩
    · rw [types_link]
      exact List.mem_map_of_mem hstore.mem
    · rw [Registry.linkType_id, hstore.id]
    · rw [Registry.linkType_id]
      exact hstore.older
    · rw [Registry.linkType_designation, hstore.designation]
    · rw [Registry.linkType_terminal, hstore.terminal]

end TypeTable

/-! ### Numbers -/

/-- The types are consistent, and graph nodes and parameters are numbered without gaps. -/
structure Registry.Consistent (registry : Registry) : Prop where
  types : registry.types.Consistent
  nodes : registry.nodes.map GraphNode.id =
    (List.range' 1 registry.nodes.length).map NodeId.mk
  parameters : registry.parameters.map Parameter.id =
    (List.range' 1 registry.parameters.length).map ParameterId.mk

namespace Registry

variable {registry : Registry}

theorem Consistent.node_ids (h : registry.Consistent) :
    (registry.nodes.map GraphNode.id).Nodup := by
  rw [h.nodes]
  exact List.Nodup.map (fun _ _ => NodeId.mk.inj) List.nodup_range'

theorem Consistent.parameter_ids (h : registry.Consistent) :
    (registry.parameters.map Parameter.id).Nodup := by
  rw [h.parameters]
  exact List.Nodup.map (fun _ _ => ParameterId.mk.inj) List.nodup_range'

/-- A number stands for the graph node that has it. -/
theorem Consistent.node?_eq_some_iff (h : registry.Consistent) {id : NodeId} {node : GraphNode} :
    registry.node? id = some node ↔ node ∈ registry.nodes ∧ node.id = id :=
  find?_key_eq_some_iff h.node_ids

/-- A number stands for the parameter that has it. -/
theorem Consistent.parameter?_eq_some_iff (h : registry.Consistent) {id : ParameterId}
    {parameter : Parameter} :
    registry.parameter? id = some parameter ↔
      parameter ∈ registry.parameters ∧ parameter.id = id :=
  find?_key_eq_some_iff h.parameter_ids

/-- The parameters of a graph node that is added when there are `count` parameters. -/
def draftParameters (count : Nat) (id : NodeId) (draft : NodeDraft) : List Parameter :=
  (draft.parameters.zipIdx (count + 1)).map fun (parameter, number) =>
    ⟨⟨number⟩, id, parameter.name.text, parameter.name.start, parameter.type.designation, none⟩

theorem draftParameters_ids (count : Nat) (id : NodeId) (draft : NodeDraft) :
    (draftParameters count id draft).map Parameter.id =
      (List.range' (count + 1) draft.parameters.length).map ParameterId.mk := by
  rw [draftParameters, List.map_map, ← List.zipIdx_map_snd (count + 1) draft.parameters,
    List.map_map]
  rfl

theorem length_draftParameters (count : Nat) (id : NodeId) (draft : NodeDraft) :
    (draftParameters count id draft).length = draft.parameters.length := by
  rw [draftParameters, List.length_map, List.length_zipIdx]

/-- The graph node that is added for a draft. -/
def draftNode (owner : String) (kind : NodeKind) (registry : Registry) (draft : NodeDraft) :
    GraphNode :=
  ⟨⟨registry.nodes.length + 1⟩, kind, draft.name.text, owner ++ draft.name.text, draft.name.start,
    draft.type.designation, none,
    (draftParameters registry.parameters.length ⟨registry.nodes.length + 1⟩ draft).map Parameter.id⟩

/-- Adding a graph node gives it and its parameters the next numbers. -/
theorem addNode_eq (owner : String) (kind : NodeKind) (registry : Registry) (draft : NodeDraft) :
    addNode owner kind registry draft =
      { registry with
        nodes := registry.nodes ++ [draftNode owner kind registry draft]
        parameters := registry.parameters ++
          draftParameters registry.parameters.length ⟨registry.nodes.length + 1⟩ draft
        references := registry.references ++ draft.references } :=
  rfl

theorem Consistent.addNode (h : registry.Consistent) (owner : String) (kind : NodeKind)
    (draft : NodeDraft) : (addNode owner kind registry draft).Consistent := by
  rw [addNode_eq]
  refine ⟨h.types, ?_, ?_⟩
  · simp only [List.map_append, h.nodes, List.length_append, List.length_singleton,
      List.range'_concat, List.map_singleton, Nat.one_mul, Nat.add_comm, draftNode]
  · simp only [List.map_append, h.parameters, draftParameters_ids, List.length_append,
      length_draftParameters]
    rw [← List.map_append, Nat.add_comm registry.parameters.length 1, List.range'_append_1]

theorem Consistent.addNodes (h : registry.Consistent) (owner : String) (kind : NodeKind)
    (drafts : List NodeDraft) :
    (drafts.foldl (Registry.addNode owner kind) registry).Consistent := by
  induction drafts generalizing registry with
  | nil => exact h
  | cons draft drafts ih => exact ih (h.addNode owner kind draft)

/-- Every declaration keeps a registry consistent. -/
theorem Consistent.add (h : registry.Consistent) (declaration : Declaration) :
    (registry.add declaration).Consistent := by
  cases declaration with
  | typeAlias keyword name equals target =>
    unfold Registry.add
    dsimp only
    split
    · exact h
    case h_2 hdeclare => exact ⟨h.types.declare hdeclare, h.nodes, h.parameters⟩
  | block keyword name opening body closing =>
    unfold Registry.add
    dsimp only
    split
    · exact h
    case h_2 hdeclare =>
      refine Consistent.addNodes ?_ _ _ _
      cases body <;> exact ⟨h.types.declare hdeclare, h.nodes, h.parameters⟩
  | endpoint kind keyword signature =>
    unfold Registry.add
    dsimp only
    split
    · exact h
    · exact h.addNode _ _ _

theorem consistent_empty : empty.Consistent :=
  ⟨TypeTable.empty_consistent, rfl, rfl⟩

/-- The registry of any declarations is consistent. -/
theorem consistent_ofDeclarations (declarations : List Declaration) :
    (ofDeclarations declarations).Consistent := by
  have hfold (others : List Declaration) (registry : Registry) (h : registry.Consistent) :
      (others.foldl Registry.add registry).Consistent := by
    induction others generalizing registry with
    | nil => exact h
    | cons declaration others ih => exact ih _ (h.add declaration)
  exact hfold declarations empty consistent_empty

/-! ### Linking -/

theorem linked_types (registry : Registry) :
    registry.linked.types = (registry.types.resolveAll registry.references).link :=
  rfl

/-- Linking keeps a registry consistent. -/
theorem Consistent.linked (h : registry.Consistent) : registry.linked.Consistent := by
  refine ⟨?_, ?_, ?_⟩
  · exact (h.types.resolveAll registry.references).1.link
  · simp only [Registry.linked, List.map_map, List.length_map]
    exact h.nodes
  · simp only [Registry.linked, List.map_map, List.length_map]
    exact h.parameters

/-- The linked registry of any declarations is consistent. -/
theorem consistent_linked (declarations : List Declaration) :
    (ofDeclarations declarations).linked.Consistent :=
  (consistent_ofDeclarations declarations).linked

end Registry

end GraphSchema
