import GraphSchema.Proofs.Registry.Consistent
import GraphSchema.Proofs.Scan.Catalogs

/-!
# Registries as catalogs

While a document is scanned, the catalogs hold what the registry of its declarations holds, types
without what they refer to (`TypeTable.catalog`, `Registry.graphCatalog`).  What is added to the
catalogs step by step, the registry adds at once: a type is declared first and gets its members in
the end (`TypeTable.catalog_setBody`), and a graph node is registered before its parameters
(`Registry.graphCatalog_addNode`, `Registry.graphCatalog_addParameter`).
-/

namespace GraphSchema

/-! ### Types -/

namespace TypeTable

/-- The catalog that holds the types of a table. -/
def catalog (table : TypeTable) : TypeCatalog where
  types := table.types.map fun type => (type.id, type)
  named := table.named.map fun type => (type.designation, type.id)
  anonymous := table.containers.map fun container => (container.designation, container.id)
  next := table.nextId.number

theorem catalog_empty : empty.catalog = .start := by
  rfl

variable {table : TypeTable}

theorem lookup_named (name : String) :
    table.catalog.named.lookup name = (table.named? name).map SchemaType.id := by
  rw [catalog, lookup_map_eq, named?_eq_find?]

theorem lookup_types (id : TypeId) : table.catalog.types.lookup id = table.type? id := by
  rw [catalog, lookup_map_eq, type?, Option.map_id']

/-- The table with a type that is declared under the next number. -/
def declaring (table : TypeTable) (name : Token) (body : TypeBody) : TypeTable :=
  ⟨table.assigned ++ [.declared ⟨table.nextId, name.text, name.start, body⟩]⟩

theorem declared_declaring (name : Token) (body : TypeBody) :
    (table.declaring name body).declared =
      table.declared ++ [⟨table.nextId, name.text, name.start, body⟩] := by
  rw [declaring, declared, List.filterMap_append]
  rfl

theorem catalog_declaring (name : Token) (body : TypeBody) :
    (table.declaring name body).catalog =
      { table.catalog with
        types := table.catalog.types ++
          [(table.nextId, .declared ⟨table.nextId, name.text, name.start, body⟩)]
        named := table.catalog.named ++ [(name.text, table.nextId)]
        next := table.nextId.number + 1 } := by
  have hcontainers : (table.declaring name body).containers = table.containers := by
    rw [containers, declaring, List.filterMap_append]
    exact List.append_nil _
  have hnamed : (table.declaring name body).named =
      table.named ++ [.declared ⟨table.nextId, name.text, name.start, body⟩] := by
    rw [named, declaring, types_append, List.filter_append]
    rfl
  simp only [catalog, hcontainers, hnamed]
  simp only [declaring, types_append, List.map_append, nextId, List.length_append]
  rfl

/-- A name that is not taken is registered as it is declared. -/
theorem catalog_declare_of_new {name : Token} (new : table.named? name.text = none)
    (body : TypeBody) :
    table.catalog.declare name body = .ok ((table.declaring name body).catalog, table.nextId) := by
  rw [TypeCatalog.declare, lookup_named, new, catalog_declaring]
  rfl

/-- A name that is taken is refused, with the place of the type that has it. -/
theorem catalog_declare_of_taken (h : table.Consistent) {name : Token} {type : SchemaType}
    (taken : table.named? name.text = some type) (body : TypeBody) :
    table.catalog.declare name body =
      .error (.typeRedeclared name.text name.start type.position?) := by
  have hmem : type ∈ table.types := (mem_named.mp (h.named?_eq_some_iff.mp taken).1).1
  rw [TypeCatalog.declare, lookup_named, taken, Option.map_some]
  dsimp only
  rw [lookup_types, h.type?_id hmem, Option.bind_some]

/-- The members of a type are set where it was declared. -/
theorem catalog_setBody (h : table.Consistent) (name : Token) (first last : TypeBody) :
    (table.declaring name first).catalog.setBody table.nextId last =
      (table.declaring name last).catalog := by
  have hothers (entry : TypeId × SchemaType) (hentry : entry ∈ table.catalog.types) :
      (if entry.1 = table.nextId then (entry.1, entry.2.withBody last) else entry) = entry := by
    obtain ⟨type, htype, rfl⟩ := List.mem_map.mp hentry
    refine if_neg fun heq : type.id = table.nextId => ?_
    rcases List.mem_append.mp htype with hprimitive | hassigned
    · obtain ⟨primitive, -, rfl⟩ := List.mem_map.mp hprimitive
      have hlt : primitive.id.number < TypeId.firstAssigned := Primitive.id_lt primitive
      rw [show primitive.id = table.nextId from heq, nextId] at hlt
      exact absurd hlt (Nat.not_lt.mpr (Nat.le_add_right _ _))
    · have hlt := (h.firstAssigned_le hassigned).2
      rw [heq, nextId] at hlt
      exact Nat.lt_irrefl _ hlt
  rw [catalog_declaring, catalog_declaring, TypeCatalog.setBody]
  dsimp only
  rw [List.map_append, List.map_congr_left hothers, List.map_id', List.map_singleton, if_pos rfl]
  rfl

end TypeTable

/-! ### Graph nodes and parameters -/

/-- A graph node as the catalog holds it. -/
def GraphNode.entry (node : GraphNode) : NodeEntry :=
  ⟨node.id, node.kind, node.name, node.graphName, node.position, node.parameters⟩

/-- A parameter as the catalog holds it. -/
def Parameter.entry (parameter : Parameter) : ParameterEntry :=
  ⟨parameter.id, parameter.target, parameter.name, parameter.position⟩

/-- Is it the kind of an endpoint? -/
def NodeKind.isEndpoint : NodeKind → Bool
  | query | mutation => true
  | structField _ | resolverProperty _ => false

namespace Registry

/-- The catalog that holds the graph nodes and the parameters of a registry. -/
def graphCatalog (registry : Registry) : GraphCatalog where
  nodes := registry.nodes.map GraphNode.entry
  parameters := registry.parameters.map Parameter.entry
  rootNames := (registry.nodes.filter GraphNode.isEndpoint).map fun node =>
    (node.name, node.position)
  nextNode := registry.nodes.length + 1
  nextParameter := registry.parameters.length + 1

theorem graphCatalog_empty : empty.graphCatalog = .start :=
  rfl

variable {registry : Registry}

theorem lookup_rootNames (name : String) : registry.graphCatalog.rootNames.lookup name =
    (registry.endpoint? name).map GraphNode.position := by
  rw [graphCatalog, lookup_map_eq, List.find?_filter, endpoint?]
  congr 2
  funext node
  rw [Bool.eq_iff_iff]
  simp

/-- What a graph node with its parameters adds to the catalog. -/
theorem graphCatalog_addNode_eq (owner : String) (kind : NodeKind) (draft : NodeDraft) :
    (addNode owner kind registry draft).graphCatalog =
      { nodes := registry.graphCatalog.nodes ++ [(draftNode owner kind registry draft).entry]
        parameters := registry.graphCatalog.parameters ++
          (draftParameters registry.parameters.length ⟨registry.nodes.length + 1⟩ draft).map
            Parameter.entry
        rootNames := registry.graphCatalog.rootNames ++
          if kind.isEndpoint then [(draft.name.text, draft.name.start)] else []
        nextNode := registry.nodes.length + 1 + 1
        nextParameter := registry.parameters.length + draft.parameters.length + 1 } := by
  have hendpoint : (draftNode owner kind registry draft).isEndpoint = kind.isEndpoint := by
    cases kind <;> rfl
  have hroots : (([draftNode owner kind registry draft].filter GraphNode.isEndpoint).map
      fun node => (node.name, node.position)) =
      if kind.isEndpoint then [(draft.name.text, draft.name.start)] else [] := by
    rw [List.filter_singleton, hendpoint]
    cases kind.isEndpoint <;> rfl
  rw [addNode_eq]
  simp only [graphCatalog, List.map_append, List.filter_append, hroots, List.length_append,
    length_draftParameters]
  rfl

/-- A member is registered before its parameters. -/
theorem graphCatalog_addNode {kind : NodeKind} (member : kind.isEndpoint = false) (owner : String)
    (name : Token) (type : TypeReference) : registry.graphCatalog.addNode kind owner name =
      ((addNode owner kind registry ⟨name, [], type⟩).graphCatalog,
        ⟨registry.nodes.length + 1⟩) := by
  rw [graphCatalog_addNode_eq, member, if_neg Bool.false_ne_true, GraphCatalog.addNode,
    draftParameters, List.zipIdx_nil, List.map_nil, List.map_nil, List.append_nil, List.append_nil]
  rfl

/-- An endpoint whose name is taken is refused, with the place of the one that has it. -/
theorem graphCatalog_claim_of_taken {name : Token} {node : GraphNode}
    (taken : registry.endpoint? name.text = some node) :
    registry.graphCatalog.claimRootName name =
      .error (.endpointRedeclared name.text name.start node.position) := by
  rw [GraphCatalog.claimRootName, lookup_rootNames, taken, Option.map_some]

/-- An endpoint whose name is not taken is registered before its parameters. -/
theorem graphCatalog_claim_of_new {name : Token} (new : registry.endpoint? name.text = none)
    (kind : EndpointKind) (type : TypeReference) :
    ∃ graph, registry.graphCatalog.claimRootName name = .ok graph ∧
      graph.addNode kind.nodeKind "" name =
        ((addNode "" kind.nodeKind registry ⟨name, [], type⟩).graphCatalog,
          ⟨registry.nodes.length + 1⟩) := by
  have hendpoint : kind.nodeKind.isEndpoint = true := by
    cases kind <;> rfl
  refine ⟨_, by rw [GraphCatalog.claimRootName, lookup_rootNames, new, Option.map_none], ?_⟩
  rw [graphCatalog_addNode_eq, hendpoint, if_pos rfl, GraphCatalog.addNode, draftParameters,
    List.zipIdx_nil, List.map_nil, List.map_nil, List.append_nil]
  rfl

/-- One parameter more is the last one. -/
theorem draftParameters_concat (count : Nat) (id : NodeId) (name : Token)
    (parameters : List TypedName) (parameter : TypedName) (type : TypeReference) :
    draftParameters count id ⟨name, parameters ++ [parameter], type⟩ =
      draftParameters count id ⟨name, parameters, type⟩ ++
        [⟨⟨count + parameters.length + 1⟩, id, parameter.name.text, parameter.name.start,
          parameter.type.designation, none⟩] := by
  rw [draftParameters, List.zipIdx_append, List.map_append, draftParameters,
    Nat.add_right_comm count]
  rfl

/-- A parameter is registered after those that were registered with its graph node. -/
theorem graphCatalog_addParameter (h : registry.Consistent) {kind : NodeKind}
    (takes : ∀ parent, kind ≠ .structField parent) (owner : String) (name : Token)
    (parameters : List TypedName) (parameter : TypedName) (type : TypeReference) :
    (addNode owner kind registry ⟨name, parameters, type⟩).graphCatalog.addParameter
        ⟨registry.nodes.length + 1⟩ parameter.name =
      ((addNode owner kind registry ⟨name, parameters ++ [parameter], type⟩).graphCatalog,
        ⟨registry.parameters.length + parameters.length + 1⟩) := by
  -- the graph node is the last one, and no other has its number
  have hothers (id : ParameterId) (entry : NodeEntry)
      (hentry : entry ∈ registry.graphCatalog.nodes) :
      (if entry.id = ⟨registry.nodes.length + 1⟩ then entry.withParameter id else entry) =
        entry := by
    obtain ⟨node, hnode, rfl⟩ := List.mem_map.mp hentry
    refine if_neg fun heq : node.id = _ => ?_
    have hid := List.mem_map_of_mem (f := GraphNode.id) hnode
    rw [h.nodes, heq] at hid
    simp only [List.mem_map, List.mem_range'_1, NodeId.mk.injEq, exists_eq_right] at hid
    omega
  have hlast : (draftNode owner kind registry ⟨name, parameters, type⟩).entry.withParameter
      ⟨registry.parameters.length + parameters.length + 1⟩ =
      (draftNode owner kind registry ⟨name, parameters ++ [parameter], type⟩).entry := by
    simp only [draftNode, draftParameters_concat, List.map_append]
    cases kind with
    | structField parent => exact absurd rfl (takes parent)
    | resolverProperty _ | query | mutation => rfl
  have hid : (draftNode owner kind registry ⟨name, parameters, type⟩).entry.id =
      ⟨registry.nodes.length + 1⟩ :=
    rfl
  rw [graphCatalog_addNode_eq, graphCatalog_addNode_eq, GraphCatalog.addParameter]
  dsimp only
  rw [List.map_append, List.map_congr_left (hothers _), List.map_id', List.map_singleton,
    if_pos hid, hlast, draftParameters_concat, List.map_append, List.append_assoc,
    List.length_append]
  rfl

end Registry

end GraphSchema
