import GraphSchema.Proofs.Registry.Resolved

/-!
# Members and their parents

A struct or resolver lists its members by number, and every member says whose member it is.  The two
agree in every registry, whatever names are used again (`Registry.Parented`,
`Registry.parented_linked`): the members of a type are the graph nodes whose parent it is, in the
order of their numbers, and a parent is a type that has such members.

Every parameter is listed by one graph node, which is its target and no field
(`Registry.Records.exists_owner`).
-/

namespace GraphSchema

/-- What the members of a declared type are; only structs and resolvers have any. -/
def DeclaredType.memberKind? : DeclaredType → Option NodeKind
  | { id, body := .struct _, .. } => some (.structField id)
  | { id, body := .resolver _, .. } => some (.resolverProperty id)
  | _ => none

theorem DeclaredType.parent?_of_memberKind? {type : DeclaredType} {kind : NodeKind}
    (h : type.memberKind? = some kind) : kind.parent? = some type.id := by
  obtain ⟨id, name, position, body⟩ := type
  cases body with
  | struct fields =>
    obtain rfl := Option.some.inj h
    rfl
  | resolver properties =>
    obtain rfl := Option.some.inj h
    rfl
  | typeAlias target aliased => cases h
  | enum values => cases h
  | union options => cases h

/-- A graph node that is a field is written as one. -/
theorem NodePlace.Matches.isField {types : List DeclaredType} {place : NodePlace}
    {node : GraphNode} (h : place.Matches types node.kind) (field : node.isField = true) :
    ∃ owner, place = .field owner := by
  cases place with
  | field owner => exact ⟨owner, rfl⟩
  | property owner =>
    obtain ⟨type, -, -, hkind⟩ := h
    rw [GraphNode.isField, hkind] at field
    cases field
  | endpoint sort =>
    have hkind : node.kind = sort.nodeKind := h
    rw [GraphNode.isField, hkind] at field
    cases sort <;> cases field

namespace Registry

variable {registry next : Registry}

/-- The graph nodes whose parent is a given type, in the order of their numbers. -/
def childrenOf (registry : Registry) (parent : TypeId) : List GraphNode :=
  registry.nodes.filter fun node => node.kind.parent? == some parent

theorem mem_childrenOf {parent : TypeId} {node : GraphNode} :
    node ∈ registry.childrenOf parent ↔
      node ∈ registry.nodes ∧ node.kind.parent? = some parent := by
  rw [childrenOf, List.mem_filter, beq_iff_eq]

/-- The members of a type are the graph nodes whose parent it is, and parents have such members. -/
structure Parented (registry : Registry) : Prop where
  members : ∀ type ∈ registry.types.declared,
    type.members = (registry.childrenOf type.id).map GraphNode.id
  parents : ∀ node ∈ registry.nodes, ∀ parent, node.kind.parent? = some parent →
    ∃ type ∈ registry.types.declared, type.id = parent ∧ type.memberKind? = some node.kind

/-- A graph node is a member of one type at most. -/
theorem Parented.eq_of_mem_members (h : registry.Parented) (consistent : registry.Consistent)
    {type other : DeclaredType} (htype : type ∈ registry.types.declared)
    (hother : other ∈ registry.types.declared) {id : NodeId} (hid : id ∈ type.members)
    (hagain : id ∈ other.members) : type = other := by
  rw [h.members type htype, List.mem_map] at hid
  rw [h.members other hother, List.mem_map] at hagain
  obtain ⟨node, hnode, rfl⟩ := hid
  obtain ⟨second, hsecond, hsame⟩ := hagain
  obtain ⟨hmem, hparent⟩ := mem_childrenOf.mp hnode
  obtain ⟨hsecondMem, hsecondParent⟩ := mem_childrenOf.mp hsecond
  -- the parents are those of one graph node
  obtain rfl := eq_of_key_eq consistent.node_ids hsecondMem hmem hsame
  have hids : type.id = other.id := Option.some.inj (hparent.symm.trans hsecondParent)
  exact SchemaType.declared.inj (eq_of_key_eq consistent.types.ids
    (TypeTable.declared_mem_types_iff.mpr htype) (TypeTable.declared_mem_types_iff.mpr hother) hids)

/-! ### Growing registries -/

theorem childrenOf_append {nodes : List GraphNode} (same : next.nodes = registry.nodes ++ nodes)
    {parent : TypeId} (others : ∀ node ∈ nodes, node.kind.parent? ≠ some parent) :
    next.childrenOf parent = registry.childrenOf parent := by
  have hnone : nodes.filter (fun node => node.kind.parent? == some parent) = [] := by
    rw [List.filter_eq_nil_iff]
    intro node hnode hparent
    exact others node hnode (beq_iff_eq.mp hparent)
  rw [childrenOf, same, List.filter_append, hnone, List.append_nil, childrenOf]

/-- A type of a consistent registry is older than the next one. -/
theorem Consistent.id_ne_nextId (h : registry.Consistent) {type : DeclaredType}
    (htype : type ∈ registry.types.declared) : type.id ≠ registry.types.nextId := by
  intro hsame
  have hlt := h.types.number_lt (TypeTable.declared_mem_types_iff.mpr htype)
  rw [SchemaType.id, hsame] at hlt
  exact Nat.lt_irrefl _ hlt

/-- No graph node is a member of a type that is not declared yet. -/
theorem Parented.childrenOf_nextId (h : registry.Parented) (consistent : registry.Consistent) :
    registry.childrenOf registry.types.nextId = [] := by
  refine List.eq_nil_iff_forall_not_mem.mpr fun node hnode => ?_
  obtain ⟨hmem, hparent⟩ := mem_childrenOf.mp hnode
  obtain ⟨type, htype, hid, -⟩ := h.parents node hmem _ hparent
  exact consistent.id_ne_nextId htype hid

/-- A type is declared together with its members. -/
theorem Parented.declare (h : registry.Parented) (consistent : registry.Consistent)
    {type : DeclaredType} {nodes : List GraphNode} (new : type.id = registry.types.nextId)
    (types : next.types.declared = registry.types.declared ++ [type])
    (same : next.nodes = registry.nodes ++ nodes)
    (members : type.members = nodes.map GraphNode.id)
    (kinds : ∀ node ∈ nodes, type.memberKind? = some node.kind) : next.Parented := by
  have hparents : ∀ node ∈ nodes, node.kind.parent? = some type.id := fun node hnode =>
    DeclaredType.parent?_of_memberKind? (kinds node hnode)
  refine ⟨?_, ?_⟩
  · intro other hother
    rw [types, List.mem_append, List.mem_singleton] at hother
    rcases hother with hold | rfl
    · -- the new graph nodes are members of the new type only
      rw [childrenOf_append same, h.members other hold]
      intro node hnode hparent
      rw [hparents node hnode, new] at hparent
      exact consistent.id_ne_nextId hold (Option.some.inj hparent).symm
    · have hall : nodes.filter (fun node => node.kind.parent? == some other.id) = nodes :=
        List.filter_eq_self.mpr fun node hnode => beq_iff_eq.mpr (hparents node hnode)
      have hnone := h.childrenOf_nextId consistent
      rw [← new] at hnone
      rw [members, childrenOf, same, List.filter_append, hall, ← childrenOf, hnone,
        List.nil_append]
  · intro node hnode parent hparent
    rw [same, List.mem_append] at hnode
    rw [types]
    rcases hnode with hold | hnew
    · obtain ⟨other, hother, hrest⟩ := h.parents node hold parent hparent
      exact ⟨other, List.mem_append_left _ hother, hrest⟩
    · rw [hparents node hnew] at hparent
      exact ⟨type, List.mem_append_right _ (List.mem_singleton.mpr rfl), Option.some.inj hparent,
        kinds node hnew⟩

/-- Graph nodes without a parent are members of no type. -/
theorem Parented.append (h : registry.Parented) {nodes : List GraphNode}
    (types : next.types.declared = registry.types.declared)
    (same : next.nodes = registry.nodes ++ nodes)
    (free : ∀ node ∈ nodes, node.kind.parent? = none) : next.Parented := by
  refine ⟨?_, ?_⟩
  · intro type htype
    rw [types] at htype
    rw [childrenOf_append same, h.members type htype]
    intro node hnode hparent
    rw [free node hnode] at hparent
    cases hparent
  · intro node hnode parent hparent
    rw [types]
    rw [same, List.mem_append] at hnode
    rcases hnode with hold | hnew
    · exact h.parents node hold parent hparent
    · rw [free node hnew] at hparent
      cases hparent

/-! ### Declarations -/

theorem memberKind?_declared {id : TypeId} {name : String} {position : Cursor} {node : Nat}
    {body : Body} (some : body.drafts ≠ []) :
    DeclaredType.memberKind? ⟨id, name, position, body.declared node⟩ =
      .some (body.nodeKind id) := by
  cases body with
  | enum values => exact absurd rfl some
  | union options => exact absurd rfl some
  | struct fields => rfl
  | resolver properties => rfl

theorem members_declared {id : TypeId} {name : String} {position : Cursor} {node : Nat}
    {body : Body} : DeclaredType.members ⟨id, name, position, body.declared node⟩ =
      (List.range' node body.drafts.length).map NodeId.mk := by
  cases body <;> rfl

theorem Adds.kinds {owner : String} {kind : NodeKind} {drafts : List NodeDraft}
    {nodes : List GraphNode} {parameters : List Parameter}
    (h : Adds owner kind drafts registry next nodes parameters) :
    ∀ node ∈ nodes, node.kind = kind ∧ drafts ≠ [] := by
  intro node hnode
  obtain ⟨draft, hdraft, hdrafted⟩ := exists_left_of_forall₂ h.drafted hnode
  exact ⟨hdrafted.kind, List.ne_nil_of_mem hdraft⟩

/-- A block is left out, or its type is declared and the graph nodes of its members are added. -/
theorem add_block_cases (registry : Registry) (keyword name opening closing : Token)
    (body : Body) :
    registry.add (.block keyword name opening body closing) = registry ∨
      ∃ base : Registry,
        base.types.declared = registry.types.declared ++ [⟨registry.types.nextId, name.text,
          name.start, body.declared (registry.nodes.length + 1)⟩] ∧
        base.nodes = registry.nodes ∧
        registry.add (.block keyword name opening body closing) =
          body.drafts.foldl
            (addNode (name.text ++ ".") (body.nodeKind registry.types.nextId)) base := by
  unfold Registry.add
  dsimp only
  split
  · exact .inl rfl
  case h_2 hdeclare =>
    obtain ⟨-, rfl, rfl⟩ := TypeTable.declare_eq_ok hdeclare
    right
    cases body <;> exact ⟨_, by exact List.filterMap_append .., by rfl, rfl⟩

/-- A declaration adds a type with its members, an endpoint, or nothing. -/
theorem Parented.add (h : registry.Parented) (consistent : registry.Consistent)
    (declaration : Declaration) : (registry.add declaration).Parented := by
  cases declaration with
  | typeAlias keyword name equals target =>
    unfold Registry.add
    dsimp only
    split
    · exact h
    case h_2 hdeclare =>
      obtain ⟨-, -, rfl⟩ := TypeTable.declare_eq_ok hdeclare
      exact h.declare consistent rfl (List.filterMap_append ..) (List.append_nil _).symm rfl
        (List.forall_mem_nil _)
  | block keyword name opening body closing =>
    rcases add_block_cases registry keyword name opening closing body with
      hsame | ⟨base, htypes, hnodes, hadd⟩
    · rw [hsame]
      exact h
    · obtain ⟨nodes, parameters, hadds⟩ := exists_adds (name.text ++ ".")
        (body.nodeKind registry.types.nextId) body.drafts base
      rw [← hadd] at hadds
      have hall : (registry.add (.block keyword name opening body closing)).nodes =
          registry.nodes ++ nodes := by
        rw [hadds.allNodes, hnodes]
      refine h.declare consistent rfl (hadds.sameTypes ▸ htypes) hall ?_ ?_
      · rw [members_declared, hadds.numbers, hnodes]
      · intro node hnode
        obtain ⟨hkind, hsome⟩ := hadds.kinds node hnode
        rw [memberKind?_declared hsome, hkind]
  | endpoint kind keyword signature =>
    unfold Registry.add
    dsimp only
    split
    · exact h
    · refine h.append rfl rfl ?_
      intro node hnode
      obtain rfl := List.mem_singleton.mp hnode
      cases kind <;> rfl

theorem parented_empty : empty.Parented := by
  refine ⟨?_, ?_⟩
  · intro type htype
    cases htype
  · intro node hnode
    cases hnode

/-- Members and parents agree in the registry of any declarations. -/
theorem parented_ofDeclarations (declarations : List Declaration) :
    (ofDeclarations declarations).Parented := by
  induction declarations using List.reverseRecOn with
  | nil => exact parented_empty
  | append_singleton declarations declaration ih =>
    rw [ofDeclarations, List.foldl_append, List.foldl_cons, List.foldl_nil]
    exact ih.add (consistent_ofDeclarations declarations) declaration

/-! ### Linking -/

theorem members_linkDeclared (table : TypeTable) (type : DeclaredType) :
    (table.linkDeclared type).members = type.members := by
  obtain ⟨id, name, position, body⟩ := type
  cases body <;> rfl

theorem memberKind?_linkDeclared (table : TypeTable) (type : DeclaredType) :
    (table.linkDeclared type).memberKind? = type.memberKind? := by
  obtain ⟨id, name, position, body⟩ := type
  cases body <;> rfl

/-- Filling in references changes neither members nor parents. -/
theorem Parented.linked (h : registry.Parented) (consistent : registry.Consistent) :
    registry.linked.Parented := by
  refine ⟨?_, ?_⟩
  · intro type htype
    rw [linked_declared consistent] at htype
    obtain ⟨other, hother, rfl⟩ := List.mem_map.mp htype
    rw [members_linkDeclared, h.members other hother, childrenOf, childrenOf, linked_nodes,
      List.filter_map, List.map_map]
    rfl
  · intro node hnode parent hparent
    rw [linked_nodes] at hnode
    obtain ⟨other, hother, rfl⟩ := List.mem_map.mp hnode
    obtain ⟨type, htype, hid, hkind⟩ := h.parents other hother parent hparent
    rw [linked_declared consistent]
    refine ⟨_, List.mem_map_of_mem htype, hid, ?_⟩
    rw [memberKind?_linkDeclared]
    exact hkind

/-- Members and parents agree in the linked registry of any declarations. -/
theorem parented_linked (declarations : List Declaration) :
    (ofDeclarations declarations).linked.Parented :=
  (parented_ofDeclarations declarations).linked (consistent_ofDeclarations declarations)

/-! ### Parameters and their targets -/

/-- Fields are written without parameters. -/
theorem parameters_of_field {declarations : List Declaration} {written : WrittenNode}
    (h : written ∈ declarations.flatMap Declaration.writtenNodes) {owner : Token}
    (place : written.place = .field owner) : written.parameters = [] := by
  obtain ⟨declaration, -, hwritten⟩ := List.mem_flatMap.mp h
  cases declaration with
  | typeAlias keyword name equals target => cases hwritten
  | endpoint kind keyword signature =>
    obtain rfl := List.mem_singleton.mp hwritten
    cases place
  | block keyword name opening body closing =>
    cases body with
    | enum values => cases hwritten
    | union options => cases hwritten
    | struct fields =>
      obtain ⟨field, -, rfl⟩ := List.mem_map.mp hwritten
      rfl
    | resolver properties =>
      obtain ⟨property, -, rfl⟩ := List.mem_map.mp hwritten
      cases place

variable {declarations : List Declaration}

/-- What a graph node lists is a parameter with the node as its target. -/
theorem Records.listed (h : Records declarations registry) {node : GraphNode}
    (hnode : node ∈ registry.nodes) {id : ParameterId} (hid : id ∈ node.parameters) :
    node.isField = false ∧
      ∃ parameter ∈ registry.parameters, parameter.id = id ∧ parameter.target = node.id := by
  obtain ⟨written, hwritten, hrecords⟩ := exists_left_of_forall₂ h.nodes hnode
  obtain ⟨entry, hentry, parameter, hparameter, hsame, hrecorded⟩ :=
    exists_left_of_forall₂ hrecords.parameters hid
  refine ⟨?_, parameter, hparameter, hsame, hrecorded.target⟩
  rw [Bool.eq_false_iff]
  intro hfield
  obtain ⟨owner, hplace⟩ := hrecords.place.isField hfield
  rw [parameters_of_field hwritten hplace] at hentry
  cases hentry

/-- Every parameter is listed by its target, and by no other graph node. -/
theorem Records.exists_owner (h : Records declarations registry) (consistent : registry.Consistent)
    {parameter : Parameter} (hparameter : parameter ∈ registry.parameters) :
    ∃ node ∈ registry.nodes, node.id = parameter.target ∧ node.isField = false ∧
      parameter.id ∈ node.parameters ∧
      ∀ other ∈ registry.nodes, parameter.id ∈ other.parameters → other = node := by
  have htarget : ∀ node ∈ registry.nodes, parameter.id ∈ node.parameters →
      node.id = parameter.target ∧ node.isField = false := by
    intro node hnode hlisted
    obtain ⟨hfield, recorded, hrecorded, hid, htarget⟩ := h.listed hnode hlisted
    -- a parameter is determined by its number
    obtain rfl := eq_of_key_eq consistent.parameter_ids hrecorded hparameter hid
    exact ⟨htarget.symm, hfield⟩
  have hid := List.mem_map_of_mem (f := Parameter.id) hparameter
  rw [h.parameters] at hid
  obtain ⟨node, hnode, hlisted⟩ := List.mem_flatMap.mp hid
  obtain ⟨hown, hfield⟩ := htarget node hnode hlisted
  refine ⟨node, hnode, hown, hfield, hlisted, ?_⟩
  intro other hother hagain
  exact eq_of_key_eq consistent.node_ids hother hnode
    ((htarget other hother hagain).1.trans hown.symm)

end Registry

end GraphSchema
