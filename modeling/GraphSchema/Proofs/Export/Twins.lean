import GraphSchema.Proofs.Export.Spelled
import GraphSchema.Proofs.Types.Canonical

/-!
# Twins

Two spelled-out models with the same export (`SchemaModel.ExportedAlike`) list the same names and
numbers.  So every type and every graph node of one model has a twin in the other one, of which the
export tells the same (`ExportedAlike.exists_declared`, `ExportedAlike.exists_node`), and types with
the same number are spelled alike (`ExportedAlike.designation?_eq`).
-/

namespace GraphSchema

namespace SchemaModel

/-! ### What the parts of an export determine -/

theorem typeJson_injective {type other : Option TypeId} (h : typeJson type = typeJson other) :
    type = other := by
  cases type with
  | none =>
    cases other with
    | none => rfl
    | some id => cases h
  | some id =>
    cases other with
    | none => cases h
    | some otherId => exact congrArg (some ∘ TypeId.mk) (Json.number.inj h)

theorem declaredJson_injective {type other : DeclaredType} {label : String} {content rest : Json}
    (h : declaredJson type label content = declaredJson other label rest) :
    type.name = other.name ∧ type.id = other.id ∧ content = rest := by
  simp only [declaredJson, Json.object.injEq, List.cons.injEq, Prod.mk.injEq, Json.string.injEq,
    Json.number.injEq, true_and, and_true] at h
  exact ⟨h.1, congrArg TypeId.mk h.2.1, h.2.2⟩

theorem containerJson_injective {container other : Container}
    (h : containerJson container = containerJson other) :
    container.designation = other.designation ∧ container.id = other.id := by
  simp only [containerJson, Json.object.injEq, List.cons.injEq, Prod.mk.injEq, Json.string.injEq,
    Json.number.injEq, true_and, and_true] at h
  exact ⟨h.1, congrArg TypeId.mk h.2⟩

theorem parameterJson_injective {parameter other : Parameter}
    (h : parameterJson parameter = parameterJson other) :
    parameter.name = other.name ∧ parameter.type = other.type ∧ parameter.id = other.id := by
  simp only [parameterJson, Json.object.injEq, List.cons.injEq, Prod.mk.injEq, Json.string.injEq,
    Json.number.injEq, true_and, and_true] at h
  exact ⟨h.1, typeJson_injective h.2.1, congrArg ParameterId.mk h.2.2⟩

theorem nodeJson_injective {model other : SchemaModel} {node twin : GraphNode}
    (h : model.nodeJson node = other.nodeJson twin) :
    node.name = twin.name ∧ node.type = twin.type ∧ node.id = twin.id ∧
      (node.isField = false → twin.isField = false →
        (model.parametersOf node).map parameterJson =
          (other.parametersOf twin).map parameterJson) := by
  simp only [nodeJson, List.cons_append, List.nil_append, Json.object.injEq, List.cons.injEq,
    Prod.mk.injEq, Json.string.injEq, Json.number.injEq, true_and] at h
  obtain ⟨hname, htype, hid, hparameters⟩ := h
  refine ⟨hname, typeJson_injective htype, congrArg NodeId.mk hid, fun hfield htwin => ?_⟩
  simpa [hfield, htwin] using hparameters

/-- Two spelled-out models with the same export. -/
structure ExportedAlike (model other : SchemaModel) : Prop where
  spelled : model.Spelled
  otherSpelled : other.Spelled
  name : model.name = other.name
  aliases : model.aliases.map aliasJson = other.aliases.map aliasJson
  enums : model.enums.map enumJson = other.enums.map enumJson
  unions : model.unions.map unionJson = other.unions.map unionJson
  structs : model.structs.map (model.membersJson "fields") =
    other.structs.map (other.membersJson "fields")
  resolvers : model.resolvers.map (model.membersJson "properties") =
    other.resolvers.map (other.membersJson "properties")
  containers : model.containers.map containerJson = other.containers.map containerJson
  queries : model.queries.map model.nodeJson = other.queries.map other.nodeJson
  mutations : model.mutations.map model.nodeJson = other.mutations.map other.nodeJson

theorem exportedAlike_of_json_eq {model other : SchemaModel} (spelled : model.Spelled)
    (otherSpelled : other.Spelled) (same : model.json = other.json) :
    ExportedAlike model other := by
  simp only [json, Json.object.injEq, List.cons.injEq, Prod.mk.injEq, Json.string.injEq,
    Json.array.injEq, true_and, and_true] at same
  obtain ⟨hname, haliases, henums, hunions, hstructs, hresolvers, hcontainers, hqueries,
    hmutations⟩ := same
  exact ⟨spelled, otherSpelled, hname, haliases, henums, hunions, hstructs, hresolvers, hcontainers,
    hqueries, hmutations⟩

namespace ExportedAlike

variable {model other : SchemaModel}

theorem symm (h : ExportedAlike model other) : ExportedAlike other model :=
  ⟨h.otherSpelled, h.spelled, h.name.symm, h.aliases.symm, h.enums.symm, h.unions.symm,
    h.structs.symm, h.resolvers.symm, h.containers.symm, h.queries.symm, h.mutations.symm⟩

/-! ### Types have twins -/

/-- What the export tells of the bodies of two types with the same name and number. -/
inductive SameBody (model other : SchemaModel) : TypeBody → TypeBody → Prop where
  | typeAlias {target twin : Designation} {aliased : Option TypeId} :
      SameBody model other (.typeAlias target aliased) (.typeAlias twin aliased)
  | enum {values others : List EnumValue}
      (names : values.map EnumValue.name = others.map EnumValue.name) :
      SameBody model other (.enum values) (.enum others)
  | union {options others : List UnionOption}
      (types : options.filterMap UnionOption.type = others.filterMap UnionOption.type) :
      SameBody model other (.union options) (.union others)
  | struct {fields others : List NodeId}
      (nodes : (model.nodesOf fields).map model.nodeJson =
        (other.nodesOf others).map other.nodeJson) :
      SameBody model other (.struct fields) (.struct others)
  | resolver {properties others : List NodeId}
      (nodes : (model.nodesOf properties).map model.nodeJson =
        (other.nodesOf others).map other.nodeJson) :
      SameBody model other (.resolver properties) (.resolver others)

/-- What the export tells of two declared types. -/
structure SameType (model other : SchemaModel) (type twin : DeclaredType) : Prop where
  name : type.name = twin.name
  id : type.id = twin.id
  body : SameBody model other type.body twin.body

/-- A declared type of a category has a twin in that category. -/
theorem exists_declaredOf {select : TypeBody → Bool} {label : String}
    {left right : DeclaredType → Json}
    (same : (model.declaredOf select).map (fun type => declaredJson type label (left type)) =
      (other.declaredOf select).map fun type => declaredJson type label (right type))
    {type : DeclaredType} (htype : type ∈ model.declared) (hselect : select type.body = true) :
    ∃ twin ∈ other.declared, select twin.body = true ∧ type.name = twin.name ∧
      type.id = twin.id ∧ left type = right twin := by
  obtain ⟨twin, htwin, hsame⟩ := exists_of_map_eq_map same (mem_declaredOf.mpr ⟨htype, hselect⟩)
  obtain ⟨hmem, hselected⟩ := mem_declaredOf.mp htwin
  exact ⟨twin, hmem, hselected, declaredJson_injective hsame⟩

theorem map_number_injective {types others : List TypeId}
    (h : types.map (fun id => Json.number id.number) = others.map fun id => .number id.number) :
    types = others := by
  have hinjective : Function.Injective fun id : TypeId => Json.number id.number :=
    fun _ _ hsame => congrArg TypeId.mk (Json.number.inj hsame)
  exact hinjective.list_map h

/-- A declared type has a twin. -/
theorem exists_declared (h : ExportedAlike model other) {type : DeclaredType}
    (htype : type ∈ model.declared) :
    ∃ twin ∈ other.declared, SameType model other type twin := by
  obtain ⟨id, name, position, body⟩ := type
  cases body with
  | typeAlias target aliased =>
    obtain ⟨⟨_, _, _, twin⟩, htwin, hselect, hname, hid, hcontent⟩ :=
      exists_declaredOf h.aliases htype rfl
    cases twin with
    | typeAlias otherTarget otherAliased =>
      obtain rfl : aliased = otherAliased := typeJson_injective hcontent
      exact ⟨_, htwin, hname, hid, .typeAlias⟩
    | _ => cases hselect
  | enum values =>
    obtain ⟨⟨_, _, _, twin⟩, htwin, hselect, hname, hid, hcontent⟩ :=
      exists_declaredOf h.enums htype rfl
    cases twin with
    | enum others =>
      refine ⟨_, htwin, hname, hid, .enum ?_⟩
      exact map_eq_map_of_forall₂ (forall₂_of_map_eq_map (Json.array.inj hcontent))
        fun _ _ => Json.string.inj
    | _ => cases hselect
  | union options =>
    obtain ⟨⟨_, _, _, twin⟩, htwin, hselect, hname, hid, hcontent⟩ :=
      exists_declaredOf h.unions htype rfl
    cases twin with
    | union others =>
      exact ⟨_, htwin, hname, hid, .union (map_number_injective (Json.array.inj hcontent))⟩
    | _ => cases hselect
  | struct fields =>
    obtain ⟨⟨_, _, _, twin⟩, htwin, hselect, hname, hid, hcontent⟩ :=
      exists_declaredOf h.structs htype rfl
    cases twin with
    | struct others => exact ⟨_, htwin, hname, hid, .struct (Json.array.inj hcontent)⟩
    | _ => cases hselect
  | resolver properties =>
    obtain ⟨⟨_, _, _, twin⟩, htwin, hselect, hname, hid, hcontent⟩ :=
      exists_declaredOf h.resolvers htype rfl
    cases twin with
    | resolver others => exact ⟨_, htwin, hname, hid, .resolver (Json.array.inj hcontent)⟩
    | _ => cases hselect

/-- A type has a twin with the same number and the same designation. -/
theorem exists_type (h : ExportedAlike model other) {type : SchemaType}
    (htype : type ∈ model.types.types) :
    ∃ twin ∈ other.types.types, type.id = twin.id ∧ type.designation = twin.designation := by
  cases type with
  | primitive primitive => exact ⟨_, TypeTable.primitive_mem_types primitive, rfl, rfl⟩
  | declared type =>
    obtain ⟨twin, htwin, hsame⟩ := h.exists_declared (TypeTable.declared_mem_types_iff.mp htype)
    exact ⟨.declared twin, TypeTable.declared_mem_types_iff.mpr htwin, hsame.id, hsame.name⟩
  | container container =>
    have hmem : container ∈ model.containers :=
      mem_sortedBy.mpr (TypeTable.container_mem_types_iff.mp htype)
    obtain ⟨twin, htwin, hsame⟩ := exists_of_map_eq_map h.containers hmem
    obtain ⟨hdesignation, hid⟩ := containerJson_injective hsame
    exact ⟨.container twin, TypeTable.container_mem_types (mem_sortedBy.mp htwin), hid,
      hdesignation⟩

/-- Types that are spelled alike have the same number. -/
theorem id_eq_of_designation_eq (h : ExportedAlike model other) {type twin : SchemaType}
    (htype : type ∈ model.types.types) (htwin : twin ∈ other.types.types)
    (same : type.designation = twin.designation) : type.id = twin.id := by
  obtain ⟨found, hfound, hid, hdesignation⟩ := h.exists_type htype
  rw [hid, h.otherSpelled.consistent.types.eq_of_designation_eq h.otherSpelled.plain hfound htwin
    (hdesignation.symm.trans same)]

theorem mem_designation? (h : ExportedAlike model other) {id : TypeId} {text : String}
    (known : model.types.designation? id = some text) :
    other.types.designation? id = some text := by
  obtain ⟨type, hfound, rfl⟩ := Option.map_eq_some_iff.mp known
  obtain ⟨htype, rfl⟩ := h.spelled.consistent.types.type?_eq_some_iff.mp hfound
  obtain ⟨twin, htwin, hid, hdesignation⟩ := h.exists_type htype
  rw [hid, hdesignation]
  exact h.otherSpelled.consistent.types.designation?_id htwin

/-- Types with the same number are spelled alike. -/
theorem designation?_eq (h : ExportedAlike model other) :
    model.types.designation? = other.types.designation? :=
  funext fun _ => Option.ext fun _ => ⟨h.mem_designation?, h.symm.mem_designation?⟩

/-! ### Graph nodes have twins -/

/-- What the export tells of two graph nodes. -/
structure SameNode (model other : SchemaModel) (node twin : GraphNode) : Prop where
  kind : node.kind = twin.kind
  json : model.nodeJson node = other.nodeJson twin

/-- A member of a type has a twin among the members of the twin of the type. -/
theorem exists_listed {parent : TypeId} {kind : NodeKind} {ids others : List NodeId}
    (same : (model.nodesOf ids).map model.nodeJson = (other.nodesOf others).map other.nodeJson)
    (lists : model.ListsMembers parent kind ids)
    (otherLists : other.ListsMembers parent kind others) {node : GraphNode}
    (hfound : model.node? node.id = some node) (hmem : node.id ∈ ids) :
    ∃ twin ∈ other.registry.nodes, SameNode model other node twin := by
  obtain ⟨listed, hlisted, hkind⟩ := lists.kinds node.id hmem
  obtain rfl := Option.some.inj (hlisted.symm.trans hfound)
  obtain ⟨twin, htwin, hjson⟩ :=
    exists_of_map_eq_map same (List.mem_filterMap.mpr ⟨listed.id, hmem, hfound⟩)
  obtain ⟨id, hid, htwinFound⟩ := List.mem_filterMap.mp htwin
  obtain ⟨twinListed, htwinListed, htwinKind⟩ := otherLists.kinds id hid
  obtain rfl := Option.some.inj (htwinListed.symm.trans htwinFound)
  exact ⟨twinListed, List.mem_of_find?_eq_some htwinFound, hkind.trans htwinKind.symm, hjson⟩

/-- A field or property has a twin. -/
theorem exists_member (h : ExportedAlike model other) {node : GraphNode}
    (hnode : node ∈ model.registry.nodes) {parent : TypeId}
    (hparent : node.kind.parent? = some parent) :
    ∃ twin ∈ other.registry.nodes, SameNode model other node twin := by
  have hfound : model.node? node.id = some node :=
    h.spelled.consistent.node?_eq_some_iff.mpr ⟨hnode, rfl⟩
  obtain ⟨type, htype, hmem⟩ := h.spelled.intact.parents node hnode parent hparent
  have hdeclared : type ∈ model.declared :=
    TypeTable.declared_mem_types_iff.mp (h.spelled.consistent.types.type?_eq_some_iff.mp htype).1
  obtain ⟨⟨twinId, _, _, twinBody⟩, htwin, -, hid, hbody⟩ := h.exists_declared hdeclared
  obtain ⟨id, name, position, body⟩ := type
  obtain rfl : id = twinId := hid
  cases hbody with
  | typeAlias => cases hmem
  | enum => cases hmem
  | union => cases hmem
  | @struct fields others nodes =>
    exact exists_listed nodes (h.spelled.intact.fields _ hdeclared fields rfl)
      (h.otherSpelled.intact.fields _ htwin others rfl) hfound hmem
  | @resolver properties others nodes =>
    exact exists_listed nodes (h.spelled.intact.properties _ hdeclared properties rfl)
      (h.otherSpelled.intact.properties _ htwin others rfl) hfound hmem

/-- An endpoint has a twin among the endpoints of its kind. -/
theorem exists_endpoint {kind : NodeKind}
    (same : (sortedBy GraphNode.graphName
        (model.registry.nodes.filter fun node => node.kind == kind)).map model.nodeJson =
      (sortedBy GraphNode.graphName
        (other.registry.nodes.filter fun node => node.kind == kind)).map other.nodeJson)
    {node : GraphNode} (hnode : node ∈ model.registry.nodes) (hkind : node.kind = kind) :
    ∃ twin ∈ other.registry.nodes, SameNode model other node twin := by
  have hmem : node ∈ sortedBy GraphNode.graphName
      (model.registry.nodes.filter fun node => node.kind == kind) :=
    mem_sortedBy.mpr (List.mem_filter.mpr ⟨hnode, beq_iff_eq.mpr hkind⟩)
  obtain ⟨twin, htwin, hjson⟩ := exists_of_map_eq_map same hmem
  obtain ⟨htwinNode, htwinKind⟩ := List.mem_filter.mp (mem_sortedBy.mp htwin)
  exact ⟨twin, htwinNode, hkind.trans (beq_iff_eq.mp htwinKind).symm, hjson⟩

/-- A graph node has a twin. -/
theorem exists_node (h : ExportedAlike model other) {node : GraphNode}
    (hnode : node ∈ model.registry.nodes) :
    ∃ twin ∈ other.registry.nodes, SameNode model other node twin := by
  cases hkind : node.kind with
  | structField parent => exact h.exists_member hnode (congrArg NodeKind.parent? hkind)
  | resolverProperty parent => exact h.exists_member hnode (congrArg NodeKind.parent? hkind)
  | query => exact exists_endpoint h.queries hnode hkind
  | mutation => exact exists_endpoint h.mutations hnode hkind

end ExportedAlike

end SchemaModel

end GraphSchema
