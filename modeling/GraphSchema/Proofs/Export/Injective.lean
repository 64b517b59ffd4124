import GraphSchema.Proofs.Export.Twins
import GraphSchema.Proofs.Json.Compact
import Mathlib.Data.List.Sort

/-!
# The export loses nothing

Two accepted models with the same export are the same but for the places in their source texts
(`SchemaModel.SameContent`, `Schema.check_json_injective`).

The text of an export determines its JSON value (`Json.compact_injective`), so types and graph nodes
have twins.  Types with the same number are spelled alike, so what the export leaves out is the same
as well: designations, stores and terminals, parents and graph names.  Numbers ascend in all tables,
so the tables are the same.
-/

namespace GraphSchema

/-! ### Lists in the order of their numbers -/

/-- Two lists in the order of their numbers have the same images if every entry of one list has a
twin with the same image in the other one. -/
theorem map_eq_map_of_twins {α β : Type} (key : α → Nat) {image : α → β} {entries others : List α}
    (ascending : entries.Pairwise fun a b => key a < key b)
    (ascendingOthers : others.Pairwise fun a b => key a < key b)
    (keeps : ∀ a b, image a = image b → key a = key b)
    (twins : ∀ a ∈ entries, ∃ b ∈ others, image a = image b)
    (otherTwins : ∀ b ∈ others, ∃ a ∈ entries, image b = image a) :
    entries.map image = others.map image := by
  have hkeys : entries.map key = others.map key := by
    refine List.SortedLT.eq_of_mem_iff (List.pairwise_map.mpr ascending).sortedLT
      (List.pairwise_map.mpr ascendingOthers).sortedLT fun number => ?_
    rw [List.mem_map, List.mem_map]
    constructor
    · rintro ⟨a, ha, rfl⟩
      obtain ⟨b, hb, hsame⟩ := twins a ha
      exact ⟨b, hb, (keeps a b hsame).symm⟩
    · rintro ⟨b, hb, rfl⟩
      obtain ⟨a, ha, hsame⟩ := otherTwins b hb
      exact ⟨a, ha, (keeps b a hsame).symm⟩
  have hdistinct : (others.map key).Nodup :=
    (List.pairwise_map.mpr ascendingOthers).imp Nat.ne_of_lt
  refine map_eq_map_of_forall₂ (forall₂_imp_of_mem (forall₂_of_map_eq_map hkeys) ?_)
    fun _ _ hsame => hsame
  -- the twin of an entry is the one with its number
  intro a ha b hb hkey
  obtain ⟨twin, htwin, hsame⟩ := twins a ha
  rw [hsame, eq_of_key_eq hdistinct htwin hb ((keeps a twin hsame).symm.trans hkey)]

/-- All places are forgotten. -/
def Relocation.erased : Relocation :=
  ⟨fun _ => default, fun _ => default⟩

namespace SchemaModel

/-- Two models are the same but for the places in their source texts. -/
structure SameContent (model other : SchemaModel) : Prop where
  name : model.name = other.name
  types : model.types.move .erased = other.types.move .erased
  nodes : model.registry.nodes.map (GraphNode.move .erased) =
    other.registry.nodes.map (GraphNode.move .erased)
  parameters : model.registry.parameters.map (Parameter.move .erased) =
    other.registry.parameters.map (Parameter.move .erased)
  aliases : model.aliases.map (DeclaredType.move .erased) =
    other.aliases.map (DeclaredType.move .erased)
  enums : model.enums.map (DeclaredType.move .erased) =
    other.enums.map (DeclaredType.move .erased)
  unions : model.unions.map (DeclaredType.move .erased) =
    other.unions.map (DeclaredType.move .erased)
  structs : model.structs.map (DeclaredType.move .erased) =
    other.structs.map (DeclaredType.move .erased)
  resolvers : model.resolvers.map (DeclaredType.move .erased) =
    other.resolvers.map (DeclaredType.move .erased)
  containers : model.containers = other.containers
  sortedNodes : model.nodes.map (GraphNode.move .erased) =
    other.nodes.map (GraphNode.move .erased)
  queries : model.queries.map (GraphNode.move .erased) =
    other.queries.map (GraphNode.move .erased)
  mutations : model.mutations.map (GraphNode.move .erased) =
    other.mutations.map (GraphNode.move .erased)

namespace ExportedAlike

variable {model other : SchemaModel}

/-! ### Types -/

/-- References to the same type are the same but for their places. -/
theorem designation_move_eq (h : ExportedAlike model other) {reference twin : Designation}
    {type : Option TypeId} (denotes : model.Denotes reference type)
    (twinDenotes : other.Denotes twin type) : reference.move .erased = twin.move .erased := by
  obtain ⟨⟨id, htype, hreference⟩, hplain⟩ := denotes
  obtain ⟨⟨twinId, htwinType, htwin⟩, htwinPlain⟩ := twinDenotes
  obtain rfl := Option.some.inj (htype.symm.trans htwinType)
  rw [h.designation?_eq, htwin] at hreference
  obtain ⟨hmodifiers, hterminal⟩ :=
    Designation.spell_injective (Option.some.inj hreference).symm hplain htwinPlain
  rw [Designation.move, Designation.move, hmodifiers, hterminal]
  rfl

theorem nodesOf_ids {ids others : List NodeId}
    (same : (model.nodesOf ids).map model.nodeJson = (other.nodesOf others).map other.nodeJson) :
    (model.nodesOf ids).map GraphNode.id = (other.nodesOf others).map GraphNode.id :=
  map_eq_map_of_forall₂ (forall₂_of_map_eq_map same)
    fun _ _ hnode => (nodeJson_injective hnode).2.2.1

/-- Twins are the same but for their places. -/
theorem declared_move_eq (h : ExportedAlike model other) {type twin : DeclaredType}
    (htype : type ∈ model.declared) (htwin : twin ∈ other.declared)
    (same : SameType model other type twin) : type.move .erased = twin.move .erased := by
  have hmembers := h.spelled.intact.nodesOf htype
  have htwinMembers := h.otherSpelled.intact.nodesOf htwin
  obtain ⟨id, name, position, body⟩ := type
  obtain ⟨twinId, twinName, twinPosition, twinBody⟩ := twin
  obtain ⟨hname, hid, hbody⟩ := same
  have hmoved : body.move .erased = twinBody.move .erased := by
    cases hbody with
    | typeAlias =>
      exact congrArg (TypeBody.typeAlias · _) (h.designation_move_eq
        (h.spelled.aliases _ htype _ _ rfl) (h.otherSpelled.aliases _ htwin _ _ rfl))
    | enum names =>
      refine congrArg TypeBody.enum (map_eq_map_of_forall₂ (forall₂_of_map_eq_map names) ?_)
      exact fun _ _ hvalue => congrArg (EnumValue.mk · default) hvalue
    | @union options others types =>
      -- no option is passed over, so the options correspond to each other
      have htypes : options.map UnionOption.type = others.map UnionOption.type := by
        have hoptions := h.spelled.intact.optionTypes htype
        have hothers := h.otherSpelled.intact.optionTypes htwin
        exact hoptions.symm.trans ((congrArg (List.map some) types).trans hothers)
      refine congrArg TypeBody.union (map_eq_map_of_forall₂
        (forall₂_imp_of_mem (forall₂_of_map_eq_map htypes) ?_) fun _ _ hoption => hoption)
      intro option hoption twinOption htwinOption hsame
      have hdenotes := h.otherSpelled.options _ htwin twinOption htwinOption
      rw [← hsame] at hdenotes
      rw [UnionOption.move, UnionOption.move, ← hsame,
        h.designation_move_eq (h.spelled.options _ htype option hoption) hdenotes]
    | struct nodes =>
      exact congrArg TypeBody.struct (hmembers.symm.trans ((nodesOf_ids nodes).trans htwinMembers))
    | resolver nodes =>
      exact congrArg TypeBody.resolver
        (hmembers.symm.trans ((nodesOf_ids nodes).trans htwinMembers))
  obtain rfl : id = twinId := hid
  obtain rfl : name = twinName := hname
  exact congrArg (DeclaredType.mk id name default) hmoved

/-- A container is a container of the other model. -/
theorem mem_containers (h : ExportedAlike model other) {container : Container}
    (hmem : container ∈ model.types.containers) : container ∈ other.types.containers := by
  obtain ⟨twin, htwin, hjson⟩ := exists_of_map_eq_map h.containers (mem_sortedBy.mpr hmem)
  rw [SchemaModel.containers, mem_sortedBy] at htwin
  obtain ⟨hdesignation, hid⟩ := containerJson_injective hjson
  obtain ⟨store, hstore⟩ := h.spelled.consistent.types.wraps container hmem
  obtain ⟨twinStore, htwinStore⟩ := h.otherSpelled.consistent.types.wraps twin htwin
  obtain ⟨modifiers, base, -, hbase, hterminal, hspelled⟩ :=
    h.spelled.consistent.types.spelled hmem
  obtain ⟨twinModifiers, twinBase, -, htwinBase, htwinTerminal, htwinSpelled⟩ :=
    h.otherSpelled.consistent.types.spelled htwin
  -- the designation tells the modifier, the store and the terminal
  have hwrapped : container.modifier.text ++ store.designation =
      twin.modifier.text ++ twinStore.designation := by
    rw [← hstore.designation, ← htwinStore.designation, hdesignation]
  obtain ⟨hmodifier, hstores⟩ := Modifier.text_append_injective hwrapped
  have hbases : base.designation = twinBase.designation := by
    rw [hdesignation, htwinSpelled] at hspelled
    exact (Designation.spell_injective hspelled (h.otherSpelled.plain twinBase htwinBase)
      (h.spelled.plain base hbase)).2.symm
  have hstoreId : container.store = twin.store := by
    rw [hstore.id, htwinStore.id, h.id_eq_of_designation_eq hstore.mem htwinStore.mem hstores]
  have hterminalId : container.terminal = twin.terminal := by
    rw [hterminal, htwinTerminal, h.id_eq_of_designation_eq (TypeTable.mem_named.mp hbase).1
      (TypeTable.mem_named.mp htwinBase).1 hbases]
  obtain rfl : container = twin := by
    cases container
    cases twin
    exact Container.mk.injEq .. ▸ ⟨hid, hmodifier, hdesignation, hstoreId, hterminalId⟩
  exact htwin

/-- The tables of types are the same but for the places of the types. -/
theorem types_move_eq (h : ExportedAlike model other) :
    model.types.move .erased = other.types.move .erased := by
  have htwins {model other : SchemaModel} (h : ExportedAlike model other) :
      ∀ type ∈ model.types.assigned, ∃ twin ∈ other.types.assigned,
        type.move .erased = twin.move .erased := by
    intro type htype
    cases type with
    | primitive primitive =>
      -- the numbers of primitive types are not assigned
      have hlow := TypeTable.Primitive.id_lt primitive
      have hhigh := (h.spelled.consistent.types.firstAssigned_le htype).1
      exact absurd hlow (Nat.not_lt.mpr hhigh)
    | declared type =>
      have hmem : type ∈ model.declared := TypeTable.mem_declared.mpr htype
      obtain ⟨twin, htwin, hsame⟩ := h.exists_declared hmem
      exact ⟨.declared twin, TypeTable.mem_declared.mp htwin,
        congrArg SchemaType.declared (h.declared_move_eq hmem htwin hsame)⟩
    | container container =>
      have hmem := h.mem_containers (TypeTable.mem_containers.mpr htype)
      exact ⟨.container container, TypeTable.mem_containers.mp hmem, rfl⟩
  have hnumbers : ∀ n, (TypeId.mk n).number = n := fun _ => rfl
  refine congrArg TypeTable.mk (map_eq_map_of_twins (fun type => type.id.number)
    (ascending_of_numbered hnumbers h.spelled.consistent.types.numbered)
    (ascending_of_numbered hnumbers h.otherSpelled.consistent.types.numbered) ?_ (htwins h)
    (htwins h.symm))
  intro type twin hsame
  rw [← SchemaType.id_move (r := .erased) type, hsame, SchemaType.id_move]

/-! ### Graph nodes and parameters -/

/-- The parameters of a graph node have the same numbers as those of its twin, and so do the
parameters that are listed; a field has none. -/
theorem parameters_eq (h : ExportedAlike model other) {node twin : GraphNode}
    (hnode : node ∈ model.registry.nodes) (htwin : twin ∈ other.registry.nodes)
    (same : SameNode model other node twin) : node.parameters = twin.parameters := by
  have hfields : node.isField = twin.isField := by
    rw [GraphNode.isField, same.kind, GraphNode.isField]
  cases hfield : node.isField with
  | true =>
    rw [h.spelled.intact.parameters_of_isField hnode hfield,
      h.otherSpelled.intact.parameters_of_isField htwin (hfields.symm.trans hfield)]
  | false =>
    have hlisted := (nodeJson_injective same.json).2.2.2 hfield (hfields.symm.trans hfield)
    rw [← h.spelled.intact.parametersOf hnode, ← h.otherSpelled.intact.parametersOf htwin]
    exact map_eq_map_of_forall₂ (forall₂_of_map_eq_map hlisted)
      fun _ _ hparameter => (parameterJson_injective hparameter).2.2

theorem node_move_eq (h : ExportedAlike model other) {node twin : GraphNode}
    (hnode : node ∈ model.registry.nodes) (htwin : twin ∈ other.registry.nodes)
    (same : SameNode model other node twin) : node.move .erased = twin.move .erased := by
  obtain ⟨hname, htype, hid, -⟩ := nodeJson_injective same.json
  have hparameters := h.parameters_eq hnode htwin same
  have hgraphName : node.graphName = twin.graphName := by
    rw [h.spelled.graphNames node hnode, h.otherSpelled.graphNames twin htwin, ownerPrefix,
      ownerPrefix, typeText, typeText, h.designation?_eq, same.kind, hname]
  have hdesignation : node.designation.move .erased = twin.designation.move .erased := by
    have hdenotes := h.otherSpelled.nodes twin htwin
    rw [← htype] at hdenotes
    exact h.designation_move_eq (h.spelled.nodes node hnode) hdenotes
  have hkind := same.kind
  simp only [GraphNode.move, GraphNode.mk.injEq]
  exact ⟨hid, hkind, hname, hgraphName, rfl, hdesignation, htype, hparameters⟩

/-- The graph nodes are the same but for their places. -/
theorem nodes_move_eq (h : ExportedAlike model other) :
    model.registry.nodes.map (GraphNode.move .erased) =
      other.registry.nodes.map (GraphNode.move .erased) := by
  have hnumbers : ∀ n, (NodeId.mk n).number = n := fun _ => rfl
  have htwins {model other : SchemaModel} (h : ExportedAlike model other) :
      ∀ node ∈ model.registry.nodes, ∃ twin ∈ other.registry.nodes,
        node.move .erased = twin.move .erased := by
    intro node hnode
    obtain ⟨twin, htwin, hsame⟩ := h.exists_node hnode
    exact ⟨twin, htwin, h.node_move_eq hnode htwin hsame⟩
  refine map_eq_map_of_twins (fun node => node.id.number)
    (ascending_of_numbered hnumbers h.spelled.consistent.nodes)
    (ascending_of_numbered hnumbers h.otherSpelled.consistent.nodes) ?_ (htwins h) (htwins h.symm)
  intro node twin hsame
  have hid : (node.move .erased).id = (twin.move .erased).id := congrArg GraphNode.id hsame
  exact congrArg NodeId.number hid

/-- A parameter has a twin that is the same but for its place. -/
theorem exists_parameter (h : ExportedAlike model other) {parameter : Parameter}
    (hparameter : parameter ∈ model.registry.parameters) :
    ∃ twin ∈ other.registry.parameters, parameter.move .erased = twin.move .erased := by
  obtain ⟨node, hfound, hfield, hcount, -⟩ := h.spelled.intact.owners parameter hparameter
  obtain ⟨hnode, htarget⟩ := h.spelled.consistent.node?_eq_some_iff.mp hfound
  obtain ⟨twinNode, htwinNode, hsame⟩ := h.exists_node hnode
  -- the parameter is listed by its target, so its twin is listed by the twin of its target
  have hmem : parameter ∈ model.parametersOf node := by
    refine List.mem_filterMap.mpr ⟨parameter.id, ?_,
      h.spelled.consistent.parameter?_eq_some_iff.mpr ⟨hparameter, rfl⟩⟩
    exact List.count_pos_iff.mp (by omega)
  have hfields : twinNode.isField = false := by
    rw [← hfield, GraphNode.isField, GraphNode.isField, hsame.kind]
  obtain ⟨-, -, hid, hlists⟩ := nodeJson_injective hsame.json
  obtain ⟨twin, htwin, hjson⟩ := exists_of_map_eq_map (hlists hfield hfields) hmem
  obtain ⟨id, hlisted, htwinFound⟩ := List.mem_filterMap.mp htwin
  obtain ⟨listed, hlistedFound, htwinTarget⟩ :=
    h.otherSpelled.intact.listed twinNode htwinNode id hlisted
  obtain rfl := Option.some.inj (hlistedFound.symm.trans htwinFound)
  have htwinParameter : listed ∈ other.registry.parameters :=
    List.mem_of_find?_eq_some htwinFound
  obtain ⟨hname, htype, hsameId⟩ := parameterJson_injective hjson
  have hdenotes := h.otherSpelled.parameters listed htwinParameter
  rw [← htype] at hdenotes
  have hdesignation :=
    h.designation_move_eq (h.spelled.parameters parameter hparameter) hdenotes
  refine ⟨listed, htwinParameter, ?_⟩
  simp only [Parameter.move, Parameter.mk.injEq]
  exact ⟨hsameId, htarget.symm.trans (hid.trans htwinTarget.symm), hname, rfl, hdesignation, htype⟩

/-- The parameters are the same but for their places. -/
theorem parameters_move_eq (h : ExportedAlike model other) :
    model.registry.parameters.map (Parameter.move .erased) =
      other.registry.parameters.map (Parameter.move .erased) := by
  have hnumbers : ∀ n, (ParameterId.mk n).number = n := fun _ => rfl
  refine map_eq_map_of_twins (fun parameter => parameter.id.number)
    (ascending_of_numbered hnumbers h.spelled.consistent.parameters)
    (ascending_of_numbered hnumbers h.otherSpelled.consistent.parameters) ?_
    (fun _ => h.exists_parameter) (fun _ => h.symm.exists_parameter)
  intro parameter twin hsame
  have hid : (parameter.move .erased).id = (twin.move .erased).id := congrArg Parameter.id hsame
  exact congrArg ParameterId.number hid

/-! ### Categories -/

theorem declaredOf_move_eq (h : ExportedAlike model other) {select : TypeBody → Bool}
    (selects : ∀ body : TypeBody, select (body.move .erased) = select body) :
    (model.declaredOf select).map (DeclaredType.move .erased) =
      (other.declaredOf select).map (DeclaredType.move .erased) := by
  have htypes : (model.move .erased).declared = (other.move .erased).declared :=
    congrArg TypeTable.declared h.types_move_eq
  rw [← declaredOf_move model selects, ← declaredOf_move other selects, declaredOf, htypes,
    declaredOf]

theorem nodesWhere_move_eq (h : ExportedAlike model other) {select : GraphNode → Bool}
    (selects : ∀ node : GraphNode, select (node.move .erased) = select node) :
    (sortedBy GraphNode.graphName (model.registry.nodes.filter select)).map
        (GraphNode.move .erased) =
      (sortedBy GraphNode.graphName (other.registry.nodes.filter select)).map
        (GraphNode.move .erased) := by
  have hnodes : (model.move .erased).registry.nodes = (other.move .erased).registry.nodes :=
    h.nodes_move_eq
  rw [← nodesWhere_move model selects, ← nodesWhere_move other selects, hnodes]

/-- Models with the same export are the same but for their places. -/
theorem sameContent (h : ExportedAlike model other) : SameContent model other := by
  have hcontainers : (model.types.move .erased).containers =
      (other.types.move .erased).containers := congrArg TypeTable.containers h.types_move_eq
  rw [TypeTable.containers_move, TypeTable.containers_move] at hcontainers
  have hnodes := @nodesWhere_move_eq model other h (fun _ => true) fun _ => rfl
  refine ⟨h.name, h.types_move_eq, h.nodes_move_eq, h.parameters_move_eq, ?_, ?_, ?_, ?_, ?_,
    congrArg (sortedBy Container.designation) hcontainers, ?_, h.nodesWhere_move_eq fun _ => rfl,
    h.nodesWhere_move_eq fun _ => rfl⟩
  · exact h.declaredOf_move_eq fun body => by cases body <;> rfl
  · exact h.declaredOf_move_eq fun body => by cases body <;> rfl
  · exact h.declaredOf_move_eq fun body => by cases body <;> rfl
  · exact h.declaredOf_move_eq fun body => by cases body <;> rfl
  · exact h.declaredOf_move_eq fun body => by cases body <;> rfl
  · rwa [List.filter_true, List.filter_true] at hnodes

end ExportedAlike

end SchemaModel

/-! ### Accepted source texts -/

namespace Schema

/-- The model of an accepted source text is spelled out. -/
theorem spelled_of_accepted {file : Path} {source : String} {model : SchemaModel}
    (accepted : (check file source).model = .ok model) : model.Spelled := by
  obtain ⟨document, hspells, hfaultless, rfl⟩ := check_eq_ok_iff.mp accepted
  exact hfaultless.spelled hspells.plainNames

/-- The models of two accepted source texts with the same export are the same but for the places in
the source texts. -/
theorem check_json_injective {file otherFile : Path} {source otherSource : String}
    {model other : SchemaModel} (accepted : (check file source).model = .ok model)
    (otherAccepted : (check otherFile otherSource).model = .ok other)
    (same : model.json.compact = other.json.compact) : model.SameContent other :=
  (SchemaModel.exportedAlike_of_json_eq (spelled_of_accepted accepted)
    (spelled_of_accepted otherAccepted) (Json.compact_injective same)).sameContent

/-- Two models with the same export that differ in their places only. -/
theorem check_json_injective_respaced : ∃ model other,
    (check default
      "schema shop query find(key ?Key) Key struct Key \x7b id String \x7d").model = .ok model ∧
    (check default
      "schema shop\n\nquery find(key ?Key) Key\nstruct Key \x7b id String \x7d").model = .ok other ∧
    model ≠ other ∧ model.json.compact = other.json.compact ∧ model.SameContent other := by
  have hmoved : ((check default
      "schema shop query find(key ?Key) Key struct Key \x7b id String \x7d").model.toOption.bind
        fun model => (check default
      "schema shop\n\nquery find(key ?Key) Key\nstruct Key \x7b id String \x7d").model.toOption.map
        fun other => decide
          (model ≠ other ∧ model.move .erased = other.move .erased)) = some true := by
    decide +kernel
  obtain ⟨model, hmodel, hrest⟩ := Option.bind_eq_some_iff.mp hmoved
  obtain ⟨other, hother, hdecided⟩ := Option.map_eq_some_iff.mp hrest
  obtain ⟨hdiffer, hsame⟩ := of_decide_eq_true hdecided
  have accepted {outcome : Except (List Diagnostic) SchemaModel} {found : SchemaModel}
      (h : outcome.toOption = some found) : outcome = .ok found := by
    cases outcome with
    | ok model => exact congrArg Except.ok (Option.some.inj h)
    | error diagnostics => cases h
  have hjson : model.json = other.json := by
    have hmove := congrArg SchemaModel.json hsame
    rwa [SchemaModel.json_move, SchemaModel.json_move] at hmove
  have hcompact := congrArg Json.compact hjson
  exact ⟨model, other, accepted hmodel, accepted hother, hdiffer, hcompact,
    check_json_injective (accepted hmodel) (accepted hother) hcompact⟩

end Schema

end GraphSchema
