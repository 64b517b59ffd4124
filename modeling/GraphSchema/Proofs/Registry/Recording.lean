import GraphSchema.Proofs.Document.Distinct
import GraphSchema.Proofs.Pointwise
import GraphSchema.Proofs.Registry.Consistent
import GraphSchema.Proofs.Registry.Records
import Mathlib.Data.List.Induction

/-!
# Recording a document

If the names of a document are distinct, its registry records every declaration
(`Registry.records_ofDeclarations`).  Each declaration adds its part to what was recorded before
(`Registry.Records.add`): a declared type, and the graph nodes of its members with their parameters
(`Registry.exists_adds`).
-/

namespace GraphSchema.Registry

variable {registry next : Registry}

/-! ### Adding graph nodes -/

/-- A graph node is added as its draft says. -/
structure Drafted (owner : String) (kind : NodeKind) (parameters : List Parameter)
    (draft : NodeDraft) (node : GraphNode) : Prop where
  kind : node.kind = kind
  name : node.name = draft.name.text
  graphName : node.graphName = owner ++ draft.name.text
  position : node.position = draft.name.start
  designation : node.designation = draft.type.designation
  parameters : List.Forall₂ (fun parameter id => ∃ recorded ∈ parameters, recorded.id = id ∧
    RecordsParameter node.id parameter recorded) draft.parameters node.parameters

theorem Drafted.mono {owner : String} {kind : NodeKind} {parameters more : List Parameter}
    {draft : NodeDraft} {node : GraphNode} (h : Drafted owner kind parameters draft node)
    (sub : parameters ⊆ more) : Drafted owner kind more draft node := by
  refine ⟨h.kind, h.name, h.graphName, h.position, h.designation, ?_⟩
  refine h.parameters.imp ?_
  rintro parameter id ⟨recorded, hmem, hrest⟩
  exact ⟨recorded, sub hmem, hrest⟩

theorem draftParameters_records (count : Nat) (id : NodeId) (draft : NodeDraft) :
    List.Forall₂ (fun parameter recorded => RecordsParameter id parameter recorded)
      draft.parameters (draftParameters count id draft) := by
  unfold draftParameters
  generalize count + 1 = first
  induction draft.parameters generalizing first with
  | nil => exact .nil
  | cons parameter parameters ih => exact .cons ⟨rfl, rfl, rfl, rfl⟩ (ih (first + 1))

/-- What graph nodes add to a registry. -/
structure Adds (owner : String) (kind : NodeKind) (drafts : List NodeDraft)
    (registry next : Registry) (nodes : List GraphNode) (parameters : List Parameter) : Prop where
  sameTypes : next.types = registry.types
  allNodes : next.nodes = registry.nodes ++ nodes
  allParameters : next.parameters = registry.parameters ++ parameters
  allReferences : next.references = registry.references ++ drafts.flatMap NodeDraft.references
  drafted : List.Forall₂ (Drafted owner kind parameters) drafts nodes
  numbers : nodes.map GraphNode.id =
    (List.range' (registry.nodes.length + 1) drafts.length).map NodeId.mk
  own : parameters.map Parameter.id = nodes.flatMap GraphNode.parameters

theorem exists_adds (owner : String) (kind : NodeKind) (drafts : List NodeDraft)
    (registry : Registry) :
    ∃ nodes parameters, Adds owner kind drafts registry
      (drafts.foldl (addNode owner kind) registry) nodes parameters := by
  induction drafts generalizing registry with
  | nil =>
    exact ⟨[], [], rfl, (List.append_nil _).symm, (List.append_nil _).symm,
      (List.append_nil _).symm, .nil, rfl, rfl⟩
  | cons draft drafts ih =>
    obtain ⟨nodes, parameters, h⟩ := ih (addNode owner kind registry draft)
    rw [addNode_eq] at h
    have hown := draftParameters_records registry.parameters.length
      ⟨registry.nodes.length + 1⟩ draft
    refine ⟨draftNode owner kind registry draft :: nodes,
      draftParameters registry.parameters.length ⟨registry.nodes.length + 1⟩ draft ++ parameters,
      h.sameTypes, ?_, ?_, ?_, .cons ?_ ?_, ?_, ?_⟩
    · rw [List.foldl_cons, addNode_eq, h.allNodes, List.append_assoc, List.singleton_append]
    · rw [List.foldl_cons, addNode_eq, h.allParameters, List.append_assoc]
    · rw [List.foldl_cons, addNode_eq, h.allReferences, List.append_assoc, List.flatMap_cons]
    · -- the first draft, with the parameters numbered from its own first one
      refine ⟨rfl, rfl, rfl, rfl, rfl, ?_⟩
      simp only [draftNode, List.forall₂_map_right_iff]
      refine forall₂_imp_of_mem hown ?_
      intro parameter _ recorded hrecorded hrecords
      exact ⟨recorded, List.mem_append_left _ hrecorded, rfl, hrecords⟩
    · exact h.drafted.imp fun _ _ hdrafted => hdrafted.mono (List.subset_append_right _ _)
    · rw [List.map_cons, h.numbers, List.length_append, List.length_singleton, List.length_cons,
        List.range'_succ, List.map_cons]
      rfl
    · rw [List.map_append, h.own, List.flatMap_cons]
      rfl

/-- Nothing gets lost while graph nodes are added. -/
theorem Adds.growsTo {owner : String} {kind : NodeKind} {drafts : List NodeDraft}
    {nodes : List GraphNode} {parameters : List Parameter}
    (h : Adds owner kind drafts registry next nodes parameters) : registry.GrowsTo next := by
  refine ⟨?_, ?_, ?_⟩
  · rw [h.sameTypes]
    exact List.Subset.refl _
  · rw [h.allNodes]
    exact List.subset_append_left _ _
  · rw [h.allParameters]
    exact List.subset_append_left _ _

/-! ### Names that are taken -/

/-- The declared types have the names that are written, with their places. -/
theorem Records.declared_places {declarations : List Declaration}
    (h : Records declarations registry) :
    registry.types.declared.map (fun type => (type.name, type.position)) =
      (declarations.filterMap Declaration.typeName?).map fun name => (name.text, name.start) := by
  have hwritten : declarations.filterMap Declaration.typeName? =
      (declarations.filter Declaration.declaresType).filterMap Declaration.typeName? := by
    rw [List.filterMap_filter]
    congr 1
    funext declaration
    unfold Declaration.declaresType
    cases declaration.typeName? <;> rfl
  rw [hwritten, List.map_filterMap, ← List.filterMap_eq_map]
  refine (filterMap_eq_filterMap_of_forall₂ h.types ?_).symm
  intro declaration type hrecords
  cases declaration with
  | typeAlias keyword name equals target =>
    obtain ⟨hname, hposition, -⟩ := hrecords
    rw [Function.comp_apply, hname, hposition]
    rfl
  | block keyword name opening body closing =>
    obtain ⟨hname, hposition, -⟩ := hrecords
    rw [Function.comp_apply, hname, hposition]
    rfl
  | endpoint kind keyword signature => exact hrecords.elim

/-- The declared types have the names that are written. -/
theorem Records.declared_names {declarations : List Declaration}
    (h : Records declarations registry) :
    registry.types.declared.map DeclaredType.name = Document.typeNames declarations := by
  have hnames := congrArg (List.map Prod.fst) h.declared_places
  rwa [List.map_map, List.map_map] at hnames

theorem Records.named?_eq_none {declarations : List Declaration} {name : String}
    (h : Records declarations registry) (primitive : Primitive.ofName? name = none)
    (new : name ∉ Document.typeNames declarations) : registry.types.named? name = none := by
  unfold TypeTable.named?
  rw [List.find?_eq_none]
  intro type htype hfound
  obtain ⟨hanonymous, hname⟩ : type.isAnonymous = false ∧ type.designation = name := by
    simpa using hfound
  cases type with
  | primitive other =>
    -- the name of a primitive type
    exact absurd (beq_iff_eq.mpr hname) (List.find?_eq_none.mp primitive other other.mem_all)
  | declared type =>
    rw [← h.declared_names] at new
    exact new (List.mem_map.mpr ⟨type, TypeTable.declared_mem_types_iff.mp htype, hname⟩)
  | container container => cases hanonymous

/-- Names of types are those that are primitive and those that are declared. -/
theorem Records.isSome_named?_iff {declarations : List Declaration}
    (h : Records declarations registry) (consistent : registry.Consistent) (name : String) :
    (registry.types.named? name).isSome ↔
      (Primitive.ofName? name).isSome ∨ name ∈ Document.typeNames declarations := by
  have hnamed {type : SchemaType} (htype : type ∈ registry.types.named)
      (hname : type.designation = name) : (registry.types.named? name).isSome := by
    rw [consistent.types.named?_eq_some_iff.mpr ⟨htype, hname⟩]
    rfl
  constructor
  · intro hsome
    by_contra hneither
    obtain ⟨hprimitive, hnew⟩ := not_or.mp hneither
    rw [h.named?_eq_none (Option.not_isSome_iff_eq_none.mp hprimitive) hnew] at hsome
    cases hsome
  · rintro (hprimitive | hdeclared)
    · obtain ⟨primitive, hfound⟩ := Option.isSome_iff_exists.mp hprimitive
      have hname : primitive.name = name := by simpa using List.find?_some hfound
      exact hnamed (TypeTable.mem_named.mpr ⟨TypeTable.primitive_mem_types primitive, rfl⟩) hname
    · rw [← h.declared_names] at hdeclared
      obtain ⟨declared, hmem, hname⟩ := List.mem_map.mp hdeclared
      exact hnamed (TypeTable.mem_named.mpr ⟨TypeTable.declared_mem_types_iff.mpr hmem, rfl⟩) hname

/-- Only endpoints that are written are endpoints of the registry. -/
theorem Records.endpoint?_eq_none {declarations : List Declaration} {name : String}
    (h : Records declarations registry) (new : name ∉ Document.endpointNames declarations) :
    registry.endpoint? name = none := by
  unfold endpoint?
  rw [List.find?_eq_none]
  intro node hnode hfound
  obtain ⟨hendpoint, hname⟩ : node.isEndpoint = true ∧ node.name = name := by
    simpa using hfound
  obtain ⟨written, hwritten, hrecords⟩ := exists_left_of_forall₂ h.nodes hnode
  obtain ⟨declaration, hdeclaration, hwritten⟩ := List.mem_flatMap.mp hwritten
  obtain ⟨kind, hplace⟩ := hrecords.isEndpoint_iff.mp hendpoint
  have hintroduced := Declaration.endpointName?_of_place hwritten hplace
  apply new
  rw [Document.endpointNames, List.mem_map]
  refine ⟨written.name, List.mem_filterMap.mpr ⟨declaration, hdeclaration, hintroduced⟩, ?_⟩
  exact hrecords.name.symm.trans hname

/-- An endpoint that is written is an endpoint of the registry. -/
theorem Records.isSome_endpoint? {declarations : List Declaration} {name : String}
    (h : Records declarations registry) (mem : name ∈ Document.endpointNames declarations) :
    (registry.endpoint? name).isSome := by
  obtain ⟨token, htoken, rfl⟩ := List.mem_map.mp mem
  obtain ⟨declaration, hdeclaration, hname⟩ := List.mem_filterMap.mp htoken
  cases declaration with
  | typeAlias keyword name equals target => cases hname
  | block keyword name opening body closing => cases hname
  | endpoint kind keyword signature =>
    obtain rfl := Option.some.inj hname
    have hwritten : signature.written (.endpoint kind) ∈
        declarations.flatMap Declaration.writtenNodes :=
      List.mem_flatMap.mpr ⟨_, hdeclaration, List.mem_singleton.mpr rfl⟩
    obtain ⟨node, hnode, hrecords⟩ := exists_right_of_forall₂ h.nodes hwritten
    refine List.find?_isSome.mpr ⟨node, hnode, ?_⟩
    rw [Bool.and_eq_true, beq_iff_eq]
    exact ⟨hrecords.isEndpoint_iff.mpr ⟨kind, rfl⟩, hrecords.name⟩

/-! ### Adding a declaration -/

theorem drafts_eq {body : Body} (h : body.MembersDistinct) (owner : Token) :
    body.drafts = (body.writtenNodes owner).map WrittenNode.draft := by
  cases body with
  | enum values => rfl
  | union options => rfl
  | struct fields =>
    rw [Body.drafts, firsts_of_nodup _ h, Body.writtenNodes, List.map_map]
    rfl
  | resolver properties =>
    obtain ⟨hnames, hparameters⟩ := h
    rw [Body.drafts, firsts_of_nodup _ hnames, Body.writtenNodes, List.map_map]
    apply List.map_congr_left
    intro property hproperty
    rw [Signature.draft, firsts_of_nodup _ (hparameters property hproperty)]
    rfl

/-- The graph nodes that are added are recorded, and so are those that were there. -/
theorem Records.nodes_of_adds {declarations : List Declaration} (h : Records declarations registry)
    {base : Registry} (grows : registry.GrowsTo base) (sameNodes : base.nodes = registry.nodes)
    (sameParameters : base.parameters = registry.parameters)
    {owner : String} {kind : NodeKind} {written : List WrittenNode} {nodes : List GraphNode}
    {parameters : List Parameter}
    (adds : Adds owner kind (written.map WrittenNode.draft) base next nodes parameters)
    (places : ∀ node ∈ written, node.place.Matches base.types.declared kind ∧
      node.graphName = owner ++ node.name.text) :
    List.Forall₂ (RecordsNode next.types.declared next.parameters)
        (declarations.flatMap Declaration.writtenNodes ++ written) next.nodes ∧
      List.Forall₂ (RecordsNode next.types.declared next.parameters) written nodes ∧
      next.parameters.map Parameter.id = next.nodes.flatMap GraphNode.parameters := by
  have hgrows : parameters ⊆ next.parameters := by
    rw [adds.allParameters]
    exact List.subset_append_right _ _
  have hnew : List.Forall₂ (RecordsNode next.types.declared next.parameters) written nodes := by
    have hdrafted := adds.drafted
    rw [List.forall₂_map_left_iff] at hdrafted
    refine forall₂_imp_of_mem hdrafted ?_
    intro node hnode recorded _ hrecorded
    obtain ⟨hplace, hgraphName⟩ := places node hnode
    have hall := hrecorded.mono hgrows
    refine ⟨?_, hall.name, ?_, hall.position, hall.designation, hall.parameters⟩
    · rw [hall.kind, adds.sameTypes]
      exact hplace
    · rw [hall.graphName, hgraphName]
      rfl
  have hall := grows.trans adds.growsTo
  refine ⟨?_, hnew, ?_⟩
  · rw [adds.allNodes, sameNodes]
    exact List.rel_append (h.nodes.imp fun _ _ hold => hold.mono hall.types hall.parameters) hnew
  · rw [adds.allParameters, adds.allNodes, sameParameters, sameNodes, List.map_append,
      List.flatMap_append, h.parameters, adds.own]

theorem references_map_draft (written : List WrittenNode) :
    (written.map WrittenNode.draft).flatMap NodeDraft.references =
      written.flatMap WrittenNode.references := by
  rw [List.flatMap_map]
  rfl

/-- The registry after a type was declared that has no members yet. -/
def declaring (registry : Registry) (name : Token) (body : TypeBody)
    (references : List Designation) : Registry :=
  { registry with
    types := ⟨registry.types.assigned ++
      [.declared ⟨registry.types.nextId, name.text, name.start, body⟩]⟩
    references := registry.references ++ references }

theorem declared_declaring (registry : Registry) (name : Token) (body : TypeBody)
    (references : List Designation) :
    (registry.declaring name body references).types.declared =
      registry.types.declared ++ [⟨registry.types.nextId, name.text, name.start, body⟩] := by
  rw [declaring, TypeTable.declared, List.filterMap_append]
  rfl

/-- The references of the options of a union; other members refer by graph nodes. -/
def optionReferences : Body → List Designation
  | .union options => options.map TypeReference.designation
  | _ => []

theorem add_alias_eq {keyword name equals target : Token}
    (new : registry.types.named? name.text = none) :
    registry.add (.typeAlias keyword name equals target) =
      registry.declaring name (.typeAlias target.bareDesignation none)
        [target.bareDesignation] := by
  unfold add TypeTable.declare
  dsimp only
  rw [new]
  rfl

theorem add_block_eq {keyword name opening closing : Token} {body : Body}
    (distinct : body.MembersDistinct) (new : registry.types.named? name.text = none) :
    registry.add (.block keyword name opening body closing) =
      ((body.writtenNodes name).map WrittenNode.draft).foldl
        (addNode (name.text ++ ".") (body.nodeKind registry.types.nextId))
        (registry.declaring name (body.declared (registry.nodes.length + 1))
          (optionReferences body)) := by
  unfold add TypeTable.declare
  dsimp only
  rw [new, ← drafts_eq distinct]
  cases body with
  | union options =>
    dsimp only
    rw [Body.references, firsts_of_nodup]
    · rfl
    · rw [List.map_map]
      exact distinct
  | enum values => simp [optionReferences, declaring]
  | struct fields => simp [optionReferences, declaring]
  | resolver properties => simp [optionReferences, declaring]

theorem add_endpoint_eq {kind : EndpointKind} {keyword : Token} {signature : Signature}
    (distinct : signature.ParametersDistinct)
    (new : registry.endpoint? signature.name.text = none) :
    registry.add (.endpoint kind keyword signature) =
      ([signature.written (.endpoint kind)].map WrittenNode.draft).foldl
        (addNode "" kind.nodeKind) registry := by
  unfold add
  dsimp only
  rw [new]
  have hdraft : signature.draft = (signature.written (.endpoint kind)).draft := by
    rw [Signature.draft, firsts_of_nodup _ distinct]
    rfl
  rw [hdraft]
  rfl

theorem filter_declaresType (declarations : List Declaration) (declaration : Declaration)
    (h : declaration.declaresType = true) :
    (declarations ++ [declaration]).filter Declaration.declaresType =
      declarations.filter Declaration.declaresType ++ [declaration] := by
  rw [List.filter_append, List.filter_cons_of_pos h, List.filter_nil]

theorem flatMap_concat {α β : Type} (entries : List α) (entry : α) (f : α → List β) :
    (entries ++ [entry]).flatMap f = entries.flatMap f ++ f entry := by
  rw [List.flatMap_append, List.flatMap_singleton]

theorem Records.add_alias {declarations : List Declaration} (h : Records declarations registry)
    {keyword name equals target : Token} (new : registry.types.named? name.text = none) :
    Records (declarations ++ [.typeAlias keyword name equals target])
      (registry.add (.typeAlias keyword name equals target)) := by
  rw [add_alias_eq new]
  have hsub : registry.types.declared ⊆ (registry.declaring name
      (.typeAlias target.bareDesignation none) [target.bareDesignation]).types.declared := by
    rw [declared_declaring]
    exact List.subset_append_left _ _
  have hgrows : registry.GrowsTo (registry.declaring name
      (.typeAlias target.bareDesignation none) [target.bareDesignation]) :=
    ⟨hsub, List.Subset.refl _, List.Subset.refl _⟩
  refine ⟨?_, ?_, h.parameters, ?_⟩
  · rw [filter_declaresType _ _ rfl, declared_declaring]
    refine List.rel_append (h.types.imp fun _ _ hold => hold.mono hgrows) (.cons ?_ .nil)
    exact ⟨rfl, rfl, none, rfl⟩
  · rw [flatMap_concat, Declaration.writtenNodes, List.append_nil]
    exact h.nodes.imp fun _ _ hold => hold.mono hsub (List.Subset.refl _)
  · rw [flatMap_concat, ← h.references]
    rfl

/-- The members of a declared type are recorded if its graph nodes are. -/
theorem recordsBody_declared {body : Body} (distinct : body.MembersDistinct) {owner : Token}
    {count : Nat} {nodes : List GraphNode} (sub : nodes ⊆ registry.nodes)
    (numbers : nodes.map GraphNode.id =
      (List.range' (count + 1) (body.writtenNodes owner).length).map NodeId.mk)
    (recorded : List.Forall₂ (RecordsNode registry.types.declared registry.parameters)
      (body.writtenNodes owner) nodes) :
    registry.RecordsBody owner body (body.declared (count + 1)) := by
  have hids : (List.range' (count + 1) body.drafts.length).map NodeId.mk =
      nodes.map GraphNode.id := by
    rw [drafts_eq distinct owner, List.length_map, numbers]
  have hmembers : List.Forall₂ registry.RecordsMember (body.writtenNodes owner)
      (nodes.map GraphNode.id) := by
    rw [List.forall₂_map_right_iff]
    refine forall₂_imp_of_mem recorded ?_
    intro written _ node hnode hrecords
    exact ⟨node, sub hnode, rfl, hrecords⟩
  unfold Body.declared
  dsimp only
  rw [hids]
  cases body with
  | enum values =>
    dsimp only
    rw [firsts_of_nodup _ distinct]
    rfl
  | union options =>
    refine ⟨_, rfl, ?_⟩
    rw [firsts_of_nodup, List.map_map]
    · exact List.map_id _
    · rw [List.map_map]
      exact distinct
  | struct fields =>
    rw [Body.writtenNodes, List.forall₂_map_left_iff] at hmembers
    exact ⟨_, rfl, hmembers⟩
  | resolver properties =>
    rw [Body.writtenNodes, List.forall₂_map_left_iff] at hmembers
    exact ⟨_, rfl, hmembers⟩

theorem writtenNodes_place {body : Body} {owner : Token} {node : WrittenNode}
    (h : node ∈ body.writtenNodes owner) {types : List DeclaredType} {type : DeclaredType}
    (mem : type ∈ types) (name : type.name = owner.text) :
    node.place.Matches types (body.nodeKind type.id) ∧
      node.graphName = owner.text ++ "." ++ node.name.text := by
  cases body with
  | enum values => cases h
  | union options => cases h
  | struct fields =>
    obtain ⟨field, -, rfl⟩ := List.mem_map.mp h
    exact ⟨⟨type, mem, name, rfl⟩, rfl⟩
  | resolver properties =>
    obtain ⟨property, -, rfl⟩ := List.mem_map.mp h
    exact ⟨⟨type, mem, name, rfl⟩, rfl⟩

theorem references_block {keyword name opening closing : Token} (body : Body) :
    (Declaration.block keyword name opening body closing).references =
      optionReferences body ++ (body.writtenNodes name).flatMap WrittenNode.references := by
  cases body with
  | union options => exact (List.append_nil _).symm
  | enum values => rfl
  | struct fields => rfl
  | resolver properties => rfl

theorem Records.add_block {declarations : List Declaration} (h : Records declarations registry)
    {keyword name opening closing : Token} {body : Body} (distinct : body.MembersDistinct)
    (new : registry.types.named? name.text = none) :
    Records (declarations ++ [.block keyword name opening body closing])
      (registry.add (.block keyword name opening body closing)) := by
  rw [add_block_eq distinct new]
  -- first the type is declared, then the graph nodes of its members are added
  generalize hbase : registry.declaring name (body.declared (registry.nodes.length + 1))
    (optionReferences body) = base
  have hdeclared : base.types.declared = registry.types.declared ++ [⟨registry.types.nextId,
      name.text, name.start, body.declared (registry.nodes.length + 1)⟩] := by
    rw [← hbase]
    exact declared_declaring _ _ _ _
  have hnodes : base.nodes = registry.nodes := by
    rw [← hbase]
    rfl
  have hparameters : base.parameters = registry.parameters := by
    rw [← hbase]
    rfl
  have hreferences : base.references = registry.references ++ optionReferences body := by
    rw [← hbase]
    rfl
  obtain ⟨nodes, parameters, hadds⟩ := exists_adds (name.text ++ ".")
    (body.nodeKind registry.types.nextId) ((body.writtenNodes name).map WrittenNode.draft) base
  generalize ((body.writtenNodes name).map WrittenNode.draft).foldl
    (addNode (name.text ++ ".") (body.nodeKind registry.types.nextId)) base = last at hadds ⊢
  have hbefore : registry.GrowsTo base := by
    refine ⟨?_, ?_, ?_⟩
    · rw [hdeclared]
      exact List.subset_append_left _ _
    · rw [hnodes]
      exact List.Subset.refl _
    · rw [hparameters]
      exact List.Subset.refl _
  have hmem : ⟨registry.types.nextId, name.text, name.start,
      body.declared (registry.nodes.length + 1)⟩ ∈ base.types.declared := by
    rw [hdeclared]
    exact List.mem_append_right _ (List.mem_singleton.mpr rfl)
  obtain ⟨hall, hnew, hown⟩ := h.nodes_of_adds hbefore hnodes hparameters hadds
    fun node hnode => writtenNodes_place hnode hmem rfl
  have hgrows : registry.GrowsTo last := hbefore.trans hadds.growsTo
  refine ⟨?_, ?_, hown, ?_⟩
  · rw [filter_declaresType _ _ rfl, hadds.sameTypes, hdeclared]
    refine List.rel_append (h.types.imp fun _ _ hold => hold.mono hgrows) (.cons ?_ .nil)
    refine ⟨rfl, rfl, recordsBody_declared distinct ?_ ?_ hnew⟩
    · rw [hadds.allNodes]
      exact List.subset_append_right _ _
    · rw [hadds.numbers, hnodes, List.length_map]
  · rw [flatMap_concat]
    exact hall
  · rw [flatMap_concat, references_block, hadds.allReferences, hreferences, h.references,
      references_map_draft, List.append_assoc]

theorem Records.add_endpoint {declarations : List Declaration} (h : Records declarations registry)
    {kind : EndpointKind} {keyword : Token} {signature : Signature}
    (distinct : signature.ParametersDistinct)
    (new : registry.endpoint? signature.name.text = none) :
    Records (declarations ++ [.endpoint kind keyword signature])
      (registry.add (.endpoint kind keyword signature)) := by
  rw [add_endpoint_eq distinct new]
  obtain ⟨nodes, parameters, hadds⟩ := exists_adds "" kind.nodeKind
    ([signature.written (.endpoint kind)].map WrittenNode.draft) registry
  generalize ([signature.written (.endpoint kind)].map WrittenNode.draft).foldl
    (addNode "" kind.nodeKind) registry = last at hadds ⊢
  obtain ⟨hall, -, hown⟩ := h.nodes_of_adds (.refl registry) rfl rfl hadds (by
    intro node hnode
    obtain rfl := List.mem_singleton.mp hnode
    exact ⟨rfl, rfl⟩)
  have hgrows : registry.GrowsTo last := hadds.growsTo
  refine ⟨?_, ?_, hown, ?_⟩
  · -- an endpoint declares no type
    have hnone :
        [Declaration.endpoint kind keyword signature].filter Declaration.declaresType = [] := rfl
    rw [List.filter_append, hnone, List.append_nil, hadds.sameTypes]
    exact h.types.imp fun _ _ hold => hold.mono hgrows
  · rw [flatMap_concat]
    exact hall
  · rw [flatMap_concat, hadds.allReferences, h.references, references_map_draft]
    rfl

/-- A declaration whose names are new is recorded with those before. -/
theorem Records.add {declarations : List Declaration} (h : Records declarations registry)
    {declaration : Declaration} (names : Document.NamesDistinct (declarations ++ [declaration]))
    (members : declaration.MembersDistinct) :
    Records (declarations ++ [declaration]) (registry.add declaration) := by
  obtain ⟨htypes, hprimitives, hendpoints⟩ := names
  -- a type of that name would have been written before
  have hnew (name : Token) (hname : declaration.typeName? = some name) :
      registry.types.named? name.text = none := by
    have hall : Document.typeNames (declarations ++ [declaration]) =
        Document.typeNames declarations ++ [name.text] := by
      simp [Document.typeNames, hname]
    rw [hall] at htypes hprimitives
    refine h.named?_eq_none (hprimitives name.text (by simp)) ?_
    intro hmem
    exact (List.nodup_append.mp htypes).2.2 _ hmem _ (List.mem_singleton.mpr rfl) rfl
  cases declaration with
  | typeAlias keyword name equals target => exact h.add_alias (hnew name rfl)
  | block keyword name opening body closing => exact h.add_block members (hnew name rfl)
  | endpoint kind keyword signature =>
    refine h.add_endpoint members (h.endpoint?_eq_none ?_)
    have hall : Document.endpointNames (declarations ++ [.endpoint kind keyword signature]) =
        Document.endpointNames declarations ++ [signature.name.text] := by
      simp [Document.endpointNames, Declaration.endpointName?]
    rw [hall] at hendpoints
    intro hmem
    exact (List.nodup_append.mp hendpoints).2.2 _ hmem _ (List.mem_singleton.mpr rfl) rfl

theorem records_empty : Records [] empty :=
  ⟨.nil, .nil, rfl, rfl⟩

/-- The registry of declarations with distinct names records all of them. -/
theorem records_ofDeclarations (declarations : List Declaration)
    (names : Document.NamesDistinct declarations)
    (members : ∀ declaration ∈ declarations, declaration.MembersDistinct) :
    Records declarations (ofDeclarations declarations) := by
  -- the declarations are added from the first to the last, so the induction takes off the last one
  induction declarations using List.reverseRecOn with
  | nil => exact records_empty
  | append_singleton declarations declaration ih =>
    have hbefore := ih names.of_append
      fun other hother => members other (List.mem_append_left _ hother)
    rw [ofDeclarations, List.foldl_append, List.foldl_cons, List.foldl_nil]
    exact hbefore.add names (members declaration (by simp))

end GraphSchema.Registry
