import GraphSchema.Proofs.Descent.Jobs
import GraphSchema.Proofs.Registry.Refused
import GraphSchema.Proofs.Scan.Registered

/-!
# Scans and registries agree

A scan of a declaration registers what the registry adds for it, and nothing if the registry refuses
it (`Scan.declaration_gives`).  The jobs that are queued meanwhile are those of what is kept, and
they stay what they are when more is registered (`Registry.Queues`, `Registry.queues_newJobs`).
-/

namespace GraphSchema

namespace Registry

variable {registry : Registry}

/-! ### What a declaration adds -/

/-- Which graph nodes and parameters are added has nothing to do with types and references. -/
theorem addNodes_congr (owner : String) (kind : NodeKind) (drafts : List NodeDraft)
    {other : Registry} (nodes : other.nodes = registry.nodes)
    (parameters : other.parameters = registry.parameters) :
    (drafts.foldl (addNode owner kind) other).nodes =
        (drafts.foldl (addNode owner kind) registry).nodes ∧
      (drafts.foldl (addNode owner kind) other).parameters =
        (drafts.foldl (addNode owner kind) registry).parameters := by
  induction drafts generalizing registry other with
  | nil => exact ⟨nodes, parameters⟩
  | cons draft drafts ih =>
    rw [List.foldl_cons, List.foldl_cons]
    refine ih ?_ ?_
    · simp only [addNode_eq, draftNode, nodes, parameters]
    · simp only [addNode_eq, nodes, parameters]

/-- A block whose name is new adds its type, and the graph nodes of its members. -/
theorem add_block_of_new (keyword opening closing : Token) {name : Token} (body : Body)
    (new : registry.types.named? name.text = none) :
    (registry.add (.block keyword name opening body closing)).types =
        registry.types.declaring name (body.declared (registry.nodes.length + 1)) ∧
      (registry.add (.block keyword name opening body closing)).nodes =
        (registry.addMembers name registry.types.nextId body).nodes ∧
      (registry.add (.block keyword name opening body closing)).parameters =
        (registry.addMembers name registry.types.nextId body).parameters := by
  rw [← add_kept, Declaration.kept, add_block_eq body.membersDistinct_kept new,
    ← drafts_eq body.membersDistinct_kept, Body.drafts_kept, Body.nodeKind_kept, Body.declared_kept]
  exact ⟨types_addNodes _ _ _ _, addNodes_congr _ _ _ rfl rfl⟩

theorem graphCatalog_congr {other : Registry} (nodes : other.nodes = registry.nodes)
    (parameters : other.parameters = registry.parameters) :
    other.graphCatalog = registry.graphCatalog := by
  rw [graphCatalog, nodes, parameters, graphCatalog]

/-- An endpoint whose name is new adds its graph node. -/
theorem add_endpoint_of_new {kind : EndpointKind} (keyword : Token) {signature : Signature}
    (new : registry.endpoint? signature.name.text = none) :
    registry.add (.endpoint kind keyword signature) =
      registry.addNode "" kind.nodeKind signature.draft := by
  simp only [add, new]

/-- The jobs that a declaration queues: none if it is refused. -/
def newJobs (registry : Registry) (declaration : Declaration) : List QueuedJob :=
  if registry.Refuses declaration then [] else registry.declarationJobs declaration

theorem refuses_block_iff {keyword name opening closing : Token} {body : Body} :
    registry.Refuses (.block keyword name opening body closing) ↔
      (registry.types.named? name.text).isSome := by
  simp [Refuses, Declaration.typeName?, Declaration.endpointName?]

theorem refuses_alias_iff {keyword name equals target : Token} :
    registry.Refuses (.typeAlias keyword name equals target) ↔
      (registry.types.named? name.text).isSome := by
  simp [Refuses, Declaration.typeName?, Declaration.endpointName?]

theorem refuses_endpoint_iff {kind : EndpointKind} {keyword : Token} {signature : Signature} :
    registry.Refuses (.endpoint kind keyword signature) ↔
      (registry.endpoint? signature.name.text).isSome := by
  simp [Refuses, Declaration.typeName?, Declaration.endpointName?]

theorem not_refuses_block_iff {keyword name opening closing : Token} {body : Body} :
    ¬ registry.Refuses (.block keyword name opening body closing) ↔
      registry.types.named? name.text = none :=
  refuses_block_iff.not.trans Option.not_isSome_iff_eq_none

theorem not_refuses_alias_iff {keyword name equals target : Token} :
    ¬ registry.Refuses (.typeAlias keyword name equals target) ↔
      registry.types.named? name.text = none :=
  refuses_alias_iff.not.trans Option.not_isSome_iff_eq_none

theorem not_refuses_endpoint_iff {kind : EndpointKind} {keyword : Token} {signature : Signature} :
    ¬ registry.Refuses (.endpoint kind keyword signature) ↔
      registry.endpoint? signature.name.text = none :=
  refuses_endpoint_iff.not.trans Option.not_isSome_iff_eq_none

end Registry

namespace Scan

variable {ε μ : Type} {registry : Registry} {scanner : Scanner}

/-- What a scan of a declaration has registered. -/
structure Adds (registry : Registry) (declaration : Declaration) (before after : Scanner) :
    Prop where
  types : after.types = (registry.add declaration).types.catalog
  graph : after.graph = (registry.add declaration).graphCatalog
  jobs : after.jobs = before.jobs ++ registry.newJobs declaration

/-- Before a declaration is read, the catalogs hold a registry. -/
structure Stands (registry : Registry) (scanner : Scanner) : Prop where
  consistent : registry.Consistent
  types : scanner.types = registry.types.catalog
  graph : scanner.graph = registry.graphCatalog

theorem Stands.read (h : Stands registry scanner) (rest : Lexer) :
    Stands registry { scanner with lexer := rest } :=
  ⟨h.consistent, h.types, h.graph⟩

/-- Nothing is registered for a declaration that is refused. -/
theorem Stands.adds_of_refuses (h : Stands registry scanner) {declaration : Declaration}
    (refused : registry.Refuses declaration) {before after : Scanner}
    (jobs : scanner.jobs = before.jobs) (same : scanner.OnlyReports after) :
    Adds registry declaration before after := by
  refine ⟨?_, ?_, ?_⟩
  · rw [Registry.add_of_refuses refused, same.types, h.types]
  · rw [Registry.add_of_refuses refused, same.graph, h.graph]
  · rw [Registry.newJobs, if_pos refused, List.append_nil, same.jobs, jobs]

/-- A type is declared if its name is new, and reported otherwise. -/
theorem declare_cases (h : Stands registry scanner) (name : Token) (body : TypeBody) :
    (∃ type, registry.types.named? name.text = some type ∧
      declare name body scanner = some (.ok none, { scanner with
        problems := scanner.problems ++
          [.typeRedeclared name.text name.start type.position?] })) ∨
    registry.types.named? name.text = none ∧
      declare name body scanner = some (.ok (some registry.types.nextId),
        { scanner with types := (registry.types.declaring name body).catalog }) := by
  rw [declare_apply, h.types]
  cases hnamed : registry.types.named? name.text with
  | some type =>
    rw [TypeTable.catalog_declare_of_taken h.consistent.types hnamed]
    exact .inl ⟨type, rfl, rfl⟩
  | none =>
    rw [TypeTable.catalog_declare_of_new hnamed]
    exact .inr ⟨rfl, rfl⟩

/-- An endpoint is registered if its name is new, and reported otherwise. -/
theorem endpointNode_cases (h : Stands registry scanner) (kind : EndpointKind) (name : Token)
    (type : TypeReference) :
    (∃ node, registry.endpoint? name.text = some node ∧
      endpointNode kind name scanner = some (.ok none, { scanner with
        problems := scanner.problems ++
          [.endpointRedeclared name.text name.start node.position] })) ∨
    registry.endpoint? name.text = none ∧
      endpointNode kind name scanner = some (.ok (some ⟨registry.nodes.length + 1⟩),
        { scanner with
          graph := (registry.addNode "" kind.nodeKind ⟨name, [], type⟩).graphCatalog }) := by
  rw [endpointNode_apply, h.graph]
  cases hendpoint : registry.endpoint? name.text with
  | some node =>
    rw [Registry.graphCatalog_claim_of_taken hendpoint]
    exact .inl ⟨node, rfl, rfl⟩
  | none =>
    obtain ⟨graph, hclaim, hadd⟩ := Registry.graphCatalog_claim_of_new hendpoint kind type
    rw [hclaim]
    dsimp only
    rw [hadd]
    exact .inr ⟨rfl, rfl⟩

/-! ### Declarations -/

theorem typeAlias_gives (h : Stands registry scanner) :
    typeAlias.Gives scanner fun declaration => Adds registry declaration scanner := by
  -- all tokens of an alias are read before its name is claimed
  refine gives_asks_bind fun keyword _ => gives_asks_bind fun name _ => gives_asks_bind
    fun equals _ => gives_asks_bind fun target rest => ?_
  rcases declare_cases (h.read rest) name (.typeAlias target.bareDesignation none) with
    ⟨type, htaken, hdeclare⟩ | ⟨hnew, hdeclare⟩
  · have hrefused : registry.Refuses (.typeAlias keyword name equals target) :=
      Registry.refuses_alias_iff.mpr (Option.isSome_of_eq_some htaken)
    refine leads_bind_of_eq hdeclare (leads_of_eq rfl (h.adds_of_refuses hrefused rfl ?_))
    exact ⟨rfl, rfl, List.append_nil _, List.prefix_append _ _⟩
  · refine leads_bind_of_eq hdeclare (leads_of_eq rfl ⟨?_, ?_, ?_⟩)
    · rw [Registry.add_alias_eq hnew]
      rfl
    · rw [Registry.add_alias_eq hnew]
      exact h.graph
    · rw [Registry.newJobs, if_neg (Registry.not_refuses_alias_iff.mpr hnew)]
      rfl

/-- A block is refused, or its type and the members are registered. -/
theorem block_gives {rule : BlockRule ε μ} {name : ε → String} {position : ε → Cursor}
    (registers : rule.RegistersMembers name position) (skips : rule.SkipsUndeclared)
    (h : Stands registry scanner) : (block rule).Gives scanner fun (declared, declaration) after =>
      ∃ keyword name opening entries closing,
        declaration = .block keyword name opening (rule.written entries) closing ∧
        ((registry.types.named? name.text).isSome ∧ declared = none ∧ scanner.OnlyReports after ∨
          registry.types.named? name.text = none ∧ declared = some registry.types.nextId ∧
          after.types = (registry.add declaration).types.catalog ∧
          after.graph = (registry.add declaration).graphCatalog ∧
          after.jobs = scanner.jobs ++
            registry.membersJobs name registry.types.nextId (rule.written entries)) := by
  refine gives_asks_bind fun keyword _ => gives_asks_bind fun name rest => ?_
  rcases declare_cases (h.read rest) name (rule.made []) with
    ⟨type, htaken, hdeclare⟩ | ⟨hnew, hdeclare⟩
  · refine leads_bind_of_eq hdeclare ?_
    refine Leads.bind ((braces_onlyReports skips name).gives _)
      fun ⟨opening, entries, closing⟩ after hsame => leads_pure ?_
    exact ⟨keyword, name, opening, entries, closing, rfl, .inl ⟨Option.isSome_of_eq_some htaken,
      rfl, hsame.types, hsame.graph, hsame.jobs,
      (List.prefix_append _ _).trans hsame.problems⟩⟩
  · refine leads_bind_of_eq hdeclare ?_
    refine Leads.bind (braces_gives registers h.consistent rfl h.graph) ?_
    rintro ⟨opening, entries, closing⟩ after ⟨htypes, hgraph, hjobs⟩
    obtain ⟨haddTypes, hnodes, hparameters⟩ :=
      Registry.add_block_of_new keyword opening closing (rule.written entries) hnew
    exact leads_pure ⟨keyword, name, opening, entries, closing, rfl, .inr ⟨hnew, rfl,
      htypes.trans (congrArg TypeTable.catalog haddTypes.symm),
      hgraph.trans (Registry.graphCatalog_congr hnodes hparameters).symm, hjobs⟩⟩

/-- A block other than a union has the jobs of its members. -/
theorem plainBlock_gives {rule : BlockRule ε μ} {name : ε → String} {position : ε → Cursor}
    (registers : rule.RegistersMembers name position) (skips : rule.SkipsUndeclared)
    (plain : ∀ entries options, rule.written entries ≠ .union options)
    (h : Stands registry scanner) :
    (plainBlock rule).Gives scanner fun declaration => Adds registry declaration scanner := by
  refine Leads.bind (block_gives registers skips h) ?_
  rintro ⟨declared, _⟩ after ⟨keyword, name, opening, entries, closing, rfl,
    ⟨htaken, -, hsame⟩ | ⟨hnew, -, htypes, hgraph, hjobs⟩⟩
  · exact leads_pure (h.adds_of_refuses (Registry.refuses_block_iff.mpr htaken) rfl hsame)
  · refine leads_pure ⟨htypes, hgraph, ?_⟩
    rw [hjobs, Registry.newJobs, if_neg (Registry.not_refuses_block_iff.mpr hnew)]
    have hplain := plain entries
    cases hwritten : rule.written entries with
    | union options => exact absurd hwritten (hplain options)
    | enum values => rfl
    | struct fields => rfl
    | resolver properties => rfl

/-- The options of a union have one job together. -/
theorem union_gives (h : Stands registry scanner) :
    union.Gives scanner fun declaration => Adds registry declaration scanner := by
  refine Leads.bind (block_gives unionRule_registers unionRule_skipsUndeclared h) ?_
  rintro ⟨declared, _⟩ after ⟨keyword, name, opening, options, closing, rfl,
    ⟨htaken, rfl, hsame⟩ | ⟨hnew, rfl, htypes, hgraph, hjobs⟩⟩
  · refine leads_of_eq rfl (h.adds_of_refuses (Registry.refuses_block_iff.mpr htaken) rfl ?_)
    exact ⟨hsame.types, hsame.graph, (List.append_nil _).trans hsame.jobs, hsame.problems⟩
  · refine leads_of_eq rfl ⟨htypes, hgraph, ?_⟩
    rw [Registry.newJobs, if_neg (Registry.not_refuses_block_iff.mpr hnew)]
    exact congrArg (· ++ [_]) (hjobs.trans (List.append_nil _))

/-- An endpoint is refused, or it and its parameters are registered. -/
theorem endpoint_gives (kind : EndpointKind) (h : Stands registry scanner) :
    (endpoint kind).Gives scanner fun declaration => Adds registry declaration scanner := by
  refine gives_asks_bind fun keyword _ => gives_asks_bind fun name rest => ?_
  rcases endpointNode_cases (h.read rest) kind name default with
    ⟨node, htaken, hnode⟩ | ⟨hnew, hnode⟩
  · refine leads_bind_of_eq hnode ?_
    refine Leads.bind (((signature_onlyReports name name.text).gives _).and
      (signature_name name none name.text _)) ?_
    rintro signature after ⟨hsame, rfl⟩
    have hrefused : registry.Refuses (.endpoint kind keyword signature) :=
      Registry.refuses_endpoint_iff.mpr (Option.isSome_of_eq_some htaken)
    exact leads_pure (h.adds_of_refuses hrefused rfl ⟨hsame.types, hsame.graph, hsame.jobs,
      (List.prefix_append _ _).trans hsame.problems⟩)
  · refine leads_bind_of_eq hnode ?_
    have htakes : ∀ parent, kind.nodeKind ≠ .structField parent := by
      cases kind <;> exact fun _ => NodeKind.noConfusion
    have hholds : HoldsNode registry "" kind.nodeKind ⟨name, [], default⟩ scanner
        { scanner with
          lexer := rest
          graph := (registry.addNode "" kind.nodeKind ⟨name, [], default⟩).graphCatalog } :=
      ⟨rfl, rfl, (List.append_nil _).symm⟩
    refine Leads.bind (signature_gives h.consistent htakes hholds name.text) ?_
    rintro signature after ⟨rfl, htypes, hgraph, hjobs⟩
    refine leads_pure ⟨?_, ?_, ?_⟩
    · rw [Registry.add_endpoint_of_new keyword hnew, htypes, h.types]
      rfl
    · rw [Registry.add_endpoint_of_new keyword hnew, hgraph]
    · rw [Registry.newJobs, if_neg (Registry.not_refuses_endpoint_iff.mpr hnew), hjobs]
      rfl

/-- A scan of a declaration registers what the registry adds for it. -/
theorem declaration_gives (token : Token) (h : Stands registry scanner) :
    (declaration token).Gives scanner fun declaration => Adds registry declaration scanner := by
  unfold declaration
  split
  · exact typeAlias_gives h
  · exact plainBlock_gives enumRule_registers enumRule_skipsUndeclared
      (fun _ _ => Body.noConfusion) h
  · exact union_gives h
  · exact plainBlock_gives structRule_registers structRule_skipsUndeclared
      (fun _ _ => Body.noConfusion) h
  · exact plainBlock_gives resolverRule_registers resolverRule_skipsUndeclared
      (fun _ _ => Body.noConfusion) h
  · exact endpoint_gives .query h
  · exact endpoint_gives .mutation h
  · intro outcome after hresult
    cases hresult
    trivial

end Scan

/-! ### What jobs resolve -/

/-- The jobs of a graph node before it has a number. -/
def NodeDraft.jobs (draft : NodeDraft) : List Job :=
  draft.parameters.map (fun parameter => parameter.type.job) ++ [draft.type.job]

namespace Registry

variable {registry next : Registry}

/-- A job that is queued is that of a type, a graph node or a parameter that was registered, and
resolves the designations that are written there. -/
inductive Queues (registry : Registry) : QueuedJob → Job → Prop
  | target (type : DeclaredType) {target : Designation} (declared : type ∈ registry.types.declared)
      (body : type.body = .typeAlias target none) :
      Queues registry (.target type.id target) [target]
  | options (type : DeclaredType) {options : List UnionOption}
      (declared : type ∈ registry.types.declared) (body : type.body = .union options) :
      Queues registry (.options type.id) (options.map UnionOption.designation)
  | node {node : GraphNode} (registered : node ∈ registry.nodes) :
      Queues registry (.node node.id node.designation) [node.designation]
  | parameter {parameter : Parameter} (registered : parameter ∈ registry.parameters) :
      Queues registry (.parameter parameter.id parameter.designation) [parameter.designation]

theorem Queues.mono {queued : QueuedJob} {job : Job} (h : registry.Queues queued job)
    (grows : registry.GrowsTo next) : next.Queues queued job := by
  cases h with
  | target type declared body => exact .target type (grows.types declared) body
  | options type declared body => exact .options type (grows.types declared) body
  | node registered => exact .node (grows.nodes registered)
  | parameter registered => exact .parameter (grows.parameters registered)

/-- The jobs of a graph node are those of its parameters, then its own. -/
theorem queues_draftJobs (owner : String) (kind : NodeKind) (draft : NodeDraft) :
    List.Forall₂ (addNode owner kind registry draft).Queues (registry.draftJobs draft)
      draft.jobs := by
  refine List.rel_append ?_ (.cons ?_ .nil)
  · rw [List.forall₂_map_left_iff, List.forall₂_map_right_iff]
    refine forall₂_imp_of_mem
      (draftParameters_records registry.parameters.length ⟨registry.nodes.length + 1⟩ draft).flip ?_
    intro parameter hparameter written _ hrecords
    have hjob : (addNode owner kind registry draft).Queues
        (.parameter parameter.id parameter.designation) [parameter.designation] :=
      .parameter (List.mem_append_right _ hparameter)
    rwa [hrecords.designation] at hjob ⊢
  · have hnode : draftNode owner kind registry draft ∈ (addNode owner kind registry draft).nodes :=
      List.mem_append_right _ (List.mem_singleton.mpr rfl)
    exact .node hnode

/-- The jobs of graph nodes, one graph node after the other. -/
theorem queues_draftsJobs (owner : String) (kind : NodeKind) (drafts : List NodeDraft)
    (registry : Registry) :
    List.Forall₂ (drafts.foldl (addNode owner kind) registry).Queues
      (draftsJobs owner kind registry drafts) (drafts.flatMap NodeDraft.jobs) := by
  induction drafts generalizing registry with
  | nil => exact .nil
  | cons draft drafts ih =>
    obtain ⟨_, _, hadds⟩ := exists_adds owner kind drafts (addNode owner kind registry draft)
    exact List.rel_append
      ((queues_draftJobs owner kind draft).imp fun _ _ hjob => hjob.mono hadds.growsTo) (ih _)

/-- The graph nodes that are written have the jobs of what they add. -/
theorem flatMap_jobs_draft (written : List WrittenNode) :
    (written.map WrittenNode.draft).flatMap NodeDraft.jobs = written.flatMap WrittenNode.jobs := by
  rw [List.flatMap_map]
  rfl

/-- Nothing gets lost when a block is added. -/
theorem growsTo_add_block (keyword opening closing : Token) {name : Token} (body : Body)
    (new : registry.types.named? name.text = none) :
    (registry.addMembers name registry.types.nextId body).GrowsTo
      (registry.add (.block keyword name opening body closing)) := by
  obtain ⟨htypes, hnodes, hparameters⟩ := add_block_of_new keyword opening closing body new
  refine ⟨?_, hnodes ▸ List.Subset.refl _, hparameters ▸ List.Subset.refl _⟩
  rw [htypes, addMembers, types_addNodes, TypeTable.declared_declaring]
  exact List.subset_append_left _ _

theorem growsTo_add (registry : Registry) (declaration : Declaration) :
    registry.GrowsTo (registry.add declaration) := by
  by_cases hrefused : registry.Refuses declaration
  · rw [add_of_refuses hrefused]
    exact .refl registry
  cases declaration with
  | typeAlias keyword name equals target =>
    rw [add_alias_eq (not_refuses_alias_iff.mp hrefused)]
    refine ⟨?_, List.Subset.refl _, List.Subset.refl _⟩
    rw [declared_declaring]
    exact List.subset_append_left _ _
  | block keyword name opening body closing =>
    obtain ⟨_, _, hadds⟩ := exists_adds (name.text ++ ".") (body.nodeKind registry.types.nextId)
      body.drafts registry
    exact hadds.growsTo.trans
      (growsTo_add_block keyword opening closing body (not_refuses_block_iff.mp hrefused))
  | endpoint kind keyword signature =>
    have hnew := not_refuses_endpoint_iff.mp hrefused
    obtain ⟨_, _, hadds⟩ := exists_adds "" kind.nodeKind [signature.draft] registry
    rw [add_endpoint_of_new keyword hnew]
    exact hadds.growsTo

/-- The jobs that a declaration queues are those of what is kept of it. -/
theorem queues_newJobs (registry : Registry) (declaration : Declaration) :
    List.Forall₂ (registry.add declaration).Queues (registry.newJobs declaration)
      (if registry.Refuses declaration then [] else declaration.kept.jobs) := by
  unfold newJobs
  by_cases hrefused : registry.Refuses declaration
  · rw [if_pos hrefused, if_pos hrefused]
    exact .nil
  rw [if_neg hrefused, if_neg hrefused]
  cases declaration with
  | typeAlias keyword name equals target =>
    have hnew := not_refuses_alias_iff.mp hrefused
    rw [add_alias_eq hnew]
    refine .cons (.target ⟨registry.types.nextId, name.text, name.start, _⟩ ?_ rfl) .nil
    rw [declared_declaring]
    exact List.mem_append_right _ (List.mem_singleton.mpr rfl)
  | block keyword name opening body closing =>
    have hnew := not_refuses_block_iff.mp hrefused
    have hgrows := growsTo_add_block keyword opening closing body hnew
    have hmembers : List.Forall₂ (registry.add (.block keyword name opening body closing)).Queues
        (registry.membersJobs name registry.types.nextId body)
        ((body.kept.writtenNodes name).flatMap WrittenNode.jobs) := by
      rw [← flatMap_jobs_draft, ← drafts_eq body.membersDistinct_kept, Body.drafts_kept]
      exact (queues_draftsJobs _ _ _ registry).imp fun _ _ hjob => hjob.mono hgrows
    cases body with
    | enum values => exact hmembers
    | struct fields => exact hmembers
    | resolver properties => exact hmembers
    | union options =>
      obtain ⟨htypes, -, -⟩ := add_block_of_new keyword opening closing (.union options) hnew
      have hoptions : ((firsts Designation.canonical (options.map TypeReference.designation)).map
          fun option => (⟨option, none⟩ : UnionOption)).map UnionOption.designation =
          (firsts (fun option => option.designation.canonical) options).map
            TypeReference.designation := by
        rw [List.map_map, firsts_map]
        exact List.map_id _
      show List.Forall₂ _ [QueuedJob.options registry.types.nextId] [_]
      rw [← hoptions]
      refine .cons (.options ⟨registry.types.nextId, name.text, name.start, _⟩ ?_ rfl) .nil
      rw [htypes, TypeTable.declared_declaring]
      exact List.mem_append_right _ (List.mem_singleton.mpr rfl)
  | endpoint kind keyword signature =>
    have hnew := not_refuses_endpoint_iff.mp hrefused
    have hjobs : (signature.kept.written (.endpoint kind)).jobs = signature.draft.jobs := by
      rw [WrittenNode.jobs, Signature.written, Signature.parameterList_kept]
      rfl
    rw [add_endpoint_of_new keyword hnew]
    show List.Forall₂ _ _ ((signature.kept.written (.endpoint kind)).jobs ++ [])
    rw [List.append_nil, hjobs]
    exact queues_draftJobs "" kind.nodeKind signature.draft

end Registry

end GraphSchema
