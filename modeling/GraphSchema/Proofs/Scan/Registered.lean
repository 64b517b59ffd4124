import GraphSchema.Proofs.Descent.Ending
import GraphSchema.Proofs.Registry.Kept
import GraphSchema.Proofs.Scan.Catalogued
import GraphSchema.Proofs.Scan.Frames
import GraphSchema.Proofs.Scan.Scopes

/-!
# What a declaration registers

While the members of a declaration are read that was not refused, the graph nodes, parameters and
jobs that are registered are those that the registry adds for what has been read
(`Scan.HoldsMembers`), as only the first member and the first parameter of each name is admitted.
When all of them have been read, the declared type gets its members (`Scan.braces_gives`).
-/

namespace GraphSchema

/-! ### Jobs -/

namespace Registry

/-- The jobs of a graph node that is added: one for each parameter, then its own. -/
def draftJobs (registry : Registry) (draft : NodeDraft) : List QueuedJob :=
  (draftParameters registry.parameters.length ⟨registry.nodes.length + 1⟩ draft).map
      (fun parameter => .parameter parameter.id parameter.designation) ++
    [.node ⟨registry.nodes.length + 1⟩ draft.type.designation]

/-- The jobs of graph nodes that are added one after the other. -/
def draftsJobs (owner : String) (kind : NodeKind) (registry : Registry) :
    List NodeDraft → List QueuedJob
  | [] => []
  | draft :: drafts =>
    registry.draftJobs draft ++ draftsJobs owner kind (addNode owner kind registry draft) drafts

theorem draftsJobs_concat (owner : String) (kind : NodeKind) (registry : Registry)
    (drafts : List NodeDraft) (draft : NodeDraft) :
    draftsJobs owner kind registry (drafts ++ [draft]) =
      draftsJobs owner kind registry drafts ++
        (drafts.foldl (addNode owner kind) registry).draftJobs draft := by
  induction drafts generalizing registry with
  | nil => exact List.append_nil _
  | cons first drafts ih =>
    rw [List.cons_append, draftsJobs, ih, draftsJobs, List.append_assoc, List.foldl_cons]

/-- The jobs of a declaration that is added. -/
def declarationJobs (registry : Registry) : Declaration → List QueuedJob
  | .typeAlias _ _ _ target => [.target registry.types.nextId target.bareDesignation]
  | .block _ _ _ (.union _) _ => [.options registry.types.nextId]
  | .block _ name _ body _ =>
    draftsJobs (name.text ++ ".") (body.nodeKind registry.types.nextId) registry body.drafts
  | .endpoint _ _ signature => registry.draftJobs signature.draft

/-- The registry with the graph nodes of the members of a type. -/
def addMembers (registry : Registry) (owner : Token) (id : TypeId)
    (body : Body) : Registry :=
  body.drafts.foldl (addNode (owner.text ++ ".") (body.nodeKind id)) registry

/-- The jobs of the graph nodes of the members of a type. -/
def membersJobs (registry : Registry) (owner : Token) (id : TypeId)
    (body : Body) : List QueuedJob :=
  draftsJobs (owner.text ++ ".") (body.nodeKind id) registry body.drafts

theorem length_nodes_addMembers (registry : Registry) (owner : Token) (id : TypeId) (body : Body) :
    (registry.addMembers owner id body).nodes.length =
      registry.nodes.length + body.drafts.length := by
  obtain ⟨nodes, parameters, hadds⟩ := exists_adds (owner.text ++ ".") (body.nodeKind id)
    body.drafts registry
  rw [addMembers, hadds.allNodes, List.length_append, hadds.drafted.length_eq]

section

variable {registry : Registry} {owner : Token} {id : TypeId} {body longer : Body}
  {draft : NodeDraft}

/-- One member more is added after the others. -/
theorem addMembers_concat (drafts : longer.drafts = body.drafts ++ [draft])
    (kind : longer.nodeKind id = body.nodeKind id) :
    registry.addMembers owner id longer =
      addNode (owner.text ++ ".") (body.nodeKind id) (registry.addMembers owner id body) draft := by
  rw [addMembers, drafts, kind, List.foldl_append]
  rfl

theorem membersJobs_concat (drafts : longer.drafts = body.drafts ++ [draft])
    (kind : longer.nodeKind id = body.nodeKind id) :
    registry.membersJobs owner id longer =
      registry.membersJobs owner id body ++
        (registry.addMembers owner id body).draftJobs draft := by
  rw [membersJobs, drafts, kind, draftsJobs_concat]
  rfl

/-- One member more has the number after those of the others. -/
theorem memberIds_concat (drafts : longer.drafts = body.drafts ++ [draft]) :
    (List.range' (registry.nodes.length + 1) longer.drafts.length).map NodeId.mk =
      (List.range' (registry.nodes.length + 1) body.drafts.length).map NodeId.mk ++
        [⟨(registry.addMembers owner id body).nodes.length + 1⟩] := by
  rw [drafts, List.length_append, List.length_singleton, List.range'_concat, List.map_append,
    List.map_singleton, length_nodes_addMembers, Nat.one_mul, Nat.add_right_comm]

end

end Registry

namespace Scan

variable {σ α β ε μ : Type}

/-! ### Parameters and signatures -/

section

variable {registry : Registry} {owner : String} {kind : NodeKind} {before : Scanner}

/-- What has been registered of a graph node and its parameters when some parameters have been
read. -/
structure HoldsNode (registry : Registry) (owner : String) (kind : NodeKind) (draft : NodeDraft)
    (before scanner : Scanner) : Prop where
  types : scanner.types = before.types
  graph : scanner.graph = (registry.addNode owner kind draft).graphCatalog
  jobs : scanner.jobs = before.jobs ++
    (Registry.draftParameters registry.parameters.length ⟨registry.nodes.length + 1⟩ draft).map
      fun parameter => .parameter parameter.id parameter.designation

theorem HoldsNode.read {draft : NodeDraft} {scanner : Scanner}
    (h : HoldsNode registry owner kind draft before scanner) (rest : Lexer) :
    HoldsNode registry owner kind draft before { scanner with lexer := rest } :=
  ⟨h.types, h.graph, h.jobs⟩

/-- Which type a graph node has makes no difference while its parameters are read. -/
theorem HoldsNode.retyped {name : Token} {parameters : List TypedName} {type : TypeReference}
    {scanner : Scanner}
    (h : HoldsNode registry owner kind ⟨name, parameters, type⟩ before scanner)
    (other : TypeReference) :
    HoldsNode registry owner kind ⟨name, parameters, other⟩ before scanner :=
  ⟨h.types, by
    rw [h.graph, Registry.graphCatalog_addNode_eq, Registry.graphCatalog_addNode_eq]
    rfl, h.jobs⟩

theorem parameterOf_some (node : NodeId) (parameter : TypedName) (scanner : Scanner) :
    parameterOf (some node) parameter scanner =
      some (.ok (some (scanner.graph.addParameter node parameter.name).2),
        { scanner with
          graph := (scanner.graph.addParameter node parameter.name).1
          jobs := scanner.jobs ++
            [.parameter (scanner.graph.addParameter node parameter.name).2
              parameter.type.designation] }) :=
  rfl

variable (consistent : registry.Consistent) (takes : ∀ parent, kind ≠ .structField parent)
include consistent takes

theorem HoldsNode.parameterOf {name : Token} {parameters : List TypedName} {type : TypeReference}
    {scanner : Scanner}
    (h : HoldsNode registry owner kind ⟨name, parameters, type⟩ before scanner)
    (parameter : TypedName) :
    (parameterOf (some ⟨registry.nodes.length + 1⟩) parameter).Gives scanner fun _ =>
      HoldsNode registry owner kind ⟨name, parameters ++ [parameter], type⟩ before := by
  have hadd := Registry.graphCatalog_addParameter consistent takes owner name parameters parameter
    type
  have hresult := parameterOf_some ⟨registry.nodes.length + 1⟩ parameter scanner
  rw [h.graph, hadd] at hresult
  refine leads_of_eq hresult ⟨h.types, rfl, ?_⟩
  rw [Registry.draftParameters_concat, List.map_append, ← List.append_assoc, ← h.jobs]
  rfl

/-- What holds when some parameters of a list have been read for a graph node. -/
structure HoldsParameters (registry : Registry) (owner : String) (kind : NodeKind) (name : Token)
    (type : TypeReference) (before : Scanner) (scope : NameScope) (parameters : List TypedName)
    (scanner : Scanner) : Prop where
  claims : scope.Claims (·.name.text) (·.name.start) parameters
  node : HoldsNode registry owner kind
    ⟨name, firsts (fun parameter => parameter.name.text) parameters, type⟩ before scanner

/-- A parameter is registered if its name is new, and reported otherwise. -/
theorem HoldsParameters.enter {name : Token} {type : TypeReference} {scanner : Scanner}
    {scope : NameScope} {parameters : List TypedName}
    (h : HoldsParameters registry owner kind name type before scope parameters scanner)
    (parameter : TypedName) (again : Cursor → Problem) :
    (enter scope parameter.name.text parameter.name.start again
      (parameterOf (some ⟨registry.nodes.length + 1⟩) parameter)).Gives scanner fun admitted =>
        HoldsParameters registry owner kind name type before admitted.1
          (parameters ++ [parameter]) := by
  refine enter_leads h.claims (fun hnew => ?_) fun first hfirst => ?_
  · refine (h.node.parameterOf consistent takes parameter).mono (fun _ after hafter => ?_)
      fun _ _ => id
    refine ⟨h.claims.new (h.claims.lookup_eq_none_iff.mpr hnew), ?_⟩
    rw [firsts_concat, if_neg hnew]
    exact hafter
  · refine ⟨h.claims.again hfirst, ?_⟩
    rw [firsts_concat_of_find? hfirst]
    exact ⟨h.node.types, h.node.graph, h.node.jobs⟩

/-- Of the parameters of a list, the first of each name is registered. -/
theorem parameterList_gives {name : Token} {type : TypeReference} {scanner : Scanner}
    (h : HoldsNode registry owner kind ⟨name, [], type⟩ before scanner) (nodeName : String) :
    (parameterList (some ⟨registry.nodes.length + 1⟩) nodeName).Gives scanner fun listing =>
      HoldsNode registry owner kind
        ⟨name, firsts (fun parameter => parameter.name.text) (listing.entries.map Prod.fst), type⟩
        before := by
  have hlist := parameterList_keeps (HoldsParameters registry owner kind name type before)
    (fun _ _ _ rest hnow => ⟨hnow.claims, hnow.node.read rest⟩)
    (fun _ _ parameter _ hnow => hnow.enter consistent takes parameter
      (.parameterRedeclared nodeName parameter.name.text parameter.name.start))
    ⟨NameScope.claims_nil, h⟩
  exact hlist.mono (fun _ _ ⟨_, hafter⟩ => hafter.node) fun _ _ => id

/-- A graph node that was registered gets its parameters, and their jobs and its own are queued. -/
theorem signature_gives {name : Token} {type : TypeReference} {scanner : Scanner}
    (h : HoldsNode registry owner kind ⟨name, [], type⟩ before scanner) (nodeName : String) :
    (signature name (some ⟨registry.nodes.length + 1⟩) nodeName).Gives scanner
      fun signature after => signature.name = name ∧ after.types = before.types ∧
        after.graph = (registry.addNode owner kind signature.draft).graphCatalog ∧
        after.jobs = before.jobs ++ registry.draftJobs signature.draft := by
  have htypeOf (listing : Option ParameterListing) (read : Scanner)
      (hread : HoldsNode registry owner kind ⟨name, firsts (fun parameter => parameter.name.text)
        (Signature.parameterList ⟨name, listing, type⟩), type⟩ before read) :
      (typeOf name (some ⟨registry.nodes.length + 1⟩) listing).Gives read
        fun signature after => signature.name = name ∧ after.types = before.types ∧
        after.graph = (registry.addNode owner kind signature.draft).graphCatalog ∧
        after.jobs = before.jobs ++ registry.draftJobs signature.draft := by
    refine gives_asks_bind fun found rest => ?_
    have hfound := (hread.read rest).retyped found
    refine leads_of_eq rfl ⟨rfl, hfound.types, hfound.graph, ?_⟩
    rw [Registry.draftJobs, ← List.append_assoc]
    exact congrArg (· ++ [_]) hfound.jobs
  refine gives_asks_bind fun applied asked => ?_
  cases applied with
  | true =>
    exact (parameterList_gives consistent takes (h.read asked) nodeName).bind
      fun listing after hafter => htypeOf (some listing) after hafter
  | false => exact htypeOf none _ (h.read asked)

end

/-! ### Members -/

section

variable {registry : Registry} {owner : Token} {id : TypeId} {before : Scanner}

/-- What holds when some members of a type that was registered have been read. -/
structure HoldsMembers (registry : Registry) (owner : Token) (id : TypeId) (rule : BlockRule ε μ)
    (name : ε → String) (position : ε → Cursor) (before : Scanner) (members : Members ε μ)
    (scanner : Scanner) : Prop where
  claims : members.scope.Claims name position members.entries
  made : rule.made members.admitted =
    (rule.written members.entries).declared (registry.nodes.length + 1)
  types : scanner.types = before.types
  graph : scanner.graph =
    (registry.addMembers owner id (rule.written members.entries)).graphCatalog
  jobs : scanner.jobs =
    before.jobs ++ registry.membersJobs owner id (rule.written members.entries)

theorem HoldsMembers.read {rule : BlockRule ε μ} {name : ε → String} {position : ε → Cursor}
    {members : Members ε μ} {scanner : Scanner}
    (h : HoldsMembers registry owner id rule name position before members scanner) (rest : Lexer) :
    HoldsMembers registry owner id rule name position before members
      { scanner with lexer := rest } :=
  ⟨h.claims, h.made, h.types, h.graph, h.jobs⟩

/-- A rule for members registers a member more of a type that was registered, and a type without
members has none. -/
structure BlockRule.RegistersMembers (rule : BlockRule ε μ) (name : ε → String)
    (position : ε → Cursor) : Prop where
  made : ∀ node, rule.made [] = (rule.written []).declared node
  drafts : (rule.written []).drafts = []
  member : ∀ (registry : Registry) (owner : Token) (id : TypeId) (before : Scanner)
    (members : Members ε μ) (scanner : Scanner), registry.Consistent →
    HoldsMembers registry owner id rule name position before members scanner →
    (rule.member owner (some id) members).Gives scanner
      (HoldsMembers registry owner id rule name position before)

/-- A member whose name was used before changes nothing. -/
theorem HoldsMembers.again {rule : BlockRule ε μ} {name : ε → String} {position : ε → Cursor}
    {members : Members ε μ} {scanner now : Scanner}
    (h : HoldsMembers registry owner id rule name position before members scanner)
    {entry first : ε}
    (found : (members.entries.find? fun earlier => name earlier = name entry) = some first)
    (kept : (rule.written (members.entries ++ [entry])).kept = (rule.written members.entries).kept)
    (same : scanner.OnlyReports now) :
    HoldsMembers registry owner id rule name position before (members.add entry members.scope none)
      now := by
  have hdrafts : (rule.written (members.entries ++ [entry])).drafts =
      (rule.written members.entries).drafts := by
    rw [← Body.drafts_kept, kept, Body.drafts_kept]
  have hkind : (rule.written (members.entries ++ [entry])).nodeKind id =
      (rule.written members.entries).nodeKind id := by
    rw [← Body.nodeKind_kept, kept, Body.nodeKind_kept]
  have hdeclared : (rule.written (members.entries ++ [entry])).declared
      (registry.nodes.length + 1) =
      (rule.written members.entries).declared (registry.nodes.length + 1) := by
    rw [← Body.declared_kept, kept, Body.declared_kept]
  refine ⟨h.claims.again found, ?_, same.types.trans h.types, ?_, ?_⟩
  · rw [Members.add, Option.toList_none, List.append_nil, hdeclared]
    exact h.made
  · rw [same.graph, h.graph, Members.add, Registry.addMembers, Registry.addMembers, hdrafts, hkind]
  · rw [same.jobs, h.jobs, Members.add, Registry.membersJobs, Registry.membersJobs, hdrafts, hkind]

/-- One member more has a graph node of its own. -/
theorem HoldsMembers.more {rule : BlockRule ε NodeId} {name : ε → String} {position : ε → Cursor}
    {members : Members ε NodeId} {scanner now : Scanner}
    (h : HoldsMembers registry owner id rule name position before members scanner) {entry : ε}
    (new : name entry ∉ members.entries.map name) {draft : NodeDraft}
    (drafts : (rule.written (members.entries ++ [entry])).drafts =
      (rule.written members.entries).drafts ++ [draft])
    (kind : (rule.written (members.entries ++ [entry])).nodeKind id =
      (rule.written members.entries).nodeKind id)
    (made : rule.made (members.admitted ++
        [⟨(registry.addMembers owner id (rule.written members.entries)).nodes.length + 1⟩]) =
      (rule.written (members.entries ++ [entry])).declared (registry.nodes.length + 1))
    (types : now.types = scanner.types)
    (graph : now.graph = (Registry.addNode (owner.text ++ ".")
      ((rule.written members.entries).nodeKind id)
      (registry.addMembers owner id (rule.written members.entries)) draft).graphCatalog)
    (jobs : now.jobs = scanner.jobs ++
      (registry.addMembers owner id (rule.written members.entries)).draftJobs draft) :
    HoldsMembers registry owner id rule name position before
      (members.add entry (members.scope ++ [(name entry, position entry)])
        (some ⟨(registry.addMembers owner id (rule.written members.entries)).nodes.length + 1⟩))
      now := by
  refine ⟨h.claims.new (h.claims.lookup_eq_none_iff.mpr new), made, types.trans h.types, ?_, ?_⟩
  · rw [graph]
    exact congrArg _ (Registry.addMembers_concat drafts kind).symm
  · rw [jobs, h.jobs, List.append_assoc]
    exact congrArg _ (Registry.membersJobs_concat drafts kind).symm

theorem enumRule_registers : enumRule.RegistersMembers Token.text Token.start := by
  refine ⟨fun _ => rfl, rfl, ?_⟩
  intro registry owner id before members scanner _ h
  have hadmitted : members.admitted =
      (firsts Token.text members.entries).map fun value => ⟨value.text, value.start⟩ :=
    TypeBody.enum.inj h.made
  refine claimed_leads h.claims (fun value rest hnew => leads_pure ⟨?_, ?_, h.types, h.graph,
    h.jobs⟩) (fun value rest first hfirst => h.again hfirst ?_ ?_) fun _ _ _ => trivial
  · exact h.claims.new (h.claims.lookup_eq_none_iff.mpr hnew)
  · show TypeBody.enum (members.admitted ++ [_]) = .enum ((firsts Token.text
      (members.entries ++ [value])).map fun value => ⟨value.text, value.start⟩)
    rw [firsts_concat, if_neg hnew, List.map_append, hadmitted]
    rfl
  · show Body.enum _ = .enum _
    rw [firsts_concat_of_find? hfirst]
  · exact ⟨rfl, rfl, rfl, List.prefix_append _ _⟩

theorem unionRule_registers :
    unionRule.RegistersMembers (·.designation.canonical) (·.designation.position) := by
  refine ⟨fun _ => rfl, rfl, ?_⟩
  intro registry owner id before members scanner _ h
  have hdeclared (options : List TypeReference) :
      (Body.union options).declared (registry.nodes.length + 1) =
        .union ((firsts (fun option : TypeReference => option.designation.canonical) options).map
          fun option => ⟨option.designation, none⟩) := by
    rw [Body.declared, firsts_map, List.map_map]
    rfl
  have hadmitted : members.admitted = (firsts (fun option => option.designation.canonical)
      members.entries).map fun option => ⟨option.designation, none⟩ :=
    TypeBody.union.inj (h.made.trans (hdeclared _))
  refine claimed_leads h.claims (fun option rest hnew => leads_pure ⟨?_, ?_, h.types, h.graph,
    h.jobs⟩) (fun option rest first hfirst => h.again hfirst ?_ ?_) fun _ _ _ => trivial
  · exact h.claims.new (h.claims.lookup_eq_none_iff.mpr hnew)
  · refine (congrArg TypeBody.union ?_).trans (hdeclared _).symm
    show members.admitted ++ [_] = _
    rw [Members.add, firsts_concat, if_neg hnew, List.map_append, hadmitted]
    rfl
  · show Body.union _ = .union _
    rw [firsts_concat_of_find? hfirst]
  · exact ⟨rfl, rfl, rfl, List.prefix_append _ _⟩

/-- The graph node of a member of a type that was registered. -/
theorem memberNode_gives {held : Registry} {scanner : Scanner}
    (graph : scanner.graph = held.graphCatalog) {kind : TypeId → NodeKind}
    (member : (kind id).isEndpoint = false) (owner name : Token) (type : TypeReference) :
    (memberNode kind owner (some id) name).Gives scanner fun node after =>
      node = some ⟨held.nodes.length + 1⟩ ∧
        HoldsNode held (owner.text ++ ".") (kind id) ⟨name, [], type⟩ scanner after := by
  have hresult : memberNode kind owner (some id) name scanner =
      some (.ok (some (scanner.graph.addNode (kind id) (owner.text ++ ".") name).2),
        { scanner with graph := (scanner.graph.addNode (kind id) (owner.text ++ ".") name).1 }) :=
    rfl
  rw [graph, Registry.graphCatalog_addNode member _ _ type] at hresult
  exact leads_of_eq hresult ⟨rfl, rfl, rfl, (List.append_nil _).symm⟩

theorem structRule_registers : structRule.RegistersMembers (·.name.text) (·.name.start) := by
  refine ⟨fun _ => rfl, rfl, ?_⟩
  intro registry owner id before members scanner _ h
  have hadmitted : members.admitted = (List.range' (registry.nodes.length + 1)
      (Body.struct members.entries).drafts.length).map NodeId.mk :=
    TypeBody.struct.inj h.made
  refine claimed_leads h.claims (fun field rest hnew => ?_) (fun field rest first hfirst =>
    h.again hfirst ?_ ?_) fun _ _ _ => trivial
  · have hdrafts : (Body.struct (members.entries ++ [field])).drafts =
        (Body.struct members.entries).drafts ++ [field.draft] := by
      rw [Body.drafts, firsts_concat, if_neg hnew, List.map_append]
      rfl
    refine Leads.bind
      (memberNode_gives (h.read rest).graph rfl owner field.name field.type) ?_
    rintro _ noded ⟨rfl, hnoded⟩
    refine leads_of_eq rfl (h.more hnew hdrafts rfl ?_ hnoded.types hnoded.graph ?_)
    · rw [hadmitted]
      exact congrArg TypeBody.struct (Registry.memberIds_concat hdrafts).symm
    · show noded.jobs ++ [_] = _
      rw [hnoded.jobs]
      exact List.append_assoc _ _ _
  · show Body.struct _ = .struct _
    rw [firsts_concat_of_find? hfirst]
  · exact ⟨rfl, rfl, rfl, List.prefix_append _ _⟩

theorem signature_name (name : Token) (node : Option NodeId) (nodeName : String)
    (scanner : Scanner) :
    (signature name node nodeName).Gives scanner fun signature _ => signature.name = name := by
  intro outcome after hresult
  cases outcome with
  | ok signature =>
    exact Rule.signatureAfter_name ((signature_reads name node nodeName).of_ok hresult)
  | error problem => trivial

/-- When the name of a property has been read, either its graph node is there, or nothing is
registered for it. -/
theorem propertyName_admitted {held : Registry} {scanner : Scanner}
    (graph : scanner.graph = held.graphCatalog) {members : Members Signature NodeId}
    (claims : members.scope.Claims (·.name.text) (·.name.start) members.entries)
    (owner name : Token) :
    (enter members.scope name.text name.start
      (.propertyRedeclared owner.text name.text name.start)
      (memberNode .resolverProperty owner (some id) name)).Gives scanner fun admitted after =>
        (name.text ∉ members.entries.map (·.name.text) ∧
          admitted = (members.scope ++ [(name.text, name.start)], some ⟨held.nodes.length + 1⟩) ∧
          HoldsNode held (owner.text ++ ".") (.resolverProperty id) ⟨name, [], default⟩ scanner
            after) ∨
        ((members.entries.find? fun earlier => earlier.name.text = name.text).isSome ∧
          admitted = (members.scope, none) ∧ scanner.OnlyReports after) := by
  have hclaims : members.scope.Claims Token.text Token.start (members.entries.map Signature.name) :=
    NameScope.claims_map_iff.mpr claims
  refine enter_leads hclaims (fun hnew => ?_) fun first hfirst => ?_
  · rw [List.map_map] at hnew
    refine (memberNode_gives graph rfl owner name default).mono ?_ fun _ _ _ => trivial
    rintro _ after ⟨rfl, hafter⟩
    exact .inl ⟨hnew, rfl, hafter⟩
  · rw [List.find?_map, Option.map_eq_some_iff] at hfirst
    obtain ⟨property, hproperty, -⟩ := hfirst
    exact .inr ⟨Option.isSome_of_eq_some hproperty, rfl, rfl, rfl, rfl, List.prefix_append _ _⟩

theorem resolverRule_registers :
    resolverRule.RegistersMembers (·.name.text) (·.name.start) := by
  refine ⟨fun _ => rfl, rfl, ?_⟩
  intro registry owner id before members scanner consistent h
  have hadmitted : members.admitted = (List.range' (registry.nodes.length + 1)
      (Body.resolver members.entries).drafts.length).map NodeId.mk :=
    TypeBody.resolver.inj h.made
  have hheld : (registry.addMembers owner id (.resolver members.entries)).Consistent :=
    consistent.addNodes _ _ _
  refine gives_asks_bind fun name rest => ?_
  refine (propertyName_admitted (h.read rest).graph h.claims owner name).bind ?_
  rintro ⟨_, _⟩ after (⟨hnew, ⟨rfl, rfl⟩, hnode⟩ | ⟨hfound, ⟨rfl, rfl⟩, hsame⟩)
  · refine Leads.bind (signature_gives hheld (fun _ => by simp) hnode _) ?_
    rintro property last ⟨rfl, htypes, hgraph, hjobs⟩
    have hdrafts : (Body.resolver (members.entries ++ [property])).drafts =
        (Body.resolver members.entries).drafts ++ [property.draft] := by
      rw [Body.drafts, firsts_concat, if_neg hnew, List.map_append]
      rfl
    refine leads_pure (h.more hnew hdrafts rfl ?_ htypes hgraph hjobs)
    rw [hadmitted]
    exact congrArg TypeBody.resolver (Registry.memberIds_concat hdrafts).symm
  · obtain ⟨first, hfirst⟩ := Option.isSome_iff_exists.mp hfound
    refine Leads.bind (((signature_onlyReports name _).gives after).and
      (signature_name name none _ after)) ?_
    rintro property last ⟨hlast, rfl⟩
    refine leads_pure (h.again hfirst ?_ ?_)
    · show Body.resolver _ = .resolver _
      rw [firsts_concat_of_find? hfirst]
    · have hread : Scanner.OnlyReports { scanner with lexer := rest } last := hsame.trans hlast
      exact ⟨hread.types, hread.graph, hread.jobs, hread.problems⟩

/-! ### Members in braces -/

variable {name : ε → String} {position : ε → Cursor} {rule : BlockRule ε μ}

/-- The members of a type that was declared without members are registered, and it gets those that
were admitted. -/
theorem braces_gives (h : rule.RegistersMembers name position) (consistent : registry.Consistent)
    {scanner : Scanner} (types : scanner.types =
      (registry.types.declaring owner (rule.made [])).catalog)
    (graph : scanner.graph = registry.graphCatalog) :
    (braces rule owner (some registry.types.nextId)).Gives scanner fun (_, entries, _) after =>
      after.types = (registry.types.declaring owner
        ((rule.written entries).declared (registry.nodes.length + 1))).catalog ∧
      after.graph =
        (registry.addMembers owner registry.types.nextId (rule.written entries)).graphCatalog ∧
      after.jobs = scanner.jobs ++
        registry.membersJobs owner registry.types.nextId (rule.written entries) := by
  let Held := HoldsMembers registry owner registry.types.nextId rule name position scanner
  have hbegins (rest : Lexer) : Held .none { scanner with lexer := rest } := by
    refine ⟨NameScope.claims_nil, h.made _, rfl, ?_, ?_⟩
    · rw [graph, Registry.addMembers, Members.none, h.drafts]
      rfl
    · rw [Registry.membersJobs, Members.none, h.drafts]
      exact (List.append_nil _).symm
  refine gives_asks_bind fun opening opened => ?_
  have hloop := members_keep (rule.member owner (some registry.types.nextId)) Held
    (fun _ _ rest hnow => hnow.read rest)
    (fun members now => h.member registry owner _ scanner members now consistent) (hbegins opened)
  refine hloop.bind fun members read hread => gives_asks_bind fun closing rest => ?_
  have hclosed : Held members { read with lexer := rest } := hread.read rest
  -- too few members are reported, but they are set all the same
  refine Leads.bind ((checkSize_onlyReports rule owner _).gives _) fun _ checked hchecked => ?_
  refine leads_of_eq rfl ⟨?_, hchecked.graph.trans hclosed.graph, hchecked.jobs.trans hclosed.jobs⟩
  show checked.types.setBody registry.types.nextId (rule.made members.admitted) = _
  rw [hchecked.types, hclosed.types, types, hclosed.made]
  exact TypeTable.catalog_setBody consistent.types _ _ _

end

end Scan

end GraphSchema
