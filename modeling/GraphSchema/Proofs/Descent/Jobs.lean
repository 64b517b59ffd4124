import GraphSchema.Proofs.Document.References
import GraphSchema.Proofs.Grammar.Consumed
import GraphSchema.Proofs.Registry.Kept
import GraphSchema.Proofs.Total

/-!
# Jobs

What a name refers to is found when the whole document has been read, so a job is queued for it
meanwhile: one for an alias, one for all options of a union, one for a graph node and one for each
of its parameters (`Declaration.jobs`).  Only what is kept has jobs (`Reading.jobs`), and in the end
the jobs resolve what the registry refers to, in its order (`Registry.references_eq_jobs`).

What has been read of a document, however far, pays for its declarations, their members and their
jobs with different tokens (`Reading.counts_le`).
-/

namespace GraphSchema

/-- A job that is queued while a document is read: the designations that it resolves. -/
abbrev Job : Type :=
  List Designation

/-! ### Jobs of what is complete -/

/-- The job of a type that is written for a graph node or a parameter. -/
def TypeReference.job (type : TypeReference) : Job :=
  [type.designation]

/-- The jobs of a graph node: one for each parameter, then its own. -/
def WrittenNode.jobs (node : WrittenNode) : List Job :=
  node.parameters.map (fun parameter => parameter.type.job) ++ [node.type.job]

/-- The jobs of a declaration. -/
def Declaration.jobs : Declaration → List Job
  | typeAlias _ _ _ target => [[target.bareDesignation]]
  | block _ _ _ (.union options) _ => [options.map TypeReference.designation]
  | declaration => declaration.writtenNodes.flatMap WrittenNode.jobs

theorem flatten_flatMap_eq {α β : Type} {rows : α → List (List β)} {row : α → List β}
    (h : ∀ entry, (rows entry).flatten = row entry) (entries : List α) :
    (entries.flatMap rows).flatten = entries.flatMap row := by
  rw [List.flatMap_def, List.flatten_flatten, List.map_map, List.flatMap_def]
  exact congrArg List.flatten (List.map_congr_left fun entry _ => h entry)

theorem WrittenNode.flatten_jobs (node : WrittenNode) : node.jobs.flatten = node.references := by
  have hjobs : node.jobs = node.references.map fun reference => [reference] := by
    rw [jobs, references, List.map_append, List.map_map]
    rfl
  rw [hjobs, ← List.flatMap_def, List.flatMap_singleton']

theorem Declaration.flatten_jobs (declaration : Declaration) :
    declaration.jobs.flatten = declaration.references := by
  cases declaration with
  | typeAlias keyword name equals target => rfl
  | block keyword name opening body closing =>
    cases body with
    | union options => exact List.flatten_singleton
    | enum values => rfl
    | struct fields => exact flatten_flatMap_eq WrittenNode.flatten_jobs _
    | resolver properties => exact flatten_flatMap_eq WrittenNode.flatten_jobs _
  | endpoint kind keyword signature => exact flatten_flatMap_eq WrittenNode.flatten_jobs _

/-- The jobs of a document resolve what its registry refers to, in the order of the registry. -/
theorem Registry.references_eq_jobs (declarations : List Declaration) :
    ((Document.kept declarations).flatMap Declaration.jobs).flatten =
      (ofDeclarations declarations).references := by
  rw [(records_kept declarations).references]
  exact flatten_flatMap_eq Declaration.flatten_jobs _

/-! ### Jobs of what is open -/

/-- The parameters whose types are complete. -/
def OpenParameters.complete (listing : OpenParameters) : List TypedName :=
  listing.entries.map Prod.fst ++
    match listing.stage with
    | .separator parameter => [parameter]
    | _ => []

/-- The parameters of a property or an endpoint whose type has not been read. -/
def OpenSignature.complete : OpenSignature → List TypedName
  | named _ | typed _ none _ => []
  | parameters _ listing => listing.complete
  | typed _ (some listing) _ => listing.entries.map Prod.fst

/-- The jobs that a property or an endpoint has queued before its own. -/
def OpenSignature.jobs (signature : OpenSignature) : List Job :=
  (firsts (fun parameter => parameter.name.text) signature.complete).map fun parameter =>
    parameter.type.job

/-- The jobs that members have queued while the others are still being read.  The options of a union
are resolved together, once all of them are known. -/
def OpenBody.jobs (owner : Token) : OpenBody → List Job
  | enum _ | union _ _ => []
  | struct fields _ => ((Body.struct fields).kept.writtenNodes owner).flatMap WrittenNode.jobs
  | resolver properties pending =>
    ((Body.resolver properties).kept.writtenNodes owner).flatMap WrittenNode.jobs ++
      match pending with
      | some signature =>
        if signature.name.text ∈ properties.map (·.name.text) then [] else signature.jobs
      | none => []

/-- The jobs that an open declaration has queued. -/
def OpenDeclaration.jobs : OpenDeclaration → List Job
  | blockBody _ name _ body => body.jobs name
  | endpoint _ _ signature => signature.jobs
  | _ => []

/-- The name that an open declaration has introduced is not primitive, and no declaration before it
has it in the same namespace. -/
def OpenDeclaration.IsNewAfter (before : List Declaration) (opened : OpenDeclaration) : Prop :=
  (∀ name ∈ opened.names.typeName?,
    Primitive.ofName? name.text = none ∧ name.text ∉ Document.typeNames before) ∧
  ∀ name ∈ opened.names.endpointName?, name.text ∉ Document.endpointNames before

instance (before : List Declaration) (opened : OpenDeclaration) :
    Decidable (opened.IsNewAfter before) :=
  inferInstanceAs (Decidable (_ ∧ _))

/-- The jobs of an open declaration, if its name is kept. -/
def OpenDeclaration.jobsAfter (before : List Declaration) (opened : OpenDeclaration) : List Job :=
  if opened.IsNewAfter before then opened.jobs else []

/-- The jobs that are queued when so much has been read: those of what is kept. -/
def Reading.jobs (reading : Reading) : List Job :=
  (Document.kept reading.declarations).flatMap Declaration.jobs ++
    (reading.pending?.map (OpenDeclaration.jobsAfter reading.declarations)).getD []

/-! ### What is paid for -/

/-- The number of members and parameters whose names are introduced. -/
def DeclaredNames.size : DeclaredNames → Nat
  | nothing | typeAlias _ => 0
  | enum _ values => values.length
  | union _ options => options.length
  | struct _ fields => fields.length
  | resolver _ properties => total (fun property => 1 + property.2.length) properties
  | endpoint _ parameters => parameters.length

theorem TypeReference.one_le_tokens (type : TypeReference) : 1 ≤ type.tokens.length := by
  rw [tokens, List.length_append]
  exact Nat.le_add_left 1 _

theorem TypedName.two_le_tokens (entry : TypedName) : 2 ≤ entry.tokens.length :=
  Nat.succ_le_succ entry.type.one_le_tokens

theorem ParameterListing.entries_le_tokens (entries : List (TypedName × Token)) :
    3 * entries.length ≤ (entries.flatMap fun entry => entry.1.tokens ++ [entry.2]).length := by
  rw [length_flatMap_eq_total]
  induction entries with
  | nil => exact Nat.le_refl 0
  | cons entry entries ih =>
    have htwo := entry.1.two_le_tokens
    rw [total_cons, List.length_cons, List.length_append, List.length_singleton]
    omega

/-- A property or an endpoint pays for itself, its parameters and their jobs. -/
theorem Signature.counts_le (signature : Signature) :
    2 * signature.parameterList.length + 2 ≤ signature.tokens.length := by
  obtain ⟨name, parameters, type⟩ := signature
  have htype := type.one_le_tokens
  cases parameters with
  | none =>
    simp only [parameterList, tokens, List.length_cons, List.length_append, Option.map_none,
      Option.getD_none, List.length_nil]
    omega
  | some listing =>
    have hentries := ParameterListing.entries_le_tokens listing.entries
    simp only [parameterList, tokens, ParameterListing.tokens, List.length_cons,
      List.length_append, Option.map_some, Option.getD_some, List.length_map]
    omega

/-- An open property or endpoint pays for itself, its parameters and their jobs. -/
theorem OpenSignature.counts_le (signature : OpenSignature) :
    2 * signature.complete.length + 1 ≤ signature.tokens.length := by
  cases signature with
  | named name => exact Nat.le_refl 1
  | parameters name listing =>
    have hentries := ParameterListing.entries_le_tokens listing.entries
    obtain ⟨opening, entries, stage⟩ := listing
    cases stage with
    | name | type _ _ =>
      simp only [complete, OpenParameters.complete, tokens, OpenParameters.tokens, List.length_cons,
        List.length_append, List.length_map, List.length_nil] at hentries ⊢
      omega
    | separator parameter =>
      -- the type of the last parameter is complete, and so is its job
      have htwo := parameter.two_le_tokens
      simp only [complete, OpenParameters.complete, tokens, OpenParameters.tokens, List.length_cons,
        List.length_append, List.length_map, List.length_nil] at hentries ⊢
      omega
  | typed name listing? modifiers =>
    cases listing? with
    | none =>
      simp only [complete, tokens, List.length_cons, List.length_nil]
      omega
    | some listing =>
      have hentries := ParameterListing.entries_le_tokens listing.entries
      simp only [complete, tokens, ParameterListing.tokens, List.length_cons, List.length_append,
        List.length_map, Option.map_some, Option.getD_some]
      omega

theorem WrittenNode.length_jobs (node : WrittenNode) :
    node.jobs.length = node.parameters.length + 1 := by
  rw [jobs, List.length_append, List.length_map, List.length_singleton]

theorem WrittenNode.length_flatMap_jobs (nodes : List WrittenNode) :
    (nodes.flatMap jobs).length = (nodes.flatMap references).length := by
  rw [length_flatMap_eq_total, length_flatMap_eq_total]
  congr 1
  funext node
  rw [length_jobs, references, List.length_append, List.length_map, List.length_singleton]

/-- Nodes with no more references have no more jobs. -/
theorem WrittenNode.length_flatMap_jobs_le {nodes others : List WrittenNode}
    (h : (nodes.flatMap references).length ≤ (others.flatMap references).length) :
    (nodes.flatMap jobs).length ≤ (others.flatMap jobs).length := by
  rw [length_flatMap_jobs, length_flatMap_jobs]
  exact h

/-- Members that are left out queue no job. -/
theorem Body.length_jobs_kept (owner : Token) (body : Body) :
    ((body.kept.writtenNodes owner).flatMap WrittenNode.jobs).length ≤
      ((body.writtenNodes owner).flatMap WrittenNode.jobs).length := by
  -- which tokens stand around the members does not matter
  have hreferences := (Declaration.block owner owner owner body owner).references_kept.length_le
  cases body with
  | enum values | union options => exact Nat.le_refl 0
  | struct fields | resolver properties => exact WrittenNode.length_flatMap_jobs_le hreferences

/-- What is left out queues no job. -/
theorem Declaration.length_jobs_kept (declaration : Declaration) :
    declaration.kept.jobs.length ≤ declaration.jobs.length := by
  have hreferences := declaration.references_kept.length_le
  cases declaration with
  | typeAlias keyword name equals target => exact Nat.le_refl 1
  | block keyword name opening body closing =>
    cases body with
    | union options => exact Nat.le_refl 1
    | enum values => exact Nat.le_refl 0
    | struct fields => exact Body.length_jobs_kept name (.struct fields)
    | resolver properties => exact Body.length_jobs_kept name (.resolver properties)
  | endpoint kind keyword signature => exact WrittenNode.length_flatMap_jobs_le hreferences

theorem Document.length_jobs_keptAfter (before declarations : List Declaration) :
    ((keptAfter before declarations).flatMap Declaration.jobs).length ≤
      total (fun declaration => declaration.jobs.length) declarations := by
  induction declarations generalizing before with
  | nil => exact Nat.le_refl 0
  | cons declaration declarations ih =>
    have hfirst := declaration.length_jobs_kept
    have hothers := ih (before ++ [declaration])
    rw [keptAfter, total_cons]
    split
    · rw [List.flatMap_cons, List.length_append]
      omega
    · omega

/-- Signatures pay for themselves, their parameters and their jobs. -/
theorem Signature.total_counts_le (signatures : List Signature) :
    total (fun signature => 1 + signature.parameterList.length) signatures +
      total (fun signature => signature.parameterList.length + 1) signatures ≤
      (signatures.flatMap tokens).length := by
  rw [← total_add, length_flatMap_eq_total]
  refine total_le_total fun signature _ => ?_
  have hcounts := signature.counts_le
  omega

theorem TypedName.length_le_tokens (entries : List TypedName) :
    2 * entries.length ≤ (entries.flatMap tokens).length := by
  rw [length_flatMap_eq_total]
  induction entries with
  | nil => exact Nat.le_refl 0
  | cons entry entries ih =>
    have htwo := entry.two_le_tokens
    rw [List.length_cons, total_cons]
    omega

theorem TypeReference.length_le_tokens (types : List TypeReference) :
    types.length ≤ (types.flatMap tokens).length := by
  rw [length_flatMap_eq_total, length_eq_total]
  exact total_le_total fun type _ => type.one_le_tokens

theorem Body.length_struct_jobs (owner : Token) (fields : List TypedName) :
    (((Body.struct fields).writtenNodes owner).flatMap WrittenNode.jobs).length =
      fields.length := by
  rw [writtenNodes, List.flatMap_map, length_flatMap_eq_total, length_eq_total]
  rfl

theorem Body.length_resolver_jobs (owner : Token) (properties : List Signature) :
    (((Body.resolver properties).writtenNodes owner).flatMap WrittenNode.jobs).length =
      total (fun property => property.parameterList.length + 1) properties := by
  rw [writtenNodes, List.flatMap_map, length_flatMap_eq_total]
  congr 1
  funext property
  exact WrittenNode.length_jobs _

theorem Body.size_resolver_names (name : Token) (properties : List Signature) :
    ((Body.resolver properties).names name).size =
      total (fun property => 1 + property.parameterList.length) properties := by
  rw [names, DeclaredNames.size, total_map]
  simp only [Signature.names, List.length_map]

/-- A declaration pays for itself, its members and its jobs. -/
theorem Declaration.counts_le (declaration : Declaration) :
    1 + declaration.names.size + declaration.jobs.length ≤ declaration.tokens.length := by
  cases declaration with
  | typeAlias keyword name equals target =>
    simp [names, DeclaredNames.size, jobs, tokens]
  | block keyword name opening body closing =>
    simp only [tokens, List.length_cons, List.length_append, List.length_nil]
    cases body with
    | enum values =>
      simp only [names, Body.names, DeclaredNames.size, jobs, writtenNodes, Body.writtenNodes,
        Body.tokens, List.flatMap_nil, List.length_nil]
      omega
    | union options =>
      have hoptions := TypeReference.length_le_tokens options
      simp only [names, Body.names, DeclaredNames.size, jobs, Body.tokens, List.length_map,
        List.length_cons, List.length_nil]
      omega
    | struct fields =>
      have hfields := TypedName.length_le_tokens fields
      simp only [names, Body.names, DeclaredNames.size, jobs, writtenNodes,
        Body.length_struct_jobs, Body.tokens, List.length_map]
      omega
    | resolver properties =>
      have hproperties := Signature.total_counts_le properties
      simp only [names, Body.size_resolver_names, jobs, writtenNodes, Body.length_resolver_jobs,
        Body.tokens]
      omega
  | endpoint kind keyword signature =>
    have hcounts := signature.counts_le
    simp only [names, Signature.names, DeclaredNames.size, jobs, writtenNodes, tokens,
      List.flatMap_cons, List.flatMap_nil, List.append_nil, WrittenNode.length_jobs,
      Signature.written, List.length_map, List.length_cons]
    omega

/-! ### What is paid for already -/

theorem OpenSignature.length_jobs_le (signature : OpenSignature) :
    signature.jobs.length ≤ signature.complete.length := by
  rw [jobs, List.length_map]
  exact (firsts_sublist _ _).length_le

theorem OpenSignature.length_parameterNames (signature : OpenSignature) :
    signature.parameterNames.length = signature.complete.length := by
  cases signature with
  | named name => rfl
  | parameters name listing =>
    obtain ⟨opening, entries, stage⟩ := listing
    cases stage <;> simp [parameterNames, complete, OpenParameters.names, OpenParameters.complete]
  | typed name listing? modifiers =>
    cases listing? <;> simp [parameterNames, complete]

/-- The members so far pay for themselves and their jobs. -/
theorem OpenBody.counts_le (name : Token) (body : OpenBody) :
    (body.names name).size + (body.jobs name).length ≤ body.tokens.length := by
  cases body with
  | enum values => exact Nat.le_refl _
  | union options modifiers =>
    have hoptions := TypeReference.length_le_tokens options
    simp only [names, DeclaredNames.size, jobs, tokens, List.length_map, List.length_nil,
      List.length_append]
    omega
  | struct fields pending =>
    have hfields := TypedName.length_le_tokens fields
    have hjobs := Body.length_jobs_kept name (.struct fields)
    rw [Body.length_struct_jobs] at hjobs
    simp only [names, DeclaredNames.size, jobs, tokens, List.length_map, List.length_append]
    omega
  | resolver properties pending =>
    have hproperties := Signature.total_counts_le properties
    have hjobs := Body.length_jobs_kept name (.resolver properties)
    rw [Body.length_resolver_jobs] at hjobs
    have hsize : (names name (resolver properties pending)).size =
        total (fun property => 1 + property.parameterList.length) properties +
          total (fun property => 1 + property.2.length)
            (pending.map OpenSignature.names).toList := by
      rw [names, DeclaredNames.size, total_append, ← Body.size_resolver_names name]
      rfl
    rw [hsize]
    simp only [jobs, tokens, List.length_append]
    cases pending with
    | none =>
      simp only [Option.map_none, Option.toList_none, total_nil, Option.getD_none, List.length_nil]
      omega
    | some signature =>
      have hsignature := signature.counts_le
      have hqueued := signature.length_jobs_le
      simp only [Option.map_some, Option.toList_some, total_cons, total_nil, Option.getD_some,
        OpenSignature.names, signature.length_parameterNames]
      split
      · rw [List.length_nil]
        omega
      · omega

/-- An open declaration pays for itself, its members and its jobs. -/
theorem OpenDeclaration.counts_le (opened : OpenDeclaration) :
    1 + opened.names.size + opened.jobs.length ≤ opened.tokens.length := by
  cases opened with
  | aliasName | aliasEquals | aliasTarget | blockName | endpointName =>
    simp [names, DeclaredNames.size, jobs, tokens]
  | blockBrace kind keyword name =>
    cases kind <;> simp [names, OpenBody.empty, OpenBody.names, DeclaredNames.size, jobs, tokens]
  | blockBody keyword name opening body =>
    have hbody := body.counts_le name
    simp only [names, jobs, tokens, List.length_cons]
    omega
  | endpoint kind keyword signature =>
    have hsignature := signature.counts_le
    have hqueued := signature.length_jobs_le
    simp only [names, OpenSignature.names, DeclaredNames.size, jobs, tokens, List.length_cons,
      signature.length_parameterNames]
    omega

theorem OpenDeclaration.length_jobsAfter_le (before : List Declaration) (opened : OpenDeclaration) :
    (opened.jobsAfter before).length ≤ opened.jobs.length := by
  unfold jobsAfter
  split
  · exact Nat.le_refl _
  · exact Nat.zero_le _

/-- What has been read pays for its declarations, their members and their jobs. -/
theorem Reading.counts_le (reading : Reading) :
    reading.names.length + total DeclaredNames.size reading.names + reading.jobs.length ≤
      reading.tokens.length := by
  cases reading with
  | start | headed keyword => exact Nat.zero_le _
  | body header declarations pending =>
    -- the header pays for nothing, and each declaration for itself
    have hdeclarations : declarations.length +
        total (fun declaration => declaration.names.size) declarations +
        total (fun declaration => declaration.jobs.length) declarations ≤
        (declarations.flatMap Declaration.tokens).length := by
      rw [length_eq_total, ← total_add, ← total_add, length_flatMap_eq_total]
      exact total_le_total fun declaration _ => declaration.counts_le
    have hkept := Document.length_jobs_keptAfter [] declarations
    rw [← Document.kept] at hkept
    simp only [names, Reading.declarations, pending?, jobs, tokens, List.length_append,
      List.length_map, total_append, total_map]
    cases pending with
    | none =>
      simp only [Option.map_none, Option.toList_none, total_nil, Option.getD_none, List.length_nil]
      omega
    | some opened =>
      have hopened := opened.counts_le
      have hqueued := opened.length_jobsAfter_le declarations
      simp only [Option.map_some, Option.toList_some, total_cons, total_nil, Option.getD_some,
        List.length_cons, List.length_nil]
      omega

end GraphSchema
