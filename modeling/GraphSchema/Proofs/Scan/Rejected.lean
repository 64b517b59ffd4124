import GraphSchema.Proofs.Descent.Progress
import GraphSchema.Proofs.Scan.Tracking

/-!
# What is rejected leaves no trace

A declaration whose name is taken is read to its end, and so is a member or a parameter whose name
was used before.  All that is left of them is in the tree and among the problems: nothing of them is
registered, numbered or queued, wherever the scan stands (`Scan.rejected_untouched`).  So the guard
of every step that registers something is the right one.
-/

namespace GraphSchema

/-- A problem is that the name of a declaration is taken. -/
inductive Declaration.RefusedBy (declaration : Declaration) : Problem → Prop
  | type {name : Token} (named : declaration.typeName? = some name) (prior : Option Cursor) :
      RefusedBy declaration (.typeRedeclared name.text name.start prior)
  | endpoint {name : Token} (named : declaration.endpointName? = some name) (prior : Cursor) :
      RefusedBy declaration (.endpointRedeclared name.text name.start prior)

namespace Scanner

/-- The name of a declaration is taken: it is that of a type, which may be primitive, or it was
claimed by an endpoint. -/
def Refuses (scanner : Scanner) (declaration : Declaration) : Prop :=
  (∃ name ∈ declaration.typeName?, (scanner.types.named.lookup name.text).isSome) ∨
    ∃ name ∈ declaration.endpointName?, (scanner.graph.rootNames.lookup name.text).isSome

theorem refuses_block_iff {scanner : Scanner} {keyword name opening closing : Token} {body : Body} :
    scanner.Refuses (.block keyword name opening body closing) ↔
      (scanner.types.named.lookup name.text).isSome := by
  simp [Refuses, Declaration.typeName?, Declaration.endpointName?]

theorem refuses_alias_iff {scanner : Scanner} {keyword name equals target : Token} :
    scanner.Refuses (.typeAlias keyword name equals target) ↔
      (scanner.types.named.lookup name.text).isSome := by
  simp [Refuses, Declaration.typeName?, Declaration.endpointName?]

theorem refuses_endpoint_iff {scanner : Scanner} {kind : EndpointKind} {keyword : Token}
    {signature : Signature} : scanner.Refuses (.endpoint kind keyword signature) ↔
      (scanner.graph.rootNames.lookup signature.name.text).isSome := by
  simp [Refuses, Declaration.typeName?, Declaration.endpointName?]

/-- When some declarations have been scanned, those are refused whose name is primitive or was used
before. -/
theorem Tracks.refuses_iff {scanner : Scanner} {header : Header} {declarations : List Declaration}
    (h : scanner.Tracks header declarations) {declaration : Declaration} :
    scanner.Refuses declaration ↔ ¬ declaration.IsNewAfter declarations := by
  rw [← Registry.refuses_ofDeclarations_iff, Refuses, Registry.Refuses, h.types, h.graph]
  simp only [TypeTable.lookup_named, Registry.lookup_rootNames, Option.isSome_map]

/-- Between two scanners a declaration was read and reported, with the problems of its members, and
nothing was registered. -/
def Passes (declaration : Declaration) (before after : Scanner) : Prop :=
  ∃ report more, declaration.RefusedBy report ∧
    more.Perm (declaration.names.memberProblems ++ declaration.shortages) ∧
    after = { before with
      lexer := after.lexer, problems := before.problems ++ report :: more }

end Scanner

namespace Scan

variable {ε μ : Type} {scanner : Scanner}

/-! ### Names that are taken -/

theorem gives_trivially {α : Type} (scan : Scan α) (before : Scanner) :
    scan.Gives before fun _ _ => True := by
  intro outcome after _
  cases outcome <;> trivial

theorem declare_of_taken (scanner : Scanner) {name : Token}
    (taken : (scanner.types.named.lookup name.text).isSome) (body : TypeBody) :
    ∃ prior, declare name body scanner = some (.ok none, { scanner with
      problems := scanner.problems ++ [.typeRedeclared name.text name.start prior] }) := by
  obtain ⟨earlier, hearlier⟩ := Option.isSome_iff_exists.mp taken
  rw [declare_apply, TypeCatalog.declare, hearlier]
  exact ⟨_, rfl⟩

theorem endpointNode_of_taken (scanner : Scanner) {name : Token}
    (taken : (scanner.graph.rootNames.lookup name.text).isSome) (kind : EndpointKind) :
    ∃ prior, endpointNode kind name scanner = some (.ok none, { scanner with
      problems := scanner.problems ++ [.endpointRedeclared name.text name.start prior] }) := by
  obtain ⟨prior, hprior⟩ := Option.isSome_iff_exists.mp taken
  rw [endpointNode_apply, GraphCatalog.claimRootName, hprior]
  exact ⟨prior, rfl⟩

/-- Where a name was reported and nothing was registered since, a declaration was passed over. -/
theorem passes_of_onlyReports {declaration : Declaration} {report : Problem} {rest : Lexer}
    {after : Scanner} (refused : declaration.RefusedBy report)
    (same : Scanner.OnlyReports { scanner with
      lexer := rest, problems := scanner.problems ++ [report] } after)
    (recorded : after.problems.Perm (scanner.problems ++ [report] ++
      (declaration.names.memberProblems ++ declaration.shortages))) :
    scanner.Passes declaration after := by
  obtain ⟨reports, hafter⟩ := same.exists_eq
  refine ⟨report, reports, refused, ?_, ?_⟩
  · rw [hafter] at recorded
    exact (List.perm_append_left_iff _).mp recorded
  · rw [List.append_assoc] at hafter
    exact hafter

/-! ### Declarations -/

theorem typeAlias_passes : typeAlias.Gives scanner fun declaration after =>
    scanner.Refuses declaration → scanner.Passes declaration after := by
  refine gives_asks_bind fun keyword _ => gives_asks_bind fun name _ => gives_asks_bind
    fun equals _ => gives_asks_bind fun target rest => ?_
  by_cases htaken : (scanner.types.named.lookup name.text).isSome
  · obtain ⟨prior, hdeclare⟩ := declare_of_taken { scanner with lexer := rest } htaken
      (.typeAlias target.bareDesignation none)
    refine leads_bind_of_eq hdeclare (leads_of_eq rfl fun _ => ?_)
    refine passes_of_onlyReports (.type rfl prior) ⟨rfl, rfl, List.append_nil _, List.prefix_rfl⟩ ?_
    exact List.Perm.of_eq (List.append_nil _).symm
  · refine (gives_trivially _ _).bind fun declared after _ => leads_of_eq rfl fun hrefused => ?_
    exact absurd (Scanner.refuses_alias_iff.mp hrefused) htaken

theorem block_passes {rule : BlockRule ε μ} {name : ε → String} {position : ε → Cursor}
    (skips : rule.SkipsUndeclared) (records : rule.RecordsMembers name position) :
    (block rule).Gives scanner fun (declared, declaration) after =>
      scanner.Refuses declaration → declared = none ∧ scanner.Passes declaration after := by
  refine gives_asks_bind fun keyword _ => gives_asks_bind fun name rest => ?_
  by_cases htaken : (scanner.types.named.lookup name.text).isSome
  · obtain ⟨prior, hdeclare⟩ := declare_of_taken { scanner with lexer := rest } htaken
      (rule.made [])
    refine leads_bind_of_eq hdeclare ?_
    refine Leads.bind (((braces_onlyReports skips name).gives _).and
      (braces_records records keyword name none)) ?_
    rintro ⟨opening, entries, closing⟩ after ⟨hsame, hrecorded⟩
    exact leads_pure fun _ => ⟨rfl, passes_of_onlyReports (.type rfl prior) hsame hrecorded⟩
  · refine (gives_trivially _ _).bind fun declared _ _ => (gives_trivially _ _).bind
      fun ⟨opening, entries, closing⟩ _ _ => leads_pure fun hrefused => ?_
    exact absurd (Scanner.refuses_block_iff.mp hrefused) htaken

theorem plainBlock_passes {rule : BlockRule ε μ} {name : ε → String} {position : ε → Cursor}
    (skips : rule.SkipsUndeclared) (records : rule.RecordsMembers name position) :
    (plainBlock rule).Gives scanner fun declaration after =>
      scanner.Refuses declaration → scanner.Passes declaration after :=
  (block_passes skips records).bind fun _ _ hpasses => leads_pure fun hrefused =>
    (hpasses hrefused).2

/-- A union whose name is taken has no job. -/
theorem union_passes : union.Gives scanner fun declaration after =>
    scanner.Refuses declaration → scanner.Passes declaration after := by
  refine (block_passes unionRule_skipsUndeclared unionRule_records).bind ?_
  rintro ⟨declared, declaration⟩ after hpasses
  refine leads_bind_of_eq (queue_apply _ after) (leads_pure fun hrefused => ?_)
  obtain ⟨rfl, report, more, hreport, hmore, hafter⟩ := hpasses hrefused
  refine ⟨report, more, hreport, hmore, ?_⟩
  rw [Option.map_none, Option.toList_none, List.append_nil]
  exact hafter

theorem endpoint_passes (kind : EndpointKind) :
    (endpoint kind).Gives scanner fun declaration after =>
      scanner.Refuses declaration → scanner.Passes declaration after := by
  refine gives_asks_bind fun keyword _ => gives_asks_bind fun name rest => ?_
  by_cases htaken : (scanner.graph.rootNames.lookup name.text).isSome
  · obtain ⟨prior, hnode⟩ := endpointNode_of_taken { scanner with lexer := rest } htaken kind
    refine leads_bind_of_eq hnode ?_
    refine Leads.bind ((((signature_onlyReports name name.text).gives _).and
      (signature_records name none name.text)).and (signature_name name none name.text _)) ?_
    rintro signature after ⟨⟨hsame, hrecorded⟩, rfl⟩
    refine leads_pure fun _ => passes_of_onlyReports (.endpoint rfl prior) hsame ?_
    rw [hrecorded]
    exact List.Perm.of_eq (congrArg _ (List.append_nil _).symm)
  · refine (gives_trivially _ _).bind fun node reached _ =>
      (signature_name name node name.text reached).bind ?_
    rintro signature _ rfl
    exact leads_pure fun hrefused =>
      absurd (Scanner.refuses_endpoint_iff.mp hrefused) htaken

/-- A declaration whose name is taken is passed over. -/
theorem declaration_passes (token : Token) :
    (declaration token).Gives scanner fun declaration after =>
      scanner.Refuses declaration → scanner.Passes declaration after := by
  unfold declaration
  split
  · exact typeAlias_passes
  · exact plainBlock_passes enumRule_skipsUndeclared enumRule_records
  · exact union_passes
  · exact plainBlock_passes structRule_skipsUndeclared structRule_records
  · exact plainBlock_passes resolverRule_skipsUndeclared resolverRule_records
  · exact endpoint_passes .query
  · exact endpoint_passes .mutation
  · intro outcome after hresult
    cases hresult
    trivial

/-! ### Repeated names -/

/-- The members that have been read have claimed their names, and a member with a name that one of
them has is passed over: nothing is registered for it, nor is it admitted, whether its declaration
was registered or not. -/
structure BlockRule.PassesRepeats (rule : BlockRule ε μ) (read : Rule ε) (name : ε → String)
    (position : ε → Cursor) : Prop where
  claims : ∀ (owner : Token) (declared : Option TypeId) (members : Members ε μ) (scanner : Scanner),
    members.scope.Claims name position members.entries →
    (rule.member owner declared members).Gives scanner fun next _ =>
      next.scope.Claims name position next.entries
  repeats : ∀ (owner : Token) (declared : Option TypeId) (members : Members ε μ)
    (scanner : Scanner) (entry : ε) (rest : Lexer),
    members.scope.Claims name position members.entries → name entry ∈ members.entries.map name →
    read scanner.lexer = some (.ok entry, rest) → ∃ report more,
      rule.member owner declared members scanner =
        some (.ok { members with entries := members.entries ++ [entry] },
          { scanner with lexer := rest, problems := scanner.problems ++ report :: more })

theorem claimed_claims {name : ε → String} {position : ε → Cursor} {members : Members ε μ}
    (claims : members.scope.Claims name position members.entries) (read : Rule ε)
    (again : ε → Cursor → Problem) (accept : ε → Scan (Option μ)) :
    (claimed read name position again accept members).Gives scanner fun next _ =>
      next.scope.Claims name position next.entries :=
  claimed_leads claims
    (fun _ _ hnew => (gives_trivially _ _).mono
      (fun _ _ _ => claims.new (claims.lookup_eq_none_iff.mpr hnew)) fun _ _ => id)
    (fun _ _ _ hfirst => claims.again hfirst) fun _ _ _ => trivial

theorem resolverProperty_claims (owner : Token) (declared : Option TypeId)
    {members : Members Signature NodeId}
    (claims : members.scope.Claims (·.name.text) (·.name.start) members.entries) :
    (resolverProperty owner declared members).Gives scanner fun next _ =>
      next.scope.Claims (·.name.text) (·.name.start) next.entries := by
  have hclaims : members.scope.Claims Token.text Token.start
      (members.entries.map Signature.name) :=
    NameScope.claims_map_iff.mpr claims
  refine gives_asks_bind fun name rest => ?_
  refine Leads.bind (enter_records hclaims _ (memberNode_recordsNone _ owner declared name)) ?_
  rintro ⟨scope, node⟩ after ⟨hscope, -⟩
  refine (signature_name name node _ after).bind ?_
  rintro property last rfl
  refine leads_pure (NameScope.claims_map_iff.mp ?_)
  show NameScope.Claims scope Token.text Token.start
    ((members.entries ++ [property]).map Signature.name)
  rw [List.map_append]
  exact hscope

/-- A name that was used before was claimed. -/
theorem BlockRule.SkipsRepeats.passes {rule : BlockRule ε μ} {read : Rule ε} {name : ε → String}
    {position : ε → Cursor} (h : rule.SkipsRepeats read name)
    (claims : ∀ (owner : Token) (declared : Option TypeId) (members : Members ε μ)
      (scanner : Scanner), members.scope.Claims name position members.entries →
      (rule.member owner declared members).Gives scanner fun next _ =>
        next.scope.Claims name position next.entries) :
    rule.PassesRepeats read name position := by
  refine ⟨claims, fun owner declared members scanner entry rest hclaims hrepeated hreads => ?_⟩
  refine h owner declared members scanner entry rest hreads ?_
  rw [Option.isSome_iff_ne_none]
  exact fun hnone => hclaims.lookup_eq_none_iff.mp hnone hrepeated

/-- The parameters that have been read have claimed their names, and a parameter with a name that
one of them has is passed over, whether its graph node was registered or not. -/
structure PassesParameters : Prop where
  claims : ∀ (target : Option NodeId) (nodeName : String) (scope : NameScope)
    (entries : List (TypedName × Token)) (scanner : Scanner),
    scope.Claims (·.name.text) (·.name.start) (entries.map Prod.fst) →
    (parameterTurn target nodeName (scope, entries)).Gives scanner fun
      | .more next => fun _ =>
        next.1.Claims (·.name.text) (·.name.start) (next.2.map Prod.fst)
      | .done _ => fun _ => True
  repeats : ∀ (target : Option NodeId) (nodeName : String) (scope : NameScope)
    (entries : List (TypedName × Token)) (scanner : Scanner) (parameter : TypedName)
    (progress : Progress (List (TypedName × Token)) (List (TypedName × Token)))
    (middle rest : Lexer),
    scope.Claims (·.name.text) (·.name.start) (entries.map Prod.fst) →
    parameter.name.text ∈ (entries.map Prod.fst).map (·.name.text) →
    Rule.typed scanner.lexer = some (.ok parameter, middle) →
    Rule.take .separator (Rule.separated entries parameter) middle = some (.ok progress, rest) →
    ∃ prior, parameterTurn target nodeName (scope, entries) scanner =
      some (.ok (progress.map (fun entries => (scope, entries)) id), { scanner with
        lexer := rest
        problems := scanner.problems ++
          [.parameterRedeclared nodeName parameter.name.text parameter.name.start prior] })

theorem passesParameters : PassesParameters where
  claims target nodeName scope entries scanner hclaims := by
    have hturn : (parameterTurn target nodeName (scope, entries)).Gives scanner _ :=
      parameterTurn_keeps
        (fun scope parameters _ => scope.Claims (·.name.text) (·.name.start) parameters)
        (fun _ _ _ _ => id) (fun _ _ parameter _ hnow =>
          (enter_records hnow _ (parameterOf_recordsNone target parameter)).mono
            (fun _ _ hadmitted => hadmitted.1) fun _ _ => id) hclaims
    refine hturn.mono (fun progress _ hprogress => ?_) fun _ _ => id
    cases progress with
    | more next => exact hprogress
    | done entries => trivial
  repeats target nodeName scope entries scanner parameter progress middle rest hclaims hrepeated
      hreads hfollows := by
    have htaken : (scope.lookup parameter.name.text).isSome := by
      rw [Option.isSome_iff_ne_none]
      exact fun hnone => hclaims.lookup_eq_none_iff.mp hnone hrepeated
    obtain ⟨prior, hprior⟩ := Option.isSome_iff_exists.mp htaken
    exact ⟨prior, parameterTurn_of_claimed hreads hfollows hprior⟩

/-! ### Two texts -/

/-- The text `alias Bool=T` from one of its characters on. -/
def aliasFrom (index : Nat) : Lexer :=
  ⟨"alias Bool=T", "alias Bool=T".toList.drop index, ⟨index, 1, index + 1, default⟩, false⟩

/-- A token of that text. -/
def aliasToken (kind : TokenKind) (text : String) (index : Nat) : Token :=
  ⟨kind, text, (aliasFrom index).cursor, (aliasFrom (index + text.length)).cursor⟩

/-- A declaration under the name of a primitive type. -/
def primitiveAlias : Declaration :=
  .typeAlias (aliasToken (.keyword .typeAlias) "alias" 0) (aliasToken .typeName "Bool" 6)
    (aliasToken .equals "=" 10) (aliasToken .typeName "T" 11)

theorem declaration_primitiveAlias :
    Rule.declaration (aliasToken (.keyword .typeAlias) "alias" 0) (aliasFrom 0) =
      some (.ok primitiveAlias, aliasFrom 12) := by
  have hkeyword : Rule.expect (.keyword .typeAlias) (aliasFrom 0) =
      some (.ok (aliasToken (.keyword .typeAlias) "alias" 0), aliasFrom 5) := by
    rw [Rule.expect, Rule.take_apply, Lexer.nextToken_of_done rfl]
    rfl
  have hspace : (aliasFrom 5).ask = .more (aliasFrom 6) := rfl
  have hname : Rule.typeName (aliasFrom 5) =
      some (.ok (aliasToken .typeName "Bool" 6), aliasFrom 10) := by
    rw [Rule.typeName, Rule.take_apply, Lexer.nextToken_of_more hspace, Lexer.nextToken_of_done rfl]
    rfl
  have hequals : Rule.expect .equals (aliasFrom 10) =
      some (.ok (aliasToken .equals "=" 10), aliasFrom 11) := by
    rw [Rule.expect, Rule.take_apply, Lexer.nextToken_of_done rfl]
    rfl
  have htarget : Rule.typeName (aliasFrom 11) =
      some (.ok (aliasToken .typeName "T" 11), aliasFrom 12) := by
    rw [Rule.typeName, Rule.take_apply, Lexer.nextToken_of_done rfl]
    rfl
  show Rule.typeAlias (aliasFrom 0) = _
  rw [Rule.typeAlias, Rule.bind_of_ok hkeyword, Rule.bind_of_ok hname, Rule.bind_of_ok hequals,
    Rule.bind_of_ok htarget]
  rfl

/-- A struct with a field that is repeated, another one of the same name, and a query with a
parameter that is repeated. -/
def repeatedSource : String :=
  "schema s struct T \x7b a U a U \x7d struct T \x7b b U \x7d query q(x U, x U) U"

/-! ### The result -/

/-- What is rejected registers nothing. -/
structure Untouched : Prop where
  /-- Wherever the scan stands, a declaration whose name is taken changes no table, no number and no
  job. -/
  declaration : ∀ (scanner : Scanner) (token : Token) (declaration : Declaration) (rest : Lexer),
    Rule.declaration token scanner.lexer = some (.ok declaration, rest) →
    scanner.Refuses declaration → ∃ after,
      Scan.declaration token scanner = some (.ok declaration, after) ∧ after.lexer = rest ∧
        scanner.Passes declaration after
  /-- Neither does a member or a parameter whose name was used before in its place. -/
  value : enumRule.PassesRepeats Rule.lowerName Token.text Token.start
  option : unionRule.PassesRepeats Rule.designation (·.designation.canonical)
    (·.designation.position)
  field : structRule.PassesRepeats Rule.typed (·.name.text) (·.name.start)
  property : resolverRule.PassesRepeats Rule.signature (·.name.text) (·.name.start)
  parameter : PassesParameters
  /-- When some declarations have been scanned, a name is taken if it is primitive or one of them
  has it, be it registered or not. -/
  refuses : ∀ (scanner : Scanner) (header : Header) (declarations : List Declaration)
    (declaration : Declaration), scanner.Tracks header declarations →
    (scanner.Refuses declaration ↔ ¬ declaration.IsNewAfter declarations)
  /-- What is not rejected is registered: in the end the catalogs hold the registry of the document,
  with its jobs and its problems. -/
  document : ∀ (lexer rest : Lexer) (read : Document),
    Rule.document lexer = some (.ok read, rest) → ∃ after,
      Scan.document (Scanner.start lexer) = some (.ok read, after) ∧ after.lexer = rest ∧
        after.Tracks read.header read.declarations

/-- Rejected declarations, members and parameters leave the types, the graph nodes, the parameters,
the names of endpoints, all numbers and the queue of jobs as they are. -/
theorem rejected_untouched : Untouched where
  declaration scanner token declaration rest hreads hrefused := by
    obtain ⟨found, after, hscan, hfound, hrest⟩ :=
      (declaration_reads token).exists_of_ok scanner hreads
    obtain rfl : found = declaration := hfound
    exact ⟨after, hscan, hrest, declaration_passes token _ _ hscan hrefused⟩
  value := enumRule_skipsRepeats.passes fun _ _ _ _ hclaims => claimed_claims hclaims _ _ _
  option := unionRule_skipsRepeats.passes fun _ _ _ _ hclaims => claimed_claims hclaims _ _ _
  field := structRule_skipsRepeats.passes fun _ _ _ _ hclaims => claimed_claims hclaims _ _ _
  property := resolverRule_skipsRepeats.passes fun owner declared _ _ hclaims =>
    resolverProperty_claims owner declared hclaims
  parameter := passesParameters
  refuses _ _ _ _ htracks := htracks.refuses_iff
  document _ _ _ hreads := document_agrees hreads

/-- A primitive name is refused, and of what is repeated in a document the first is registered. -/
theorem rejected_untouched_repeats :
    (∃ after, Scan.declaration (aliasToken (.keyword .typeAlias) "alias" 0)
        (Scanner.start (aliasFrom 0)) = some (.ok primitiveAlias, after) ∧
      after.lexer = aliasFrom 12 ∧ (Scanner.start (aliasFrom 0)).Passes primitiveAlias after) ∧
    ∃ read after, Scan.document (Scanner.start (.ofSource default repeatedSource)) =
        some (.ok read, after) ∧ after.types.next = 101 ∧ after.graph.nextNode = 3 ∧
      after.graph.nextParameter = 2 ∧ after.jobs.length = 3 ∧ after.problems.length = 3 := by
  refine ⟨rejected_untouched.declaration _ _ _ _ declaration_primitiveAlias
    (Scanner.refuses_alias_iff.mpr rfl), ?_⟩
  obtain ⟨outcome, rest, taken, hresult, -, -⟩ :=
    Rule.document_ends (Lexer.ofSource default repeatedSource)
  have hfinds : Rule.Finds outcome (Reading.ofStream (Schema.stream default repeatedSource)) :=
    Rule.document_finds hresult
  have hcounts : let read := Reading.ofStream (Schema.stream default repeatedSource)
      let registry := Registry.ofDeclarations read.1.declarations
      read.2 = none ∧ registry.types.catalog.next = 101 ∧ registry.graphCatalog.nextNode = 3 ∧
        registry.graphCatalog.nextParameter = 2 ∧ read.1.jobs.length = 3 ∧
        read.1.problems.length = 3 := by
    decide +kernel
  obtain ⟨hnone, htypes, hnodes, hparameters, hjobs, hproblems⟩ := hcounts
  cases outcome with
  | error problem => cases hnone.symm.trans hfinds
  | ok read =>
    have hbody : (Reading.ofStream (Schema.stream default repeatedSource)).1 =
        .body read.header read.declarations none :=
      congrArg Prod.fst hfinds
    rw [hbody] at htypes hnodes hparameters hjobs hproblems
    obtain ⟨after, hscan, -, htracks⟩ := rejected_untouched.document _ _ _ hresult
    refine ⟨read, after, hscan, ?_, ?_, ?_, ?_, ?_⟩
    · rw [htracks.types]
      exact htypes
    · rw [htracks.graph]
      exact hnodes
    · rw [htracks.graph]
      exact hparameters
    · rw [htracks.jobs.length_eq]
      exact hjobs
    · rw [htracks.problems.length_eq]
      exact hproblems

end Scan

end GraphSchema
