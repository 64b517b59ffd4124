import GraphSchema.Proofs.Document.Lasting
import GraphSchema.Proofs.Scan.Agreement

/-!
# What a scan records

A scan records a problem as soon as it shows: that the name of a declaration is taken, that a member
or a parameter has the name of one before it, and that a declaration has too few members.  In the
end these are the problems that the reading of the declaration is reported with
(`Scan.declaration_records`), whether the declaration was registered or not.
-/

namespace GraphSchema

variable {ε μ : Type}

/-! ### Repeated names -/

/-- The entries whose name was used before, each reported with the place of the first use. -/
def repetitions (name : ε → String) (position : ε → Cursor) (again : ε → Cursor → Problem)
    (entries : List ε) : List Problem :=
  (repeats name entries).map fun (first, later) => again later (position first)

theorem repetitions_concat (name : ε → String) (position : ε → Cursor)
    (again : ε → Cursor → Problem) (entries : List ε) (entry : ε) :
    repetitions name position again (entries ++ [entry]) =
      repetitions name position again entries ++
        ((entries.find? fun earlier => name earlier = name entry).map fun first =>
          again entry (position first)).toList := by
  rw [repetitions, repeats_concat, List.map_append]
  cases entries.find? fun earlier => name earlier = name entry <;> rfl

/-- What is repeated among images is repeated among what they are images of. -/
theorem repetitions_map {δ : Type} (entry : δ → ε) (name : ε → String) (position : ε → Cursor)
    (again : ε → Cursor → Problem) (others : List δ) :
    repetitions name position again (others.map entry) =
      repetitions (fun other => name (entry other)) (fun other => position (entry other))
        (fun other => again (entry other)) others := by
  rw [repetitions, repeats_map, List.map_map]
  rfl

namespace Scan

variable {scanner : Scanner}

/-- Where a scan comes to its end, it has recorded no problem. -/
def RecordsNone {α : Type} (scan : Scan α) : Prop :=
  ∀ before, scan.Gives before fun _ after => after.problems = before.problems

/-- A name that was used before is reported when it is claimed. -/
theorem enter_records {name : ε → String} {position : ε → Cursor} {scope : NameScope}
    {entries : List ε} (claims : scope.Claims name position entries) {entry : ε}
    (again : Cursor → Problem) {accept : Scan (Option μ)} (quiet : accept.RecordsNone) :
    (enter scope (name entry) (position entry) again accept).Gives scanner fun admitted after =>
      admitted.1.Claims name position (entries ++ [entry]) ∧
        after.problems = scanner.problems ++
          ((entries.find? fun earlier => name earlier = name entry).map fun first =>
            again (position first)).toList := by
  refine enter_leads claims (fun hnew => ?_) fun first hfirst => ?_
  · refine (quiet scanner).mono (fun _ after hafter => ?_) fun _ _ => id
    have hfind : (entries.find? fun earlier => name earlier = name entry) = none := by
      rw [List.find?_eq_none]
      intro earlier hearlier hsame
      exact hnew (List.mem_map.mpr ⟨earlier, hearlier, of_decide_eq_true hsame⟩)
    rw [hfind, hafter]
    exact ⟨claims.new (claims.lookup_eq_none_iff.mpr hnew), (List.append_nil _).symm⟩
  · rw [hfirst]
    exact ⟨claims.again hfirst, rfl⟩

theorem parameterOf_recordsNone (target : Option NodeId) (parameter : TypedName) :
    (parameterOf target parameter).RecordsNone := by
  intro before
  cases target <;> exact leads_of_eq rfl rfl

theorem memberNode_recordsNone (kind : TypeId → NodeKind) (owner : Token)
    (declared : Option TypeId) (name : Token) :
    (memberNode kind owner declared name).RecordsNone := by
  intro before
  cases declared <;> exact leads_of_eq rfl rfl

theorem complete_recordsNone (declared : Option TypeId) (body : TypeBody) :
    (complete declared body).RecordsNone := by
  intro before
  cases declared <;> exact leads_of_eq rfl rfl

/-! ### Parameters and signatures -/

/-- The problems with the parameters that have been read. -/
structure ReportsParameters (nodeName : String) (before : Scanner) (scope : NameScope)
    (parameters : List TypedName) (scanner : Scanner) : Prop where
  claims : scope.Claims (·.name.text) (·.name.start) parameters
  problems : scanner.problems = before.problems ++
    DeclaredNames.parameterProblems nodeName (parameters.map TypedName.name)

theorem parameterProblems_eq (nodeName : String) (parameters : List TypedName) :
    DeclaredNames.parameterProblems nodeName (parameters.map TypedName.name) =
      repetitions (·.name.text) (·.name.start)
        (fun parameter =>
          .parameterRedeclared nodeName parameter.name.text parameter.name.start) parameters :=
  repetitions_map TypedName.name Token.text Token.start
    (fun name => .parameterRedeclared nodeName name.text name.start) parameters

/-- One parameter more is reported if its name was used before. -/
theorem ReportsParameters.enter {nodeName : String} {before : Scanner} {scope : NameScope}
    {parameters : List TypedName} (h : ReportsParameters nodeName before scope parameters scanner)
    {parameter : TypedName} {accept : Scan (Option μ)} (quiet : accept.RecordsNone) :
    (enter scope parameter.name.text parameter.name.start
      (.parameterRedeclared nodeName parameter.name.text parameter.name.start) accept).Gives
        scanner fun admitted =>
          ReportsParameters nodeName before admitted.1 (parameters ++ [parameter]) := by
  refine (enter_records h.claims _ quiet).mono (fun _ _ ⟨hclaims, hproblems⟩ => ⟨hclaims, ?_⟩)
    fun _ _ => id
  rw [hproblems, parameterProblems_eq, repetitions_concat, ← parameterProblems_eq,
    ← List.append_assoc, ← h.problems]

/-- The problems with the parameters of a list are recorded. -/
theorem parameterList_records (target : Option NodeId) (nodeName : String) :
    (parameterList target nodeName).Gives scanner fun listing after =>
      after.problems = scanner.problems ++ DeclaredNames.parameterProblems nodeName
        ((listing.entries.map Prod.fst).map TypedName.name) := by
  have hlist := parameterList_keeps (ReportsParameters nodeName scanner)
    (fun _ _ _ _ hnow => ⟨hnow.claims, hnow.problems⟩)
    (fun _ _ parameter _ hnow => hnow.enter (parameterOf_recordsNone target parameter))
    ⟨NameScope.claims_nil, (List.append_nil _).symm⟩
  exact hlist.mono (fun _ _ ⟨_, hafter⟩ => hafter.problems) fun _ _ => id

/-- A property or an endpoint is reported for its parameters, whether it was registered or not. -/
theorem signature_records (name : Token) (node : Option NodeId) (nodeName : String) :
    (signature name node nodeName).Gives scanner fun signature after =>
      after.problems =
        scanner.problems ++ DeclaredNames.parameterProblems nodeName signature.names.2 := by
  have htypeOf (listing : Option ParameterListing) (read : Scanner)
      (hread : read.problems = scanner.problems ++ DeclaredNames.parameterProblems nodeName
        ((Signature.parameterList ⟨name, listing, default⟩).map TypedName.name)) :
      (typeOf name node listing).Gives read fun signature after =>
        after.problems =
          scanner.problems ++ DeclaredNames.parameterProblems nodeName signature.names.2 :=
    gives_asks_bind fun found rest => leads_of_eq rfl hread
  refine gives_asks_bind fun applied asked => ?_
  cases applied with
  | true =>
    exact (parameterList_records node nodeName).bind fun listing after hafter =>
      htypeOf (some listing) after hafter
  | false => exact htypeOf none _ (List.append_nil _).symm

/-! ### Members -/

section

variable {owner : Token} {rule : BlockRule ε μ} {name : ε → String} {position : ε → Cursor}
  {before : Scanner} {members : Members ε μ}

/-- The problems with the members that have been read. -/
structure ReportsMembers (owner : Token) (rule : BlockRule ε μ) (name : ε → String)
    (position : ε → Cursor) (before : Scanner) (members : Members ε μ) (scanner : Scanner) :
    Prop where
  claims : members.scope.Claims name position members.entries
  problems : scanner.problems.Perm
    (before.problems ++ ((rule.written members.entries).names owner).memberProblems)

/-- A rule for members records the problems with its members, and with their number, whether their
declaration was registered or not. -/
structure BlockRule.RecordsMembers (rule : BlockRule ε μ) (name : ε → String)
    (position : ε → Cursor) : Prop where
  begins : ∀ owner, ((rule.written []).names owner).memberProblems = []
  member : ∀ (owner : Token) (declared : Option TypeId) (before : Scanner) (members : Members ε μ)
    (scanner : Scanner), ReportsMembers owner rule name position before members scanner →
    (rule.member owner declared members).Gives scanner
      (ReportsMembers owner rule name position before)
  shortages : ∀ keyword name opening entries closing,
    (Declaration.block keyword name opening (rule.written entries) closing).shortages =
      if entries.length < rule.least then [rule.shortage name entries.length] else []

theorem claimed_records (h : ReportsMembers owner rule name position before members scanner)
    {again : ε → Cursor → Problem} (written : ∀ entries,
      ((rule.written entries).names owner).memberProblems = repetitions name position again entries)
    (read : Rule ε) {accept : ε → Scan (Option μ)} (quiet : ∀ entry, (accept entry).RecordsNone) :
    (claimed read name position again accept members).Gives scanner
      (ReportsMembers owner rule name position before) := by
  refine gives_asks_bind fun entry rest => ?_
  refine Leads.bind (enter_records h.claims (again entry) (quiet entry)) ?_
  rintro ⟨scope, new?⟩ after ⟨hclaims, hproblems⟩
  refine leads_pure ⟨hclaims, ?_⟩
  have hbefore := h.problems
  rw [written] at hbefore
  rw [hproblems, Members.add, written, repetitions_concat, ← List.append_assoc]
  exact hbefore.append_right _

theorem enumRule_records : enumRule.RecordsMembers Token.text Token.start := by
  refine ⟨fun _ => rfl, fun owner declared before members scanner h => ?_, fun _ _ _ values _ => ?_⟩
  · exact claimed_records h (fun _ => rfl) _ fun _ _ => leads_pure rfl
  · cases values <;> rfl

theorem unionRule_records :
    unionRule.RecordsMembers (·.designation.canonical) (·.designation.position) := by
  refine ⟨fun _ => rfl, fun owner declared before members scanner h => ?_,
    fun _ _ _ options _ => rfl⟩
  exact claimed_records h (fun options => repetitions_map TypeReference.designation
    Designation.canonical Designation.position
    (fun option => .optionRepeated owner.text option.canonical option.position) options) _
      fun _ _ => leads_pure rfl

theorem structRule_records : structRule.RecordsMembers (·.name.text) (·.name.start) := by
  refine ⟨fun _ => rfl, fun owner declared before members scanner h => ?_, fun _ _ _ fields _ => ?_⟩
  · refine claimed_records h (fun fields => repetitions_map TypedName.name Token.text Token.start
      (fun name => .fieldRedeclared owner.text name.text name.start) fields) _ fun field now => ?_
    exact (memberNode_recordsNone _ owner declared field.name now).bind
      fun _ _ hnode => leads_of_eq rfl hnode
  · cases fields <;> rfl

/-- The problems with a property more: that its name was used before, and those with the parameters
that have been read of it. -/
theorem memberProblems_concat (owner : Token) (properties : List Signature) (name : Token)
    (parameters : List Token) :
    (DeclaredNames.resolver owner
        (properties.map Signature.names ++ [(name, parameters)])).memberProblems.Perm
      (((Body.resolver properties).names owner).memberProblems ++
        ((((properties.map Signature.name).find? fun earlier => earlier.text = name.text).map
          fun first => .propertyRedeclared owner.text name.text name.start first.start).toList ++
          DeclaredNames.parameterProblems (owner.text ++ "." ++ name.text) parameters)) := by
  have hfirst : ((properties.map Signature.names).find? fun earlier =>
        earlier.1.text = name.text).map (fun first => Problem.propertyRedeclared owner.text
          name.text name.start first.1.start) =
      ((properties.map Signature.name).find? fun earlier => earlier.text = name.text).map
        fun first => .propertyRedeclared owner.text name.text name.start first.start := by
    rw [List.find?_map, List.find?_map, Option.map_map, Option.map_map]
    rfl
  have hproblems (names : List (Token × List Token)) :
      (DeclaredNames.resolver owner names).memberProblems =
        repetitions (fun names => names.1.text) (fun names => names.1.start)
          (fun names => .propertyRedeclared owner.text names.1.text names.1.start) names ++
        names.flatMap fun names =>
          DeclaredNames.parameterProblems (owner.text ++ "." ++ names.1.text) names.2 := rfl
  rw [Body.names, hproblems, hproblems, repetitions_concat, hfirst, List.flatMap_append,
    List.flatMap_singleton, List.append_assoc, List.append_assoc]
  refine List.Perm.append_left _ ?_
  rw [← List.append_assoc, ← List.append_assoc]
  exact List.perm_append_comm.append_right _

theorem resolverRule_records : resolverRule.RecordsMembers (·.name.text) (·.name.start) := by
  refine ⟨fun _ => rfl, fun owner declared before members scanner h => ?_,
    fun _ _ _ properties _ => ?_⟩
  · have hclaims : members.scope.Claims Token.text Token.start
        (members.entries.map Signature.name) :=
      NameScope.claims_map_iff.mpr h.claims
    refine gives_asks_bind fun name rest => ?_
    refine Leads.bind (enter_records hclaims _ (memberNode_recordsNone _ owner declared name)) ?_
    rintro ⟨scope, node⟩ after ⟨hscope, hproblems⟩
    refine Leads.bind ((signature_records name node _).and (signature_name name node _ after)) ?_
    rintro property last ⟨hlast, rfl⟩
    refine leads_pure ⟨?_, ?_⟩
    · refine NameScope.claims_map_iff.mp (?_ : NameScope.Claims _ Token.text Token.start
        ((members.entries ++ [property]).map Signature.name))
      rw [List.map_append]
      exact hscope
    · show last.problems.Perm (before.problems ++ (DeclaredNames.resolver owner
        ((members.entries ++ [property]).map Signature.names)).memberProblems)
      rw [List.map_append]
      refine List.Perm.trans ?_ ((memberProblems_concat owner members.entries property.name
        property.names.2).symm.append_left _)
      rw [hlast, hproblems, ← List.append_assoc, ← List.append_assoc]
      exact (h.problems.append_right _).append_right _
  · cases properties <;> rfl

end

end Scan

/-! ### Declarations -/

namespace Registry

/-- The problem of a type name that is taken. -/
def typeRefusal? (registry : Registry) (name : Token) : Option Problem :=
  (registry.types.named? name.text).map fun type =>
    .typeRedeclared name.text name.start type.position?

/-- The problem of an endpoint name that is taken. -/
def endpointRefusal? (registry : Registry) (name : Token) : Option Problem :=
  (registry.endpoint? name.text).map fun node =>
    .endpointRedeclared name.text name.start node.position

/-- The problem with the name of a declaration that is refused. -/
def refusal? (registry : Registry) : DeclaredNames → Option Problem
  | .nothing => none
  | .typeAlias name | .enum name _ | .union name _ | .struct name _ | .resolver name _ =>
    registry.typeRefusal? name
  | .endpoint name _ => registry.endpointRefusal? name

/-- The members of a declaration make no difference for whether its name is taken. -/
theorem refusal?_names (registry : Registry) (name : Token) (body : Body) :
    registry.refusal? (body.names name) = registry.typeRefusal? name := by
  cases body <;> rfl

/-- The problems with the names of a declaration after those of the registry. -/
def nameProblems (registry : Registry) (names : DeclaredNames) : List Problem :=
  (registry.refusal? names).toList ++ names.memberProblems

/-- The problems that a scan of a declaration records. -/
def newProblems (registry : Registry) (declaration : Declaration) : List Problem :=
  registry.nameProblems declaration.names ++ declaration.shortages

end Registry

namespace Scan

variable {registry : Registry} {scanner : Scanner}

/-- A type name is reported if it is taken. -/
theorem declare_records (h : Stands registry scanner) (name : Token) (body : TypeBody) :
    (declare name body).Gives scanner fun _ after =>
      after.problems = scanner.problems ++ (registry.typeRefusal? name).toList := by
  rw [Registry.typeRefusal?]
  rcases declare_cases h name body with ⟨type, htaken, hdeclare⟩ | ⟨hnew, hdeclare⟩
  · rw [htaken]
    exact leads_of_eq hdeclare rfl
  · rw [hnew]
    exact leads_of_eq hdeclare (List.append_nil _).symm

/-- An endpoint name is reported if it is taken. -/
theorem endpointNode_records (h : Stands registry scanner) (kind : EndpointKind) (name : Token) :
    (endpointNode kind name).Gives scanner fun _ after =>
      after.problems = scanner.problems ++ (registry.endpointRefusal? name).toList := by
  rw [Registry.endpointRefusal?]
  rcases endpointNode_cases h kind name default with ⟨node, htaken, hnode⟩ | ⟨hnew, hnode⟩
  · rw [htaken]
    exact leads_of_eq hnode rfl
  · rw [hnew]
    exact leads_of_eq hnode (List.append_nil _).symm

theorem typeAlias_records (h : Stands registry scanner) :
    typeAlias.Gives scanner fun declaration after =>
      after.problems.Perm (scanner.problems ++ registry.newProblems declaration) := by
  refine gives_asks_bind fun keyword _ => gives_asks_bind fun name _ => gives_asks_bind
    fun equals _ => gives_asks_bind fun target rest => ?_
  refine (declare_records (h.read rest) name _).bind fun declared after hafter => ?_
  refine leads_of_eq rfl (List.Perm.of_eq ?_)
  refine hafter.trans (congrArg (scanner.problems ++ ·) ?_)
  show _ = ((registry.typeRefusal? name).toList ++ []) ++ []
  rw [List.append_nil, List.append_nil]

/-- Too few members are reported when all of them have been read. -/
theorem checkSize_records (rule : BlockRule ε μ) (name : Token) (count : Nat) :
    (checkSize rule name count).Gives scanner fun _ after =>
      after.problems = scanner.problems ++
        if count < rule.least then [rule.shortage name count] else [] := by
  unfold checkSize
  split
  · exact leads_of_eq rfl rfl
  · exact leads_of_eq rfl (List.append_nil _).symm

/-- The problems with the members of a block, and with their number. -/
theorem braces_records {rule : BlockRule ε μ} {name : ε → String} {position : ε → Cursor}
    (records : rule.RecordsMembers name position) (keyword owner : Token)
    (declared : Option TypeId) :
    (braces rule owner declared).Gives scanner fun (opening, entries, closing) after =>
      after.problems.Perm (scanner.problems ++
        (((rule.written entries).names owner).memberProblems ++
          (Declaration.block keyword owner opening (rule.written entries) closing).shortages)) := by
  refine gives_asks_bind fun opening opened => ?_
  have hloop := members_keep (rule.member owner declared)
    (ReportsMembers owner rule name position scanner)
    (fun _ _ _ hnow => ⟨hnow.claims, hnow.problems⟩)
    (fun members now => records.member owner declared scanner members now)
    (⟨NameScope.claims_nil, by
      rw [Members.none, records.begins, List.append_nil]⟩ : ReportsMembers owner rule name position
        scanner .none { scanner with lexer := opened })
  refine hloop.bind fun members read hread => gives_asks_bind fun closing rest => ?_
  refine (checkSize_records rule owner _).bind fun _ checked hchecked => ?_
  refine Leads.bind (complete_recordsNone declared _ checked) fun _ completed hcompleted => ?_
  refine leads_pure ?_
  dsimp only
  rw [hcompleted, hchecked, records.shortages, ← List.append_assoc]
  exact hread.problems.append_right _

theorem block_records {rule : BlockRule ε μ} {name : ε → String} {position : ε → Cursor}
    (records : rule.RecordsMembers name position) (h : Stands registry scanner) :
    (block rule).Gives scanner fun (_, declaration) after =>
      after.problems.Perm (scanner.problems ++ registry.newProblems declaration) := by
  refine gives_asks_bind fun keyword _ => gives_asks_bind fun name rest => ?_
  refine (declare_records (h.read rest) name _).bind fun declared claimed hclaimed => ?_
  refine Leads.bind (braces_records records keyword name declared) ?_
  rintro ⟨opening, entries, closing⟩ after hafter
  refine leads_pure (hafter.trans (List.Perm.of_eq ?_))
  have hnames : registry.refusal? ((rule.written entries).names name) =
      registry.typeRefusal? name := registry.refusal?_names name _
  show _ = scanner.problems ++ (((registry.refusal? ((rule.written entries).names name)).toList ++
    ((rule.written entries).names name).memberProblems) ++ _)
  rw [hclaimed, hnames, List.append_assoc, List.append_assoc]

theorem plainBlock_records {rule : BlockRule ε μ} {name : ε → String} {position : ε → Cursor}
    (records : rule.RecordsMembers name position) (h : Stands registry scanner) :
    (plainBlock rule).Gives scanner fun declaration after =>
      after.problems.Perm (scanner.problems ++ registry.newProblems declaration) :=
  (block_records records h).bind fun _ _ hafter => leads_pure hafter

theorem union_records (h : Stands registry scanner) :
    union.Gives scanner fun declaration after =>
      after.problems.Perm (scanner.problems ++ registry.newProblems declaration) :=
  (block_records unionRule_records h).bind fun _ _ hafter => leads_of_eq rfl hafter

theorem endpoint_records (kind : EndpointKind) (h : Stands registry scanner) :
    (endpoint kind).Gives scanner fun declaration after =>
      after.problems.Perm (scanner.problems ++ registry.newProblems declaration) := by
  refine gives_asks_bind fun keyword _ => gives_asks_bind fun name rest => ?_
  refine (endpointNode_records (h.read rest) kind name).bind fun node claimed hclaimed => ?_
  refine Leads.bind ((signature_records name node _).and (signature_name name node _ claimed)) ?_
  rintro signature after ⟨hafter, rfl⟩
  refine leads_pure (List.Perm.of_eq ?_)
  rw [hafter, hclaimed, List.append_assoc]
  exact congrArg (scanner.problems ++ ·) (List.append_nil _).symm

/-- A scan of a declaration records the problem with its name, those with the names of its members,
and that with their number. -/
theorem declaration_records (token : Token) (h : Stands registry scanner) :
    (declaration token).Gives scanner fun declaration after =>
      after.problems.Perm (scanner.problems ++ registry.newProblems declaration) := by
  unfold declaration
  split
  · exact typeAlias_records h
  · exact plainBlock_records enumRule_records h
  · exact union_records h
  · exact plainBlock_records structRule_records h
  · exact plainBlock_records resolverRule_records h
  · exact endpoint_records .query h
  · exact endpoint_records .mutation h
  · intro outcome after hresult
    cases hresult
    trivial

end Scan

end GraphSchema
