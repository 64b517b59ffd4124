import GraphSchema.Proofs.Scan.Reading

/-!
# What belongs to nothing is not registered

A rule that goes on without a number registers nothing, numbers nothing and queues no job; all it
does is to ask for tokens and to record problems (`Scan.OnlyReports`).  This holds of everything
that belongs to a declaration whose name is taken (`Scan.braces_onlyReports`,
`Scan.signature_onlyReports`), and of a member or a parameter whose name was claimed before, whether
its declaration was registered or not (`BlockRule.SkipsRepeats`).
-/

namespace GraphSchema

/-- Between two scanners tokens were asked for and problems were recorded, but nothing else changed:
the three tables of types and their number, the graph nodes, the parameters, the names of endpoints
and their numbers, and the jobs. -/
structure Scanner.OnlyReports (before after : Scanner) : Prop where
  types : after.types = before.types
  graph : after.graph = before.graph
  jobs : after.jobs = before.jobs
  problems : before.problems <+: after.problems

theorem Scanner.OnlyReports.refl (scanner : Scanner) : scanner.OnlyReports scanner :=
  ⟨rfl, rfl, rfl, List.prefix_rfl⟩

theorem Scanner.OnlyReports.trans {before middle after : Scanner} (h : before.OnlyReports middle)
    (hafter : middle.OnlyReports after) : before.OnlyReports after :=
  ⟨hafter.types.trans h.types, hafter.graph.trans h.graph, hafter.jobs.trans h.jobs,
    h.problems.trans hafter.problems⟩

/-- The scanner afterwards, by its lexer and the problems that were added. -/
theorem Scanner.OnlyReports.exists_eq {before after : Scanner} (h : before.OnlyReports after) :
    ∃ reports, after =
      { before with lexer := after.lexer, problems := before.problems ++ reports } := by
  obtain ⟨htypes, hgraph, hjobs, reports, hreports⟩ := h
  refine ⟨reports, ?_⟩
  rw [hreports, ← htypes, ← hgraph, ← hjobs]

namespace Scan

variable {σ α β ε μ : Type}

/-- Wherever a scan begins and whatever it comes to, it asks for tokens and records problems, and
registers nothing. -/
def OnlyReports (scan : Scan α) : Prop :=
  ∀ before, scan.Leads before (fun _ => before.OnlyReports) fun _ => before.OnlyReports

theorem OnlyReports.gives {scan : Scan α} (h : scan.OnlyReports) (before : Scanner) :
    scan.Gives before fun _ => before.OnlyReports :=
  (h before).mono (fun _ _ => id) fun _ _ _ => trivial

theorem pure_onlyReports (value : α) : (pure value : Scan α).OnlyReports :=
  fun before => leads_pure (.refl before)

/-- Asking for tokens registers nothing, be they found or not. -/
theorem asks_onlyReports (rule : Rule α) : (asks rule).OnlyReports :=
  fun _ => leads_asks (fun _ _ _ => ⟨rfl, rfl, rfl, List.prefix_rfl⟩)
    fun _ _ _ => ⟨rfl, rfl, rfl, List.prefix_rfl⟩

/-- Recording a problem registers nothing. -/
theorem report_onlyReports (problem : Problem) : (report problem).OnlyReports :=
  fun before => leads_of_eq (report_apply problem before)
    ⟨rfl, rfl, rfl, List.prefix_append _ _⟩

theorem queue_none_onlyReports : (queue none).OnlyReports :=
  fun before => leads_of_eq (queue_apply none before)
    ⟨rfl, rfl, List.append_nil _, List.prefix_rfl⟩

/-- Two scans in a row register nothing if neither does. -/
theorem OnlyReports.bind {scan : Scan α} {next : α → Scan β} (h : scan.OnlyReports)
    (hnext : ∀ value, (next value).OnlyReports) : (scan >>= next).OnlyReports := by
  intro before
  refine Leads.bind (h before) fun value middle hmiddle => ?_
  exact (hnext value middle).mono (fun _ _ => hmiddle.trans) fun _ _ => hmiddle.trans

/-- A loop registers nothing if none of its turns does. -/
theorem loop_onlyReports {turn : σ → Scan (Progress σ α)}
    (turns : ∀ state, (turn state).OnlyReports) (state : σ) : (loop turn state).OnlyReports := by
  intro before
  refine leads_loop (fun _ => before.OnlyReports) (fun current scanner hkept => ?_) (.refl before)
  refine (turns current scanner).mono (fun progress after hafter => ?_) fun _ _ => hkept.trans
  cases progress with
  | more next => exact hkept.trans hafter
  | done value => exact hkept.trans hafter

/-- A name is claimed in a scope that belongs to its declaration, and not in the catalogs. -/
theorem enter_onlyReports {accept : Scan (Option μ)} (h : accept.OnlyReports) (scope : NameScope)
    (name : String) (position : Cursor) (again : Cursor → Problem) :
    (enter scope name position again accept).OnlyReports := by
  rw [enter_apply]
  cases scope.lookup name with
  | none => exact h.bind fun _ => pure_onlyReports _
  | some prior => exact (report_onlyReports _).bind fun _ => pure_onlyReports _

/-! ### Without a number -/

/-- A parameter of no graph node is not registered. -/
theorem parameterTurn_onlyReports (nodeName : String)
    (state : NameScope × List (TypedName × Token)) :
    (parameterTurn none nodeName state).OnlyReports :=
  (asks_onlyReports _).bind fun _ =>
    (enter_onlyReports (pure_onlyReports _) _ _ _ _).bind fun _ =>
      (asks_onlyReports _).bind fun _ => pure_onlyReports _

theorem parameterList_onlyReports (nodeName : String) :
    (parameterList none nodeName).OnlyReports :=
  (asks_onlyReports _).bind fun _ =>
    (loop_onlyReports (parameterTurn_onlyReports nodeName) _).bind fun _ => pure_onlyReports _

theorem typeOf_onlyReports (name : Token) (parameters : Option ParameterListing) :
    (typeOf name none parameters).OnlyReports :=
  (asks_onlyReports _).bind fun _ => queue_none_onlyReports.bind fun _ => pure_onlyReports _

/-- What follows a name that is taken is read, and nothing of it is registered. -/
theorem signature_onlyReports (name : Token) (nodeName : String) :
    (signature name none nodeName).OnlyReports := by
  refine (asks_onlyReports _).bind fun applied => ?_
  cases applied with
  | true => exact (parameterList_onlyReports nodeName).bind fun _ => typeOf_onlyReports name _
  | false => exact typeOf_onlyReports name none

/-- A member is read and its name is claimed, and nothing of it is registered. -/
theorem claimed_onlyReports {accept : ε → Scan (Option μ)} (h : ∀ entry, (accept entry).OnlyReports)
    (read : Rule ε) (name : ε → String) (position : ε → Cursor) (again : ε → Cursor → Problem)
    (members : Members ε μ) : (claimed read name position again accept members).OnlyReports :=
  (asks_onlyReports _).bind fun entry => (enter_onlyReports (h entry) _ _ _ _).bind fun _ =>
    pure_onlyReports _

/-- Members that belong to no registered type are read, and nothing of them is registered. -/
def BlockRule.SkipsUndeclared (rule : BlockRule ε μ) : Prop :=
  ∀ owner members, (rule.member owner none members).OnlyReports

theorem enumRule_skipsUndeclared : enumRule.SkipsUndeclared :=
  fun _ => claimed_onlyReports (fun _ => pure_onlyReports _) _ _ _ _

theorem unionRule_skipsUndeclared : unionRule.SkipsUndeclared :=
  fun _ => claimed_onlyReports (fun _ => pure_onlyReports _) _ _ _ _

/-- A field of no registered struct is not a graph node, and queues no job for its type. -/
theorem structRule_skipsUndeclared : structRule.SkipsUndeclared := by
  refine fun _ => claimed_onlyReports (fun _ => ?_) _ _ _ _
  -- without a graph node there is no job
  simp only [memberNode, pure_bind]
  exact queue_none_onlyReports.bind fun _ => pure_onlyReports _

theorem resolverRule_skipsUndeclared : resolverRule.SkipsUndeclared := by
  refine fun owner members => (asks_onlyReports _).bind fun name => ?_
  rw [enter_apply]
  cases members.scope.lookup name.text with
  | none =>
    simp only [memberNode, pure_bind]
    exact (signature_onlyReports name _).bind fun _ => pure_onlyReports _
  | some prior =>
    simp only [bind_assoc, pure_bind]
    exact (report_onlyReports _).bind fun _ => (signature_onlyReports name _).bind fun _ =>
      pure_onlyReports _

theorem memberTurn_onlyReports {member : Members ε μ → Scan (Members ε μ)}
    (h : ∀ members, (member members).OnlyReports) (members : Members ε μ) :
    (memberTurn member members).OnlyReports := by
  refine (asks_onlyReports _).bind fun closed => ?_
  cases closed with
  | true => exact pure_onlyReports _
  | false => exact (h members).bind fun _ => pure_onlyReports _

theorem checkSize_onlyReports (rule : BlockRule ε μ) (name : Token) (count : Nat) :
    (checkSize rule name count).OnlyReports := by
  unfold checkSize
  split
  · exact report_onlyReports _
  · exact pure_onlyReports _

/-- The members of a declaration whose name is taken are read, and nothing of them is registered. -/
theorem braces_onlyReports {rule : BlockRule ε μ} (h : rule.SkipsUndeclared) (name : Token) :
    (braces rule name none).OnlyReports :=
  (asks_onlyReports _).bind fun _ =>
    (loop_onlyReports (memberTurn_onlyReports (h name)) _).bind fun _ =>
      (asks_onlyReports _).bind fun _ => (checkSize_onlyReports rule name _).bind fun _ =>
        (pure_onlyReports ()).bind fun _ => pure_onlyReports _

/-! ### Repeated names -/

theorem asks_of_ok {rule : Rule α} {scanner : Scanner} {value : α} {rest : Lexer}
    (h : rule scanner.lexer = some (.ok value, rest)) :
    asks rule scanner = some (.ok value, { scanner with lexer := rest }) := by
  rw [asks, h]
  rfl

theorem bind_of_ok {scan : Scan α} {scanner after : Scanner} {value : α}
    (h : scan scanner = some (.ok value, after)) (next : α → Scan β) :
    (scan >>= next) scanner = next value after := by
  rw [bind_apply, h]

/-- A name that was claimed before is reported, and what it would stand for is not accepted. -/
theorem enter_of_claimed {scope : NameScope} {name : String} {prior : Cursor}
    (claimed : scope.lookup name = some prior) (position : Cursor) (again : Cursor → Problem)
    (accept : Scan (Option μ)) (scanner : Scanner) :
    enter scope name position again accept scanner = some (.ok (scope, none),
      { scanner with problems := scanner.problems ++ [again prior] }) := by
  rw [enter_apply, claimed]
  rfl

/-- A member whose name was claimed before is read and reported, but nothing is registered for it,
nor is it admitted, whether its declaration was registered or not. -/
def BlockRule.SkipsRepeats (rule : BlockRule ε μ) (read : Rule ε) (name : ε → String) : Prop :=
  ∀ (owner : Token) (declared : Option TypeId) (members : Members ε μ) (scanner : Scanner)
    (entry : ε) (rest : Lexer), read scanner.lexer = some (.ok entry, rest) →
    (members.scope.lookup (name entry)).isSome → ∃ report more,
      rule.member owner declared members scanner =
        some (.ok { members with entries := members.entries ++ [entry] },
          { scanner with lexer := rest, problems := scanner.problems ++ report :: more })

/-- A member with a name that was claimed leaves one report, and the same members admitted as
before. -/
theorem claimed_of_claimed {read : Rule ε} {name : ε → String} {members : Members ε μ}
    {scanner : Scanner} {entry : ε} {rest : Lexer} {prior : Cursor}
    (reads : read scanner.lexer = some (.ok entry, rest))
    (taken : members.scope.lookup (name entry) = some prior) (position : ε → Cursor)
    (again : ε → Cursor → Problem) (accept : ε → Scan (Option μ)) :
    claimed read name position again accept members scanner =
      some (.ok { members with entries := members.entries ++ [entry] },
        { scanner with lexer := rest, problems := scanner.problems ++ [again entry prior] }) := by
  rw [claimed, bind_of_ok (asks_of_ok reads),
    bind_of_ok (enter_of_claimed taken _ _ _ _)]
  show some (Except.ok (members.add entry members.scope none), _) = _
  rw [Members.add, Option.toList_none, List.append_nil]

theorem enumRule_skipsRepeats : enumRule.SkipsRepeats Rule.lowerName Token.text := by
  intro owner declared members scanner value rest reads taken
  obtain ⟨prior, hprior⟩ := Option.isSome_iff_exists.mp taken
  exact ⟨_, [], claimed_of_claimed reads hprior _ _ _⟩

theorem unionRule_skipsRepeats :
    unionRule.SkipsRepeats Rule.designation (·.designation.canonical) := by
  intro owner declared members scanner option rest reads taken
  obtain ⟨prior, hprior⟩ := Option.isSome_iff_exists.mp taken
  exact ⟨_, [], claimed_of_claimed reads hprior _ _ _⟩

theorem structRule_skipsRepeats : structRule.SkipsRepeats Rule.typed (·.name.text) := by
  intro owner declared members scanner field rest reads taken
  obtain ⟨prior, hprior⟩ := Option.isSome_iff_exists.mp taken
  exact ⟨_, [], claimed_of_claimed reads hprior _ _ _⟩

/-- A property that is repeated is read with all its parameters, and none of them is registered. -/
theorem resolverRule_skipsRepeats :
    resolverRule.SkipsRepeats Rule.signature (·.name.text) := by
  intro owner declared members scanner property rest reads taken
  obtain ⟨prior, hprior⟩ := Option.isSome_iff_exists.mp taken
  obtain ⟨name, middle, hname, hafter⟩ := Rule.exists_of_bind reads
  obtain rfl := Rule.signatureAfter_name hafter
  -- what follows the name is read without a number
  obtain ⟨found, after, hscan, hfound, hrest⟩ :=
    (signature_reads property.name none (owner.text ++ "." ++ property.name.text)).exists_of_ok
      { scanner with
        lexer := middle
        problems := scanner.problems ++
          [.propertyRedeclared owner.text property.name.text property.name.start prior] } hafter
  rw [show found = property from hfound] at hscan
  obtain ⟨reports, hreports⟩ :=
    (signature_onlyReports property.name _ _ _ _ hscan).exists_eq
  refine ⟨.propertyRedeclared owner.text property.name.text property.name.start prior, reports, ?_⟩
  show resolverProperty owner declared members scanner = _
  rw [resolverProperty, bind_of_ok (asks_of_ok hname),
    bind_of_ok (enter_of_claimed hprior _ _ _ _)]
  dsimp only
  rw [bind_of_ok hscan, hreports, hrest]
  show some (Except.ok (members.add property members.scope none), _) = _
  simp [Members.add]

/-- A parameter that is repeated is read and reported, and not registered, whether its graph node
was registered or not. -/
theorem parameterTurn_of_claimed {target : Option NodeId} {nodeName : String}
    {state : NameScope × List (TypedName × Token)} {scanner : Scanner} {parameter : TypedName}
    {progress : Progress (List (TypedName × Token)) (List (TypedName × Token))}
    {middle rest : Lexer} {prior : Cursor}
    (reads : Rule.typed scanner.lexer = some (.ok parameter, middle))
    (follows : Rule.take .separator (Rule.separated state.2 parameter) middle =
      some (.ok progress, rest))
    (taken : state.1.lookup parameter.name.text = some prior) :
    parameterTurn target nodeName state scanner =
      some (.ok (progress.map (fun entries => (state.1, entries)) id),
        { scanner with
          lexer := rest
          problems := scanner.problems ++
            [.parameterRedeclared nodeName parameter.name.text parameter.name.start prior] }) := by
  rw [parameterTurn, bind_of_ok (asks_of_ok reads), bind_of_ok (enter_of_claimed taken _ _ _ _)]
  dsimp only
  rw [bind_of_ok (asks_of_ok follows)]
  rfl

end Scan

end GraphSchema
