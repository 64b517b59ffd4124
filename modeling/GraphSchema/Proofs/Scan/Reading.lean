import GraphSchema.Proofs.Descent.Ending
import GraphSchema.Proofs.Scan.Leading

/-!
# A scan reads what the descent reads

What has been registered makes no difference for what is read: a scan takes the tokens that its rule
takes, and gives the value or the problem that its rule gives, whatever the catalogs hold
(`Scan.Reads`).  So a scan comes to an end like the descent does (`Scan.document_reads`).
-/

namespace GraphSchema

/-- What is left of a property or an endpoint after its name. -/
noncomputable def Rule.signatureAfter (name : Token) : Rule Signature := do
  if ← peekIs .parenOpen then
    return ⟨name, some (← parameterList), ← designation⟩
  else
    return ⟨name, none, ← designation⟩

theorem Rule.signature_eq : signature = lowerName >>= signatureAfter :=
  rfl

/-- A property or an endpoint has the name that it began with. -/
theorem Rule.signatureAfter_name {name : Token} {lexer rest : Lexer} {signature : Signature}
    (h : signatureAfter name lexer = some (.ok signature, rest)) : signature.name = name := by
  obtain ⟨applied, middle, -, hafter⟩ := exists_of_bind h
  cases applied with
  | true =>
    obtain ⟨parameters, between, -, hbetween⟩ := exists_of_bind hafter
    obtain ⟨type, last, -, hlast⟩ := exists_of_bind hbetween
    cases hlast
    rfl
  | false =>
    obtain ⟨type, last, -, hlast⟩ := exists_of_bind hafter
    cases hlast
    rfl

namespace Scan

variable {σ τ α β γ δ ε μ : Type}

/-- A scan asks for tokens as a rule does, and gives what the rule gives, in another view. -/
def Reads (scan : Scan α) (rule : Rule β) (view : α → β) : Prop :=
  ∀ scanner, (scan scanner).map (fun (outcome, after) => (outcome.map view, after.lexer)) =
    rule scanner.lexer

/-- A scan asks for nothing. -/
def Silent (scan : Scan α) : Prop :=
  scan.Reads (pure ()) fun _ => ()

/-- Asking by a rule reads what the rule reads. -/
theorem asks_reads (rule : Rule α) : (asks rule).Reads rule id := by
  intro scanner
  rw [asks]
  rcases rule scanner.lexer with _ | ⟨_ | _, _⟩ <;> rfl

/-- What a rule gives may be given in another form. -/
theorem asks_reads_as {rule : Rule α} {form : α → β} {view : β → α}
    (h : ∀ value, view (form value) = value) :
    Reads (do return form (← asks rule)) rule view := by
  intro scanner
  rw [bind_apply, asks]
  rcases rule scanner.lexer with _ | ⟨_ | value, rest⟩
  · rfl
  · rfl
  · show some (Except.ok (view (form value)), rest) = some (.ok value, rest)
    rw [h]

theorem pure_reads {value : α} {other : β} {view : α → β} (h : view value = other) :
    (pure value : Scan α).Reads (pure other) view := by
  subst h
  exact fun _ => rfl

theorem throw_reads (problem : Problem) (view : α → β) :
    (throw problem : Scan α).Reads (throw problem) view :=
  fun _ => rfl

/-- Two scans in a row read what two rules in a row do. -/
theorem Reads.bind {scan : Scan α} {rule : Rule β} {view : α → β} {next : α → Scan γ}
    {others : β → Rule δ} {last : γ → δ} (h : scan.Reads rule view)
    (hnext : ∀ value, (next value).Reads (others (view value)) last) :
    (scan >>= next).Reads (rule >>= others) last := by
  intro scanner
  rw [bind_apply, Rule.bind_apply, ← h scanner]
  rcases scan scanner with _ | ⟨_ | value, after⟩
  · rfl
  · rfl
  · exact hnext value after

/-- Where the rule gives a value, so does the scan. -/
theorem Reads.exists_of_ok {scan : Scan α} {rule : Rule β} {view : α → β}
    (h : scan.Reads rule view) (scanner : Scanner) {value : β} {rest : Lexer}
    (hrule : rule scanner.lexer = some (.ok value, rest)) : ∃ result after,
      scan scanner = some (.ok result, after) ∧ view result = value ∧ after.lexer = rest := by
  rw [← h scanner] at hrule
  obtain ⟨⟨_ | result, after⟩, hscan, hsame⟩ := Option.map_eq_some_iff.mp hrule
  · cases hsame
  · cases hsame
    exact ⟨result, after, hscan, rfl, rfl⟩

/-- Where the scan gives a value, so does the rule. -/
theorem Reads.of_ok {scan : Scan α} {rule : Rule β} {view : α → β} (h : scan.Reads rule view)
    {scanner after : Scanner} {value : α} (hscan : scan scanner = some (.ok value, after)) :
    rule scanner.lexer = some (.ok (view value), after.lexer) := by
  rw [← h scanner, hscan]
  rfl

/-- What asks for nothing may come before. -/
theorem Silent.bind {scan : Scan α} {next : α → Scan β} {rule : Rule γ} {view : β → γ}
    (h : scan.Silent) (hnext : ∀ value, (next value).Reads rule view) :
    (scan >>= next).Reads rule view := by
  show Reads (scan >>= next) (pure () >>= fun _ => rule) view
  exact Reads.bind h hnext

/-- A loop reads what another loop reads if its turns do. -/
theorem loop_reads {turn : σ → Scan (Progress σ α)} {other : τ → Rule (Progress τ β)}
    {view : σ → τ} {result : α → β}
    (turns : ∀ state, (turn state).Reads (other (view state)) (Progress.map view result))
    (state : σ) : (loop turn state).Reads (Rule.loop other (view state)) result := by
  intro scanner
  refine (repeated_map (fun current => (view current.1, current.2.lexer)) ?_
    (state, scanner)).symm
  rintro ⟨current, now⟩
  rw [Rule.turnAt, turnAt, ← turns current now]
  rcases turn current now with _ | ⟨_ | _ | _, _⟩ <;> rfl

/-! ### Registering asks for nothing -/

theorem report_silent (problem : Problem) : (report problem).Silent :=
  fun _ => rfl

theorem queue_silent (job? : Option QueuedJob) : (queue job?).Silent :=
  fun _ => rfl

/-- A type is declared by a name that was read before. -/
theorem declare_silent (name : Token) (body : TypeBody) : (declare name body).Silent := by
  intro scanner
  rw [declare_apply]
  rcases scanner.types.declare name body with _ | ⟨_, _⟩ <;> rfl

theorem complete_silent (declared : Option TypeId) (body : TypeBody) :
    (complete declared body).Silent := by
  cases declared <;> exact fun _ => rfl

theorem checkSize_silent (rule : BlockRule ε μ) (name : Token) (count : Nat) :
    (checkSize rule name count).Silent := by
  unfold checkSize
  split
  · exact report_silent _
  · exact pure_reads rfl

theorem parameterOf_silent (target : Option NodeId) (parameter : TypedName) :
    (parameterOf target parameter).Silent := by
  cases target <;> exact fun _ => rfl

theorem memberNode_silent (kind : TypeId → NodeKind) (owner : Token) (declared : Option TypeId)
    (name : Token) : (memberNode kind owner declared name).Silent := by
  cases declared <;> exact fun _ => rfl

theorem endpointNode_silent (kind : EndpointKind) (name : Token) :
    (endpointNode kind name).Silent := by
  intro scanner
  rw [endpointNode_apply]
  rcases scanner.graph.claimRootName name with _ | _ <;> rfl

/-- A name is claimed without a token more, whether it is the first of its kind or not. -/
theorem enter_silent {scope : NameScope} {name : String} {position : Cursor}
    {again : Cursor → Problem} {accept : Scan (Option μ)} (h : accept.Silent) :
    (enter scope name position again accept).Silent := by
  rw [enter_apply]
  cases scope.lookup name with
  | none => exact h.bind fun _ => pure_reads rfl
  | some prior => exact (report_silent _).bind fun _ => pure_reads rfl

/-! ### The rules -/

/-- A parameter is read alike for a graph node and for none. -/
theorem parameterTurn_reads (target : Option NodeId) (nodeName : String)
    (state : NameScope × List (TypedName × Token)) :
    (parameterTurn target nodeName state).Reads (Rule.parameterTurn state.2)
      (Progress.map Prod.snd id) := by
  refine (asks_reads Rule.typed).bind fun parameter => ?_
  refine (enter_silent (parameterOf_silent target parameter)).bind fun ⟨scope, _⟩ => ?_
  exact asks_reads_as fun progress => by cases progress <;> rfl

theorem parameterList_reads (target : Option NodeId) (nodeName : String) :
    (parameterList target nodeName).Reads Rule.parameterList id :=
  (asks_reads _).bind fun _ =>
    (loop_reads (parameterTurn_reads target nodeName) ([], [])).bind fun _ => pure_reads rfl

theorem typeOf_reads (name : Token) (node : Option NodeId) (parameters : Option ParameterListing) :
    (typeOf name node parameters).Reads (do return ⟨name, parameters, ← Rule.designation⟩) id :=
  (asks_reads _).bind fun _ => (queue_silent _).bind fun _ => pure_reads rfl

/-- What follows a name is read alike for a graph node and for none. -/
theorem signature_reads (name : Token) (node : Option NodeId) (nodeName : String) :
    (signature name node nodeName).Reads (Rule.signatureAfter name) id := by
  refine (asks_reads _).bind fun applied => ?_
  cases applied with
  | true => exact (parameterList_reads node nodeName).bind fun _ => typeOf_reads name node _
  | false => exact typeOf_reads name node none

/-- A rule for members reads members of its kind of declaration. -/
def BlockRule.ReadsMembers (rule : BlockRule ε μ) : Prop :=
  rule.written [] = Rule.emptyBody rule.kind ∧
  ∀ owner declared members, (rule.member owner declared members).Reads
    (Rule.member (rule.written members.entries)) fun after => rule.written after.entries

/-- A member is read alike whether its name is claimed or was before. -/
theorem claimed_reads {read : Rule ε} {name : ε → String} {position : ε → Cursor}
    {again : ε → Cursor → Problem} {accept : ε → Scan (Option μ)} {members : Members ε μ}
    (written : List ε → Body) (h : ∀ entry, (accept entry).Silent) :
    (claimed read name position again accept members).Reads
      (do return written (members.entries ++ [← read])) fun after => written after.entries :=
  (asks_reads _).bind fun entry => (enter_silent (h entry)).bind fun _ => pure_reads rfl

theorem enumRule_reads : enumRule.ReadsMembers :=
  ⟨rfl, fun _ _ _ => claimed_reads Body.enum fun _ => pure_reads rfl⟩

theorem unionRule_reads : unionRule.ReadsMembers :=
  ⟨rfl, fun _ _ _ => claimed_reads Body.union fun _ => pure_reads rfl⟩

theorem structRule_reads : structRule.ReadsMembers :=
  ⟨rfl, fun owner declared _ => claimed_reads Body.struct fun _ =>
    (memberNode_silent _ owner declared _).bind fun _ => (queue_silent _).bind fun _ =>
      pure_reads rfl⟩

/-- A property claims its name between its name and its parameters, where the rule reads on. -/
theorem resolverRule_reads : resolverRule.ReadsMembers := by
  refine ⟨rfl, fun owner declared members => ?_⟩
  show Reads (resolverProperty owner declared members)
    (Rule.signature >>= fun property => pure (Body.resolver (members.entries ++ [property]))) _
  rw [Rule.signature_eq, bind_assoc]
  exact (asks_reads _).bind fun name => (enter_silent (memberNode_silent _ owner declared _)).bind
    fun _ => (signature_reads name _ _).bind fun _ => pure_reads rfl

theorem memberTurn_reads {member : Members ε μ → Scan (Members ε μ)} {written : List ε → Body}
    (h : ∀ members, (member members).Reads (Rule.member (written members.entries))
      fun after => written after.entries) (members : Members ε μ) :
    (memberTurn member members).Reads (Rule.memberTurn (written members.entries))
      (Progress.map (fun after => written after.entries) fun after => written after.entries) := by
  refine (asks_reads _).bind fun closed => ?_
  cases closed with
  | true => exact pure_reads rfl
  | false => exact (h members).bind fun _ => pure_reads rfl

/-- A declaration in braces is read alike whether its name is taken or not. -/
theorem block_reads {rule : BlockRule ε μ} (h : rule.ReadsMembers) :
    (block rule).Reads (Rule.block rule.kind) Prod.snd := by
  refine (asks_reads _).bind fun keyword => (asks_reads _).bind fun name =>
    (declare_silent _ _).bind fun declared => ?_
  have hloop := loop_reads (memberTurn_reads (h.2 name declared)) Members.none
  rw [braces, ← h.1]
  simp only [bind_assoc, pure_bind]
  exact (asks_reads _).bind fun opening => hloop.bind fun members => (asks_reads _).bind
    fun closing => (checkSize_silent rule name _).bind fun _ =>
      (complete_silent declared _).bind fun _ => pure_reads rfl

theorem typeAlias_reads : typeAlias.Reads Rule.typeAlias id :=
  (asks_reads _).bind fun _ => (asks_reads _).bind fun _ => (asks_reads _).bind fun _ =>
    (asks_reads _).bind fun _ => (declare_silent _ _).bind fun _ => (queue_silent _).bind fun _ =>
      pure_reads rfl

theorem plainBlock_reads {rule : BlockRule ε μ} (h : rule.ReadsMembers) :
    (plainBlock rule).Reads (Rule.block rule.kind) id := by
  rw [plainBlock, ← bind_pure (Rule.block rule.kind)]
  exact (block_reads h).bind fun _ => pure_reads rfl

theorem union_reads : union.Reads (Rule.block .union) id := by
  rw [union, ← bind_pure (Rule.block .union)]
  exact (block_reads unionRule_reads).bind fun _ => (queue_silent _).bind fun _ => pure_reads rfl

/-- An endpoint is read alike whether its name is taken or not. -/
theorem endpoint_reads (kind : EndpointKind) : (endpoint kind).Reads (Rule.endpoint kind) id := by
  show Reads (endpoint kind) (Rule.expect (.keyword kind.keyword) >>= fun keyword =>
    Rule.signature >>= fun signature => pure (.endpoint kind keyword signature)) id
  rw [Rule.signature_eq]
  simp only [bind_assoc]
  exact (asks_reads _).bind fun _ => (asks_reads _).bind fun name =>
    (endpointNode_silent kind name).bind fun node => (signature_reads name node _).bind fun _ =>
      pure_reads rfl

/-- A declaration is chosen by its first token, as in the descent. -/
theorem declaration_reads (token : Token) :
    (declaration token).Reads (Rule.declaration token) id := by
  unfold declaration
  split
  case h_1 hkind =>
    rw [Rule.declaration, hkind]
    exact typeAlias_reads
  case h_2 hkind =>
    rw [Rule.declaration, hkind]
    exact plainBlock_reads enumRule_reads
  case h_3 hkind =>
    rw [Rule.declaration, hkind]
    exact union_reads
  case h_4 hkind =>
    rw [Rule.declaration, hkind]
    exact plainBlock_reads structRule_reads
  case h_5 hkind =>
    rw [Rule.declaration, hkind]
    exact plainBlock_reads resolverRule_reads
  case h_6 hkind =>
    rw [Rule.declaration, hkind]
    exact endpoint_reads .query
  case h_7 hkind =>
    rw [Rule.declaration, hkind]
    exact endpoint_reads .mutation
  case h_8 =>
    -- no declaration begins with such a token, for the descent neither
    have hrefused : Rule.declaration token = throw (Expectation.declaration.refusal token) := by
      unfold Rule.declaration
      split <;> simp_all
    rw [hrefused]
    exact throw_reads _ _

theorem documentTurn_reads (declarations : List Declaration) :
    (documentTurn declarations).Reads (Rule.documentTurn declarations) (Progress.map id id) := by
  refine (asks_reads _).bind fun next? => ?_
  cases next? with
  | none => exact pure_reads rfl
  | some token => exact (declaration_reads token).bind fun _ => pure_reads rfl

/-- A scan of a whole document reads what the descent reads. -/
theorem document_reads : document.Reads Rule.document id :=
  (asks_reads _).bind fun _ => (loop_reads documentTurn_reads []).bind fun _ => pure_reads rfl

end Scan

end GraphSchema
