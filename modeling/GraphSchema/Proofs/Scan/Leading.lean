import GraphSchema.Proofs.Scan.Rules

/-!
# What a scan leads to

`Scan.Leads` says of a scan that begins at a scanner what holds of its value, or of its problem, and
of the scanner after it.  It is composed like the scan is (`Scan.Leads.bind`), and of a loop it is
shown by an invariant (`Scan.leads_loop`).
-/

namespace GraphSchema

namespace Scan

variable {σ α β μ : Type}

/-- Two scans in a row: the second begins at the scanner that the first has left. -/
theorem bind_apply (scan : Scan α) (next : α → Scan β) (scanner : Scanner) :
    (scan >>= next) scanner = match scan scanner with
      | none => none
      | some (.error problem, after) => some (.error problem, after)
      | some (.ok value, after) => next value after := by
  rw [show (scan >>= next) scanner = (scan scanner >>= fun result => _) from rfl]
  rcases scan scanner with _ | ⟨_ | _, _⟩ <;> rfl

/-- A loop makes one turn, and then stops or goes on from the scanner after it. -/
theorem loop_apply (turn : σ → Scan (Progress σ α)) (state : σ) (scanner : Scanner) :
    loop turn state scanner = match turn state scanner with
      | none => none
      | some (.error problem, after) => some (.error problem, after)
      | some (.ok (.more next), after) => loop turn next after
      | some (.ok (.done value), after) => some (.ok value, after) := by
  rw [loop, repeated_eq, turnAt]
  rcases turn state scanner with _ | ⟨_ | _ | _, _⟩ <;> rfl

/-! ### Composition -/

/-- What a scan that comes to an end gives, and the scanner after it, is as described. -/
def Leads (scan : Scan α) (before : Scanner) (done : α → Scanner → Prop)
    (failed : Problem → Scanner → Prop) : Prop :=
  ∀ outcome after, scan before = some (outcome, after) →
    match outcome with
    | .ok value => done value after
    | .error problem => failed problem after

section

variable {scan : Scan α} {before : Scanner} {done : α → Scanner → Prop}
  {failed : Problem → Scanner → Prop}

theorem leads_of_eq {value : α} {after : Scanner} (h : scan before = some (.ok value, after))
    (hdone : done value after) : scan.Leads before done failed := by
  intro outcome last hlast
  cases h.symm.trans hlast
  exact hdone

/-- A value that is at hand leaves the scanner as it is. -/
theorem leads_pure {value : α} (h : done value before) :
    (pure value : Scan α).Leads before done failed :=
  leads_of_eq rfl h

/-- What a scan leads to may be said less precisely. -/
theorem Leads.mono {others : α → Scanner → Prop} {otherwise : Problem → Scanner → Prop}
    (h : scan.Leads before done failed)
    (hdone : ∀ value after, done value after → others value after)
    (hfailed : ∀ problem after, failed problem after → otherwise problem after) :
    scan.Leads before others otherwise := by
  intro outcome after hresult
  have hleads := h outcome after hresult
  cases outcome with
  | ok value => exact hdone value after hleads
  | error problem => exact hfailed problem after hleads

/-- Two descriptions of what a scan gives hold together. -/
theorem Leads.and {others : α → Scanner → Prop} (h : scan.Leads before done failed)
    (hothers : scan.Leads before others fun _ _ => True) :
    scan.Leads before (fun value after => done value after ∧ others value after) failed := by
  intro outcome after hresult
  have hleads := h outcome after hresult
  cases outcome with
  | ok value => exact ⟨hleads, hothers _ _ hresult⟩
  | error problem => exact hleads

/-- What one scan leads to is where the next one begins. -/
theorem Leads.bind {middle : α → Scanner → Prop} {next : α → Scan β} {last : β → Scanner → Prop}
    (h : scan.Leads before middle failed)
    (hnext : ∀ value after, middle value after → (next value).Leads after last failed) :
    (scan >>= next).Leads before last failed := by
  intro outcome after hresult
  rw [bind_apply] at hresult
  match hscan : scan before with
  | none => rw [hscan] at hresult; cases hresult
  | some (.error problem, between) =>
    rw [hscan] at hresult
    cases hresult
    exact h _ _ hscan
  | some (.ok value, between) =>
    rw [hscan] at hresult
    exact hnext value between (h _ _ hscan) outcome after hresult

/-- What follows a step begins where the step ended. -/
theorem leads_bind_of_eq {next : α → Scan β} {last : β → Scanner → Prop} {value : α}
    {after : Scanner} (h : scan before = some (.ok value, after))
    (hnext : (next value).Leads after last failed) : (scan >>= next).Leads before last failed := by
  intro outcome final hresult
  rw [bind_apply, h] at hresult
  exact hnext outcome final hresult

/-- One thing holds after a turn that goes on, another after one that ends its loop. -/
def Turned (going : σ → Scanner → Prop) (done : α → Scanner → Prop) :
    Progress σ α → Scanner → Prop
  | .more next => going next
  | .done value => done value

/-- A loop leads to what its turns lead to, if they keep an invariant. -/
theorem leads_loop {turn : σ → Scan (Progress σ α)} (Invariant : σ → Scanner → Prop)
    (turns : ∀ state scanner, Invariant state scanner →
      (turn state).Leads scanner (Turned Invariant done) failed)
    {state : σ} (begins : Invariant state before) : (loop turn state).Leads before done failed := by
  intro outcome after hresult
  refine repeated_induction (motive := fun current => Invariant current.1 current.2 →
    match outcome with
    | .ok value => done value after
    | .error problem => failed problem after) ?_ hresult begins
  rintro ⟨current, scanner⟩ hloop ih hinvariant
  have hcurrent : loop turn current scanner = some (outcome, after) := hloop
  rw [loop_apply] at hcurrent
  match hturn : turn current scanner with
  | none => rw [hturn] at hcurrent; cases hcurrent
  | some (.error problem, between) =>
    rw [hturn] at hcurrent
    cases hcurrent
    exact turns current scanner hinvariant _ _ hturn
  | some (.ok (.done value), between) =>
    rw [hturn] at hcurrent
    cases hcurrent
    exact turns current scanner hinvariant _ _ hturn
  | some (.ok (.more next), between) =>
    exact ih (next, between) (by rw [turnAt, hturn]; rfl)
      (turns current scanner hinvariant _ _ hturn)

end

/-! ### Single steps -/

section

variable {before : Scanner} {failed : Problem → Scanner → Prop}

/-- Asking for tokens changes the lexer alone. -/
theorem leads_asks {rule : Rule α} {done : α → Scanner → Prop}
    (hdone : ∀ value rest, rule before.lexer = some (.ok value, rest) →
      done value { before with lexer := rest })
    (hfailed : ∀ problem rest, rule before.lexer = some (.error problem, rest) →
      failed problem { before with lexer := rest }) :
    (asks rule).Leads before done failed := by
  intro outcome after hresult
  obtain ⟨⟨found, rest⟩, hrule, hsame⟩ := Option.map_eq_some_iff.mp hresult
  cases hsame
  cases outcome with
  | ok value => exact hdone value rest hrule
  | error problem => exact hfailed problem rest hrule

/-- What follows a rule is scanned from where the rule ended. -/
theorem leads_asks_bind {rule : Rule α} {next : α → Scan β} {last : β → Scanner → Prop}
    (hnext : ∀ value rest, rule before.lexer = some (.ok value, rest) →
      (next value).Leads { before with lexer := rest } last failed)
    (hfailed : ∀ problem rest, rule before.lexer = some (.error problem, rest) →
      failed problem { before with lexer := rest }) :
    (asks rule >>= next).Leads before last failed := by
  intro outcome after hresult
  rw [bind_apply, asks] at hresult
  match hrule : rule before.lexer with
  | none => rw [hrule] at hresult; cases hresult
  | some (.error problem, rest) =>
    rw [hrule] at hresult
    cases hresult
    exact hfailed problem rest hrule
  | some (.ok value, rest) =>
    rw [hrule] at hresult
    exact hnext value rest hrule outcome after hresult

theorem get_apply (scanner : Scanner) :
    (get : Scan Scanner) scanner = some (.ok scanner, scanner) :=
  rfl

theorem report_apply (problem : Problem) (scanner : Scanner) :
    report problem scanner =
      some (.ok (), { scanner with problems := scanner.problems ++ [problem] }) :=
  rfl

theorem queue_apply (job? : Option QueuedJob) (scanner : Scanner) :
    queue job? scanner = some (.ok (), { scanner with jobs := scanner.jobs ++ job?.toList }) :=
  rfl

theorem declare_apply (name : Token) (body : TypeBody) (scanner : Scanner) :
    declare name body scanner = match scanner.types.declare name body with
      | .ok (types, id) => some (.ok (some id), { scanner with types })
      | .error problem =>
        some (.ok none, { scanner with problems := scanner.problems ++ [problem] }) := by
  rw [declare, bind_apply, get_apply]
  dsimp only
  cases scanner.types.declare name body <;> rfl

theorem enter_apply (scope : NameScope) (name : String) (position : Cursor)
    (again : Cursor → Problem) (accept : Scan (Option μ)) :
    enter scope name position again accept = match scope.lookup name with
      | none => do return (scope ++ [(name, position)], ← accept)
      | some prior => do
        report (again prior)
        return (scope, none) := by
  rw [enter, NameScope.claim]
  cases scope.lookup name <;> rfl

theorem endpointNode_apply (kind : EndpointKind) (name : Token) (scanner : Scanner) :
    endpointNode kind name scanner = match scanner.graph.claimRootName name with
      | .ok graph => some (.ok (some (graph.addNode kind.nodeKind "" name).2),
        { scanner with graph := (graph.addNode kind.nodeKind "" name).1 })
      | .error problem =>
        some (.ok none, { scanner with problems := scanner.problems ++ [problem] }) := by
  rw [endpointNode, bind_apply, get_apply]
  dsimp only
  cases scanner.graph.claimRootName name <;> rfl

end

/-! ### Values -/

/-- The value of a scan that does not give a problem, and the scanner after it, are as described. -/
abbrev Gives (scan : Scan α) (before : Scanner) (done : α → Scanner → Prop) : Prop :=
  scan.Leads before done fun _ _ => True

/-- What follows a rule is scanned from wherever the rule ended. -/
theorem gives_asks_bind {rule : Rule α} {next : α → Scan β} {before : Scanner}
    {last : β → Scanner → Prop}
    (hnext : ∀ value rest, (next value).Gives { before with lexer := rest } last) :
    (asks rule >>= next).Gives before last :=
  leads_asks_bind (fun value rest _ => hnext value rest) fun _ _ _ => trivial

end Scan

end GraphSchema
