import GraphSchema.Proofs.Descent.Agreement

/-!
# Rules at their places

Every rule of the descent agrees with the reader, whatever is open around the part that it reads
(`Hosts`).  A designation that follows a lookahead stands where some tokens mean something else
(`HostsDesignation`), and these the lookahead has ruled out.
-/

namespace GraphSchema

section

variable {σ τ α β : Type}

theorem Option.map_progress_congr {f g : Progress σ α → β} {result? : Option (Progress σ α)}
    (more : ∀ state, f (.more state) = g (.more state))
    (done : ∀ value, f (.done value) = g (.done value)) : result?.map f = result?.map g := by
  rcases result? with _ | state | value
  · rfl
  · exact congrArg some (more state)
  · exact congrArg some (done value)

/-- Readings in which an automaton runs: a step of the automaton is a step of the reading, and what
may come next in one may come next in the other. -/
structure Hosts (step : σ → Token → Option (Progress σ α)) (expectation : σ → Expectation)
    (wrap : σ → Reading) (finish : α → Token → Reading) : Prop where
  step : ∀ state token, (wrap state).step token = (step state token).map fun
    | .more next => wrap next
    | .done value => finish value token
  expects : ∀ state, (wrap state).expectation = expectation state
  unfinished : ∀ state, (wrap state).document? = none

/-- An automaton inside another one runs where the other one does. -/
theorem Hosts.inside {step : σ → Token → Option (Progress σ α)} {expectation : σ → Expectation}
    {wrap : σ → Reading} {finish : α → Token → Reading} (h : Hosts step expectation wrap finish)
    {inner : τ → Token → Option (Progress τ β)} {innerExpectation : τ → Expectation}
    (embed : τ → σ) (result : β → Token → Progress σ α)
    (steps : ∀ state token, step (embed state) token = (inner state token).map fun
      | .more next => .more (embed next)
      | .done value => result value token)
    (expects : ∀ state, expectation (embed state) = innerExpectation state) :
    Hosts inner innerExpectation (fun state => wrap (embed state)) fun value token =>
      match result value token with
      | .more next => wrap next
      | .done last => finish last token where
  step := by
    intro state token
    rw [h.step, steps, Option.map_map]
    exact Option.map_progress_congr (fun _ => rfl) fun _ => rfl
  expects := fun state => (h.expects (embed state)).trans (expects state)
  unfinished := fun state => h.unfinished (embed state)

end

/-- The declaration after complete ones. -/
theorem hosts_declaration (header : Header) (declarations : List Declaration) :
    Hosts OpenDeclaration.step OpenDeclaration.expectation
      (fun opened => .body header declarations (some opened))
      (fun declaration _ => .body header (declarations ++ [declaration]) none) where
  step := fun _ _ => Option.map_progress_congr (fun _ => rfl) fun _ => rfl
  expects := fun _ => rfl
  unfinished := fun _ => rfl

/-- Readings in which a designation is read, unless it would begin with a token that means something
else there. -/
structure HostsDesignation (Barred : Token → Prop) (wrap : List Token → Reading)
    (finish : TypeReference → Reading) : Prop where
  step : ∀ modifiers token, (modifiers = [] → ¬ Barred token) →
    (wrap modifiers).step token = (TypeReference.step modifiers token).map fun
      | .more next => wrap next
      | .done type => finish type
  expects : ∀ modifiers, (wrap modifiers).expectation = TypeReference.expectation modifiers
  unfinished : ∀ modifiers, (wrap modifiers).document? = none

theorem Hosts.designation {wrap : List Token → Reading} {finish : TypeReference → Token → Reading}
    (h : Hosts TypeReference.step TypeReference.expectation wrap finish)
    {after : TypeReference → Reading} (same : ∀ type token, finish type token = after type)
    (Barred : Token → Prop) : HostsDesignation Barred wrap after where
  step := by
    intro modifiers token _
    rw [h.step]
    exact Option.map_progress_congr (fun _ => rfl) fun type => same type token
  expects := h.expects
  unfinished := h.unfinished

theorem TypeReference.step_more {modifiers next : List Token} {token : Token}
    (h : step modifiers token = some (.more next)) : next ≠ [] := by
  unfold step at h
  split at h
  · split at h
    · cases h
    · cases h
      exact List.concat_ne_nil _ _
  · cases h
    exact List.concat_ne_nil _ _
  · cases h
  · cases h

namespace Rule

variable {Stopped : Reading → Prop}

/-! ### Designations -/

theorem designationTurn_more {modifiers next : List Token} {lexer rest : Lexer}
    (h : designationTurn modifiers lexer = some (.ok (.more next), rest)) : next ≠ [] := by
  obtain ⟨_, _, hsome, htakes⟩ := exists_take (TypeReference.expectation modifiers)
    (TypeReference.step modifiers) lexer
  cases hsome.symm.trans h
  cases htakes with
  | taken _ takes => exact TypeReference.step_more takes

theorem designation_agrees {Barred : Token → Prop} {wrap : List Token → Reading}
    {finish : TypeReference → Reading} (h : HostsDesignation Barred wrap finish)
    (stops : ∀ modifiers, Stopped (wrap modifiers)) {lexer : Lexer}
    (begins : ∀ token ∈ lexer.upcoming.tokens.head?, ¬ Barred token) :
    designation.Agrees Stopped (wrap []).on (fun type => (finish type).on) lexer := by
  have hturn (modifiers : List Token) (lexer : Lexer)
      (ready : modifiers = [] → ∀ token ∈ lexer.upcoming.tokens.head?, ¬ Barred token) :
      (designationTurn modifiers).Agrees Stopped (wrap modifiers).on
        (turnAnswer (fun next => (wrap next).on) fun type => (finish type).on) lexer :=
    (take_agrees (h.expects modifiers) (h.unfinished modifiers) (stops modifiers)
      fun token htoken => h.step modifiers token fun hnil => ready hnil token htoken).turn
  -- only the first turn may begin at a token that is barred
  exact loop_agrees
    (fun modifiers stream => modifiers = [] → ∀ token ∈ stream.tokens.head?, ¬ Barred token)
    (fun modifiers => (designationTurn_ends modifiers).mono (turnCost_le (Nat.le_refl 1)))
    hturn (fun _ _ _ _ hmore hnil => absurd hnil (designationTurn_more hmore)) fun _ => begins

/-! ### Names and lookahead -/

theorem lowerName_agrees {reading : Reading} {next : Token → Reading} {lexer : Lexer}
    (expects : reading.expectation = .name .lowerCamelCase) (unfinished : reading.document? = none)
    (stops : Stopped reading) (steps : ∀ token ∈ lexer.upcoming.tokens.head?,
      reading.step token = if token.isLowerName then some (next token) else none) :
    lowerName.Agrees Stopped reading.on (fun name => (next name).on) lexer :=
  take_agrees expects unfinished stops fun token htoken =>
    (steps token htoken).trans (by split <;> rfl)

theorem peekIs_agrees (kind : TokenKind) {reading : Reading} (stops : Stopped reading)
    (lexer : Lexer) : (peekIs kind).Agrees Stopped reading.on (fun _ => reading.on) lexer := by
  intro outcome rest hresult
  rcases exists_peekIs kind lexer with hfound | ⟨failure, upcoming, hfailed⟩
  · cases hfound.symm.trans hresult
    rfl
  · cases hfailed.symm.trans hresult
    dsimp only
    rw [upcoming]
    exact ⟨rfl, stops⟩

theorem peekIs_ok {kind : TokenKind} {lexer rest : Lexer} {found : Bool}
    (h : peekIs kind lexer = some (.ok found, rest)) :
    rest = lexer ∧ found = lexer.upcoming.tokens.head?.any (·.kind = kind) := by
  rcases exists_peekIs kind lexer with hfound | ⟨failure, -, hfailed⟩
  · cases hfound.symm.trans h
    exact ⟨rfl, rfl⟩
  · cases hfailed.symm.trans h

theorem typed_agrees {reading : Reading} {named : Token → List Token → Reading}
    {finish : TypedName → Reading} {lexer : Lexer}
    (name : lowerName.Agrees Stopped reading.on (fun name => (named name []).on) lexer)
    (type : ∀ name, HostsDesignation (fun _ => False) (named name)
      fun type => finish ⟨name, type⟩)
    (stops : ∀ name modifiers, Stopped (named name modifiers)) :
    typed.Agrees Stopped reading.on (fun entry => (finish entry).on) lexer :=
  name.bind fun name _ _ => (designation_agrees (type name) (stops name) fun _ _ => id).bind
    fun _ _ _ => agrees_pure rfl

/-! ### Parameters and signatures -/

theorem step_separator (opening : Token) (entries : List (TypedName × Token))
    (parameter : TypedName) (token : Token) :
    OpenParameters.step ⟨opening, entries, .separator parameter⟩ token =
      (separated entries parameter token).map fun
        | .more others => .more ⟨opening, others, .name⟩
        | .done all => .done ⟨opening, all⟩ := by
  unfold OpenParameters.step separated
  cases token.kind <;> rfl

section

variable {wrap : OpenParameters → Reading} {finish : ParameterListing → Token → Reading}
  (h : Hosts OpenParameters.step OpenParameters.expectation wrap finish)
include h

/-- A parameter is read after those that are followed by commas. -/
theorem parameter_agrees (opening : Token) (entries : List (TypedName × Token)) (lexer : Lexer)
    (unnamed : Stopped (wrap ⟨opening, entries, .name⟩))
    (untyped : ∀ name modifiers, Stopped (wrap ⟨opening, entries, .type name modifiers⟩)) :
    typed.Agrees Stopped (wrap ⟨opening, entries, .name⟩).on
      (fun parameter => (wrap ⟨opening, entries, .separator parameter⟩).on) lexer := by
  have hname : lowerName.Agrees Stopped (wrap ⟨opening, entries, .name⟩).on
      (fun name => (wrap ⟨opening, entries, .type name []⟩).on) lexer := by
    refine lowerName_agrees (h.expects _) (h.unfinished _) unnamed fun token _ => ?_
    cases hlower : token.isLowerName <;> simp [h.step, OpenParameters.step, hlower]
  have htype (name : Token) : HostsDesignation (fun _ => False)
      (fun modifiers => wrap ⟨opening, entries, .type name modifiers⟩)
      (fun type => wrap ⟨opening, entries, .separator ⟨name, type⟩⟩) :=
    (h.inside (fun modifiers => ⟨opening, entries, .type name modifiers⟩)
      (fun type _ => .more ⟨opening, entries, .separator ⟨name, type⟩⟩)
      (fun _ _ => Option.map_progress_congr (fun _ => rfl) fun _ => rfl)
      fun _ => rfl).designation (fun _ _ => rfl) _
  exact typed_agrees hname htype untyped

variable {after : ParameterListing → Reading}
  (same : ∀ listing token, finish listing token = after listing)
include same

/-- The token after a parameter decides whether another one follows. -/
theorem separator_agrees (opening : Token) (entries : List (TypedName × Token))
    (parameter : TypedName) (lexer : Lexer)
    (stops : Stopped (wrap ⟨opening, entries, .separator parameter⟩)) :
    (take .separator (separated entries parameter)).Agrees Stopped
      (wrap ⟨opening, entries, .separator parameter⟩).on
      (turnAnswer (fun entries => (wrap ⟨opening, entries, .name⟩).on)
        fun entries => (after ⟨opening, entries⟩).on) lexer := by
  have hstep (token : Token) : (wrap ⟨opening, entries, .separator parameter⟩).step token =
      (separated entries parameter token).map fun
        | .more others => wrap ⟨opening, others, .name⟩
        | .done all => after ⟨opening, all⟩ := by
    rw [h.step, step_separator, Option.map_map]
    exact Option.map_progress_congr (fun _ => rfl) fun _ => same _ token
  exact (take_agrees (h.expects _) (h.unfinished _) stops fun token _ => hstep token).turn

theorem parameterTurn_agrees (stops : ∀ listing, Stopped (wrap listing)) (opening : Token)
    (entries : List (TypedName × Token)) (lexer : Lexer) :
    (parameterTurn entries).Agrees Stopped (wrap ⟨opening, entries, .name⟩).on
      (turnAnswer (fun entries => (wrap ⟨opening, entries, .name⟩).on)
        fun entries => (after ⟨opening, entries⟩).on) lexer :=
  (parameter_agrees h opening entries lexer (stops _) fun _ _ => stops _).bind
    fun parameter rest _ => separator_agrees h same opening entries parameter rest (stops _)

end

/-- A signature with the modifiers that follow its name directly. -/
def named (name : Token) : List Token → OpenSignature
  | [] => .named name
  | modifier :: modifiers => .typed name none (modifier :: modifiers)

theorem named_of_ne_nil {name : Token} {modifiers : List Token} (h : modifiers ≠ []) :
    named name modifiers = .typed name none modifiers := by
  cases modifiers with
  | nil => exact absurd rfl h
  | cons modifier modifiers => rfl

section

variable {wrap : OpenSignature → Reading} {finish : Signature → Token → Reading}
  (h : Hosts OpenSignature.step OpenSignature.expectation wrap finish)
include h

/-- A list of parameters runs inside a signature. -/
theorem hosts_parameters (name : Token) : Hosts OpenParameters.step OpenParameters.expectation
    (fun listing => wrap (.parameters name listing))
    (fun listing _ => wrap (.typed name (some listing) [])) :=
  h.inside (.parameters name) (fun listing _ => .more (.typed name (some listing) []))
    (fun _ _ => Option.map_progress_congr (fun _ => rfl) fun _ => rfl) fun _ => rfl

/-- A parenthesis after the name opens a list of parameters. -/
theorem parenOpen_agrees (name : Token) {lexer : Lexer}
    (begins : ∃ token ∈ lexer.upcoming.tokens.head?, token.kind = .parenOpen) :
    (expect .parenOpen).Agrees Stopped (wrap (.named name)).on
      (fun opening => (wrap (.parameters name ⟨opening, [], .name⟩)).on) lexer := by
  obtain ⟨token, hseen, hkind⟩ := begins
  exact expect_agrees hseen hkind (by simp [h.step, OpenSignature.step, hkind])

theorem parameterList_agrees (stops : ∀ signature, Stopped (wrap signature)) (name : Token)
    {lexer : Lexer} (begins : ∃ token ∈ lexer.upcoming.tokens.head?, token.kind = .parenOpen) :
    parameterList.Agrees Stopped (wrap (.named name)).on
      (fun listing => (wrap (.typed name (some listing) [])).on) lexer := by
  have hloop (opening : Token) (rest : Lexer) :
      (loop parameterTurn []).Agrees Stopped (wrap (.parameters name ⟨opening, [], .name⟩)).on
        (fun entries => (wrap (.typed name (some ⟨opening, entries⟩) [])).on) rest :=
    loop_agrees (fun _ _ => True)
      (fun entries => (parameterTurn_ends entries).mono (turnCost_le (by decide)))
      (fun entries lexer _ => parameterTurn_agrees (hosts_parameters h name) (fun _ _ => rfl)
        (fun _ => stops _) opening entries lexer)
      (fun _ _ _ _ _ => trivial) trivial
  exact (parenOpen_agrees h name begins).bind fun opening rest _ =>
    (hloop opening rest).bind fun entries _ _ => agrees_pure rfl

/-- After the parameters, a designation is read. -/
theorem hostsDesignation_typed {after : Signature → Reading}
    (same : ∀ signature token, finish signature token = after signature) (name : Token)
    (listing : ParameterListing) : HostsDesignation (fun _ => False)
      (fun modifiers => wrap (.typed name (some listing) modifiers))
      (fun type => after ⟨name, some listing, type⟩) :=
  (h.inside (.typed name (some listing)) (fun type _ => .done ⟨name, some listing, type⟩)
    (fun _ _ => Option.map_progress_congr (fun _ => rfl) fun _ => rfl)
    fun _ => rfl).designation (fun _ _ => same _ _) _

/-- After the name, a designation is read unless a parenthesis stands there. -/
theorem hostsDesignation_named {after : Signature → Reading}
    (same : ∀ signature token, finish signature token = after signature) (name : Token) :
    HostsDesignation (fun token => token.kind = .parenOpen)
      (fun modifiers => wrap (named name modifiers)) (fun type => after ⟨name, none, type⟩) where
  step := by
    intro modifiers token hbarred
    have hstep : (named name modifiers).step token =
        OpenSignature.typeStep name none modifiers token := by
      cases modifiers with
      | nil => exact if_neg (hbarred rfl)
      | cons modifier modifiers => rfl
    rw [h.step, hstep, OpenSignature.typeStep, Option.map_map]
    cases hnext : TypeReference.step modifiers token with
    | none => rfl
    | some result =>
      cases result with
      | more next =>
        -- the first modifier leads from the name to the type
        show some (wrap (.typed name none next)) = some (wrap (named name next))
        rw [named_of_ne_nil (TypeReference.step_more hnext)]
      | done type => exact congrArg some (same _ token)
  expects := by
    intro modifiers
    rw [h.expects]
    cases modifiers <;> rfl
  unfinished := fun modifiers => h.unfinished _

theorem signature_agrees {after : Signature → Reading}
    (same : ∀ signature token, finish signature token = after signature)
    (stops : ∀ signature, Stopped (wrap signature)) {reading : Reading} {lexer : Lexer}
    (begins : lowerName.Agrees Stopped reading.on (fun name => (wrap (.named name)).on) lexer) :
    signature.Agrees Stopped reading.on (fun signature => (after signature).on) lexer := by
  -- the lookahead decides between a list of parameters and the type
  refine begins.bind fun name middle _ => (peekIs_agrees _ (stops _) _).bind
    fun applied rest hpeek => ?_
  obtain ⟨rfl, happlied⟩ := peekIs_ok hpeek
  cases applied with
  | true =>
    have hparen : ∃ token ∈ rest.upcoming.tokens.head?, token.kind = .parenOpen := by
      simpa [Option.any_eq_true] using happlied.symm
    exact (parameterList_agrees h stops name hparen).bind fun listing _ _ =>
      (designation_agrees (hostsDesignation_typed h same name listing) (fun _ => stops _)
        fun _ _ => id).bind fun _ _ _ => agrees_pure rfl
  | false =>
    have hnone : ∀ token ∈ rest.upcoming.tokens.head?, ¬ token.kind = .parenOpen := by
      simpa [Option.any_eq_false] using happlied.symm
    exact (designation_agrees (hostsDesignation_named h same name) (fun _ => stops _) hnone).bind
      fun _ _ _ => agrees_pure rfl

end

/-! ### Members -/

/-- The members so far, with none that is open. -/
def between : Body → OpenBody
  | .enum values => .enum values
  | .union options => .union options []
  | .struct fields => .struct fields none
  | .resolver properties => .resolver properties none

section

variable {wrap : OpenBody → Reading} {finish : Body → Token → Reading}
  (h : Hosts OpenBody.step OpenBody.expectation wrap finish)
include h

/-- Between two members, an option begins unless a closing brace stands there. -/
theorem hostsDesignation_option (options : List TypeReference) :
    HostsDesignation (fun token => token.kind = .braceClose)
      (fun modifiers => wrap (.union options modifiers))
      (fun type => wrap (.union (options ++ [type]) [])) where
  step := by
    intro modifiers token hbarred
    rw [h.step, OpenBody.step, if_neg fun hclosed => hbarred hclosed.2 hclosed.1, Option.map_map]
    exact Option.map_progress_congr (fun _ => rfl) fun _ => rfl
  expects := fun modifiers => h.expects _
  unfinished := fun modifiers => h.unfinished _

/-- Another value of an enum. -/
theorem value_agrees (values : List Token) {lexer : Lexer}
    (more : ∀ token ∈ lexer.upcoming.tokens.head?, ¬ token.kind = .braceClose)
    (stops : Stopped (wrap (.enum values))) :
    lowerName.Agrees Stopped (wrap (.enum values)).on
      (fun value => (wrap (.enum (values ++ [value]))).on) lexer := by
  refine lowerName_agrees (h.expects _) (h.unfinished _) stops fun token htoken => ?_
  cases hlower : token.isLowerName <;> simp [h.step, OpenBody.step, more token htoken, hlower]

/-- Another field of a struct. -/
theorem field_agrees (fields : List TypedName) {lexer : Lexer}
    (more : ∀ token ∈ lexer.upcoming.tokens.head?, ¬ token.kind = .braceClose)
    (stops : ∀ pending, Stopped (wrap (.struct fields pending))) :
    typed.Agrees Stopped (wrap (.struct fields none)).on
      (fun field => (wrap (.struct (fields ++ [field]) none)).on) lexer := by
  have hname : lowerName.Agrees Stopped (wrap (.struct fields none)).on
      (fun name => (wrap (.struct fields (some (name, [])))).on) lexer := by
    refine lowerName_agrees (h.expects _) (h.unfinished _) (stops _) fun token htoken => ?_
    cases hlower : token.isLowerName <;> simp [h.step, OpenBody.step, more token htoken, hlower]
  have htype (name : Token) : HostsDesignation (fun _ => False)
      (fun modifiers => wrap (.struct fields (some (name, modifiers))))
      (fun type => wrap (.struct (fields ++ [⟨name, type⟩]) none)) :=
    (h.inside (fun modifiers => .struct fields (some (name, modifiers)))
      (fun type _ => .more (.struct (fields ++ [⟨name, type⟩]) none))
      (fun _ _ => Option.map_progress_congr (fun _ => rfl) fun _ => rfl)
      fun _ => rfl).designation (fun _ _ => rfl) _
  exact typed_agrees hname htype fun _ _ => stops _

/-- The name of another property of a resolver. -/
theorem propertyName_agrees (properties : List Signature) {lexer : Lexer}
    (more : ∀ token ∈ lexer.upcoming.tokens.head?, ¬ token.kind = .braceClose)
    (stops : Stopped (wrap (.resolver properties none))) :
    lowerName.Agrees Stopped (wrap (.resolver properties none)).on
      (fun name => (wrap (.resolver properties (some (.named name)))).on) lexer := by
  refine lowerName_agrees (h.expects _) (h.unfinished _) stops fun token htoken => ?_
  cases hlower : token.isLowerName <;> simp [h.step, OpenBody.step, more token htoken, hlower]

/-- A property runs inside a resolver. -/
theorem hosts_property (properties : List Signature) :
    Hosts OpenSignature.step OpenSignature.expectation
      (fun signature => wrap (.resolver properties (some signature)))
      (fun signature _ => wrap (.resolver (properties ++ [signature]) none)) :=
  h.inside (fun signature => .resolver properties (some signature))
    (fun signature _ => .more (.resolver (properties ++ [signature]) none))
    (fun _ _ => Option.map_progress_congr (fun _ => rfl) fun _ => rfl) fun _ => rfl

variable (stops : ∀ body, Stopped (wrap body))
include stops

/-- Where no closing brace stands, another member is read. -/
theorem member_agrees (body : Body) {lexer : Lexer}
    (more : ∀ token ∈ lexer.upcoming.tokens.head?, ¬ token.kind = .braceClose) :
    (member body).Agrees Stopped (wrap (between body)).on
      (fun body => (wrap (between body)).on) lexer := by
  cases body with
  | enum values =>
    exact (value_agrees h values more (stops _)).bind fun _ _ _ => agrees_pure rfl
  | union options =>
    exact (designation_agrees (hostsDesignation_option h options) (fun _ => stops _) more).bind
      fun _ _ _ => agrees_pure rfl
  | struct fields =>
    exact (field_agrees h fields more fun _ => stops _).bind fun _ _ _ => agrees_pure rfl
  | resolver properties =>
    exact (signature_agrees (hosts_property h properties) (fun _ _ => rfl) (fun _ => stops _)
      (propertyName_agrees h properties more (stops _))).bind fun _ _ _ => agrees_pure rfl

theorem memberTurn_agrees (body : Body) (lexer : Lexer) :
    (memberTurn body).Agrees Stopped (wrap (between body)).on
      (turnAnswer (fun body => (wrap (between body)).on) fun body => (wrap (between body)).on)
      lexer := by
  refine (peekIs_agrees _ (stops _) _).bind fun closed rest hpeek => ?_
  obtain ⟨rfl, hclosed⟩ := peekIs_ok hpeek
  cases closed with
  | true => exact agrees_pure rfl
  | false =>
    have hmore : ∀ token ∈ rest.upcoming.tokens.head?, ¬ token.kind = .braceClose := by
      simpa [Option.any_eq_false] using hclosed.symm
    exact (member_agrees h stops body hmore).bind fun _ _ _ => agrees_pure rfl

end

end Rule

end GraphSchema
