import GraphSchema.Proofs.Descent.Hosted

/-!
# A document is read by descent
-/

namespace GraphSchema

namespace Rule

variable {Stopped : Reading → Prop}

/-- A token of one kind is taken. -/
theorem ofKind_agrees {expectation : Expectation} {kind : TokenKind} {reading : Reading}
    {next : Token → Reading} {lexer : Lexer} (expects : reading.expectation = expectation)
    (unfinished : reading.document? = none) (stops : Stopped reading)
    (steps : ∀ token, reading.step token = if token.kind = kind then some (next token) else none) :
    (take expectation fun token => if token.kind = kind then some token else none).Agrees Stopped
      reading.on (fun token => (next token).on) lexer :=
  take_agrees expects unfinished stops fun token _ => (steps token).trans (by split <;> rfl)

/-! ### Declarations -/

section

variable {wrap : OpenDeclaration → Reading} {finish : Declaration → Reading}
  (h : Hosts OpenDeclaration.step OpenDeclaration.expectation wrap fun declaration _ =>
    finish declaration)
include h

/-- The name of an alias. -/
theorem aliasName_agrees (keyword : Token) (stops : Stopped (wrap (.aliasName keyword)))
    (lexer : Lexer) : typeName.Agrees Stopped (wrap (.aliasName keyword)).on
      (fun name => (wrap (.aliasEquals keyword name)).on) lexer :=
  ofKind_agrees (h.expects _) (h.unfinished _) stops fun token => by
    by_cases hkind : token.kind = .typeName <;> simp [h.step, OpenDeclaration.step, hkind]

/-- The sign between the two names of an alias. -/
theorem aliasEquals_agrees (keyword name : Token)
    (stops : Stopped (wrap (.aliasEquals keyword name))) (lexer : Lexer) :
    (expect .equals).Agrees Stopped (wrap (.aliasEquals keyword name)).on
      (fun equals => (wrap (.aliasTarget keyword name equals)).on) lexer :=
  ofKind_agrees (h.expects _) (h.unfinished _) stops fun token => by
    by_cases hkind : token.kind = .equals <;> simp [h.step, OpenDeclaration.step, hkind]

/-- The name that an alias stands for. -/
theorem aliasTarget_agrees (keyword name equals : Token)
    (stops : Stopped (wrap (.aliasTarget keyword name equals))) (lexer : Lexer) :
    typeName.Agrees Stopped (wrap (.aliasTarget keyword name equals)).on
      (fun target => (finish (.typeAlias keyword name equals target)).on) lexer :=
  ofKind_agrees (h.expects _) (h.unfinished _) stops fun token => by
    by_cases hkind : token.kind = .typeName <;> simp [h.step, OpenDeclaration.step, hkind]

/-- The name of a declaration with members. -/
theorem blockName_agrees (kind : BlockKind) (keyword : Token)
    (stops : Stopped (wrap (.blockName kind keyword))) (lexer : Lexer) :
    typeName.Agrees Stopped (wrap (.blockName kind keyword)).on
      (fun name => (wrap (.blockBrace kind keyword name)).on) lexer :=
  ofKind_agrees (h.expects _) (h.unfinished _) stops fun token => by
    by_cases hkind : token.kind = .typeName <;> simp [h.step, OpenDeclaration.step, hkind]

/-- The brace in front of the members. -/
theorem braceOpen_agrees (kind : BlockKind) (keyword name : Token)
    (stops : Stopped (wrap (.blockBrace kind keyword name))) (lexer : Lexer) :
    (expect .braceOpen).Agrees Stopped (wrap (.blockBrace kind keyword name)).on
      (fun opening => (wrap (.blockBody keyword name opening (.empty kind))).on) lexer :=
  ofKind_agrees (h.expects _) (h.unfinished _) stops fun token => by
    by_cases hkind : token.kind = .braceOpen <;> simp [h.step, OpenDeclaration.step, hkind]

/-- Members run inside a declaration. -/
theorem hosts_members (keyword name opening : Token) : Hosts OpenBody.step OpenBody.expectation
    (fun body => wrap (.blockBody keyword name opening body))
    (fun body closing => finish (.block keyword name opening body closing)) :=
  h.inside (.blockBody keyword name opening)
    (fun body closing => .done (.block keyword name opening body closing))
    (fun _ _ => Option.map_progress_congr (fun _ => rfl) fun _ => rfl) fun _ => rfl

/-- The brace behind the members, which has been seen ahead. -/
theorem braceClose_agrees (keyword name opening : Token) (body : Body) {lexer : Lexer}
    (closes : AtBrace lexer.upcoming) :
    (expect .braceClose).Agrees Stopped (wrap (.blockBody keyword name opening (between body))).on
      (fun closing => (finish (.block keyword name opening body closing)).on) lexer := by
  obtain ⟨token, hseen, hkind⟩ := closes
  refine expect_agrees hseen hkind ?_
  cases body <;> simp [(hosts_members h keyword name opening).step, between, OpenBody.step, hkind]

/-- The name of an endpoint. -/
theorem endpointName_agrees (kind : EndpointKind) (keyword : Token)
    (stops : Stopped (wrap (.endpointName kind keyword))) (lexer : Lexer) :
    lowerName.Agrees Stopped (wrap (.endpointName kind keyword)).on
      (fun name => (wrap (.endpoint kind keyword (.named name))).on) lexer :=
  lowerName_agrees (h.expects _) (h.unfinished _) stops fun token _ => by
    cases hlower : token.isLowerName <;> simp [h.step, OpenDeclaration.step, hlower]

/-- What follows the name of an endpoint runs inside its declaration. -/
theorem hosts_endpoint (kind : EndpointKind) (keyword : Token) :
    Hosts OpenSignature.step OpenSignature.expectation
      (fun signature => wrap (.endpoint kind keyword signature))
      (fun signature _ => finish (.endpoint kind keyword signature)) :=
  h.inside (.endpoint kind keyword) (fun signature _ => .done (.endpoint kind keyword signature))
    (fun _ _ => Option.map_progress_congr (fun _ => rfl) fun _ => rfl) fun _ => rfl

variable (stops : ∀ opened, Stopped (wrap opened)) {reading : Reading} {lexer : Lexer}
  {token : Token} (seen : token ∈ lexer.upcoming.tokens.head?)
include stops seen

theorem typeAlias_agrees (isKeyword : token.kind = .keyword .typeAlias)
    (opens : reading.step token = some (wrap (.aliasName token))) :
    typeAlias.Agrees Stopped reading.on (fun declaration => (finish declaration).on) lexer :=
  (expect_agrees seen isKeyword opens).bind fun keyword _ _ =>
    (aliasName_agrees h keyword (stops _) _).bind fun name _ _ =>
      (aliasEquals_agrees h keyword name (stops _) _).bind fun equals _ _ =>
        (aliasTarget_agrees h keyword name equals (stops _) _).bind fun _ _ _ =>
          agrees_pure rfl

theorem block_agrees {kind : BlockKind} (isKeyword : token.kind = .keyword kind.keyword)
    (opens : reading.step token = some (wrap (.blockName kind token))) :
    (block kind).Agrees Stopped reading.on (fun declaration => (finish declaration).on) lexer := by
  have hmembers (keyword name opening : Token) (lexer : Lexer) :
      (loop memberTurn (emptyBody kind)).Agrees Stopped
        (wrap (.blockBody keyword name opening (.empty kind))).on
        (fun body => (wrap (.blockBody keyword name opening (between body))).on) lexer := by
    rw [show OpenBody.empty kind = between (emptyBody kind) by cases kind <;> rfl]
    exact loop_agrees (fun _ _ => True) memberTurn_ends
      (fun body lexer _ =>
        memberTurn_agrees (hosts_members h keyword name opening) (fun _ => stops _) body lexer)
      (fun _ _ _ _ _ => trivial) trivial
  refine (expect_agrees seen isKeyword opens).bind fun keyword _ _ =>
    (blockName_agrees h kind keyword (stops _) _).bind fun name _ _ =>
      (braceOpen_agrees h kind keyword name (stops _) _).bind fun opening _ _ =>
        (hmembers keyword name opening _).bind fun body rest hloop => ?_
  -- the loop has ended at a closing brace, which the reader takes here, too
  obtain ⟨_, _, hlast⟩ := exists_last_turn memberTurn_ends hloop
  obtain ⟨rfl, hbrace⟩ := memberTurn_done hlast
  exact (braceClose_agrees h keyword name opening body hbrace).bind fun _ _ _ => agrees_pure rfl

theorem endpoint_agrees {kind : EndpointKind} (isKeyword : token.kind = .keyword kind.keyword)
    (opens : reading.step token = some (wrap (.endpointName kind token))) :
    (endpoint kind).Agrees Stopped reading.on (fun declaration => (finish declaration).on) lexer :=
  (expect_agrees seen isKeyword opens).bind fun keyword _ _ =>
    (signature_agrees (hosts_endpoint h kind keyword) (fun _ _ => rfl) (fun _ => stops _)
      (endpointName_agrees h kind keyword (stops _) _)).bind fun _ _ _ => agrees_pure rfl

end

/-- A keyword opens a declaration after complete ones. -/
theorem step_opens (header : Header) (declarations : List Declaration) {token : Token}
    {opened : OpenDeclaration} (h : OpenDeclaration.opened? token = some opened) :
    (Reading.body header declarations none).step token =
      some (.body header declarations (some opened)) := by
  rw [Reading.step, h, Option.map_some]

/-- A token that opens no declaration is refused where one is expected. -/
theorem on_of_not_opened (header : Header) (declarations : List Declaration) {stream : TokenStream}
    {token : Token} (seen : token ∈ stream.tokens.head?)
    (unopened : OpenDeclaration.opened? token = none) :
    (Reading.body header declarations none).on stream =
      (.body header declarations none, some (Expectation.declaration.refusal token)) := by
  obtain ⟨others, htokens⟩ := List.head?_eq_some_iff.mp seen
  rw [Reading.on, htokens, Reading.run, Reading.step, unopened]
  rfl

/-- A declaration is read after complete ones. -/
theorem declaration_agrees (header : Header) (declarations : List Declaration)
    (stops : ∀ pending, Stopped (.body header declarations pending)) {lexer : Lexer}
    {token : Token} (seen : token ∈ lexer.upcoming.tokens.head?) :
    (declaration token).Agrees Stopped (Reading.body header declarations none).on
      (fun declaration => (Reading.body header (declarations ++ [declaration]) none).on) lexer := by
  have hosts := hosts_declaration header declarations
  have hopens {opened : OpenDeclaration} (h : OpenDeclaration.opened? token = some opened) :=
    step_opens header declarations h
  have hstops (opened : OpenDeclaration) := stops (some opened)
  unfold declaration
  split
  case h_1 hkind =>
    exact typeAlias_agrees hosts hstops seen hkind (hopens (by rw [OpenDeclaration.opened?, hkind]))
  case h_2 hkind =>
    exact block_agrees hosts hstops seen hkind (hopens (by rw [OpenDeclaration.opened?, hkind]))
  case h_3 hkind =>
    exact block_agrees hosts hstops seen hkind (hopens (by rw [OpenDeclaration.opened?, hkind]))
  case h_4 hkind =>
    exact block_agrees hosts hstops seen hkind (hopens (by rw [OpenDeclaration.opened?, hkind]))
  case h_5 hkind =>
    exact block_agrees hosts hstops seen hkind (hopens (by rw [OpenDeclaration.opened?, hkind]))
  case h_6 hkind =>
    exact endpoint_agrees hosts hstops seen hkind (hopens (by rw [OpenDeclaration.opened?, hkind]))
  case h_7 hkind =>
    exact endpoint_agrees hosts hstops seen hkind (hopens (by rw [OpenDeclaration.opened?, hkind]))
  case h_8 =>
    -- no declaration begins with the token, for the reader neither
    have hnone : OpenDeclaration.opened? token = none := by
      unfold OpenDeclaration.opened?
      split <;> simp_all
    intro outcome rest hresult
    cases hresult
    dsimp only
    rw [on_of_not_opened header declarations seen hnone]
    exact ⟨rfl, stops none⟩

/-- What becomes of the streams that may follow complete declarations. -/
def afterDeclarations (header : Header) (declarations : List Declaration) : Answer :=
  (Reading.body header declarations none).on

/-- What is seen ahead after complete declarations. -/
theorem peek_agrees (header : Header) (declarations : List Declaration)
    (stops : Stopped (.body header declarations none)) (lexer : Lexer) :
    peek.Agrees Stopped (afterDeclarations header declarations)
      (fun _ => afterDeclarations header declarations) lexer := by
  intro outcome rest hresult
  obtain ⟨found, hpeek, hpeeks⟩ := exists_peek lexer
  cases hpeek.symm.trans hresult
  cases hpeeks with
  | token | ended => rfl
  | failed upcoming =>
    dsimp only
    rw [upcoming]
    exact ⟨rfl, stops⟩

/-- The token that is seen ahead is the next one. -/
theorem peek_ok {lexer rest : Lexer} {token : Token}
    (h : peek lexer = some (.ok (some token), rest)) :
    rest = lexer ∧ token ∈ lexer.upcoming.tokens.head? := by
  obtain ⟨found, hpeek, hpeeks⟩ := exists_peek lexer
  cases hpeek.symm.trans h
  cases hpeeks with
  | token upcoming => exact ⟨rfl, by rw [upcoming]; rfl⟩

theorem documentTurn_agrees (header : Header) (declarations : List Declaration)
    (stops : ∀ pending, Stopped (.body header declarations pending)) (lexer : Lexer) :
    (documentTurn declarations).Agrees Stopped (afterDeclarations header declarations)
      (turnAnswer (afterDeclarations header) (afterDeclarations header)) lexer := by
  refine (peek_agrees header declarations (stops none) lexer).bind fun token? rest hpeek => ?_
  cases token? with
  | none => exact agrees_pure rfl
  | some token =>
    obtain ⟨rfl, hseen⟩ := peek_ok hpeek
    exact (declaration_agrees header declarations stops hseen).bind fun _ _ _ => agrees_pure rfl

theorem header_agrees (atStart : Stopped .start) (atName : ∀ keyword, Stopped (.headed keyword))
    (lexer : Lexer) : header.Agrees Stopped Reading.start.on
      (fun header => (Reading.body header [] none).on) lexer := by
  have hkeyword : (expect (.keyword .schema)).Agrees Stopped Reading.start.on
      (fun keyword => (Reading.headed keyword).on) lexer :=
    ofKind_agrees rfl rfl atStart fun _ => rfl
  have hname (keyword : Token) (lexer : Lexer) :
      lowerName.Agrees Stopped (Reading.headed keyword).on
        (fun name => (Reading.body ⟨keyword, name⟩ [] none).on) lexer :=
    lowerName_agrees rfl rfl (atName _) fun _ _ => rfl
  exact hkeyword.bind fun keyword _ _ => (hname keyword _).bind fun _ _ _ => agrees_pure rfl

theorem document_agrees (lexer : Lexer) : document.Agrees (fun _ => True) Reading.start.on
    (fun document => (Reading.body document.header document.declarations none).on) lexer := by
  have hloop (header : Header) (lexer : Lexer) : (loop documentTurn []).Agrees (fun _ => True)
      (afterDeclarations header []) (afterDeclarations header) lexer :=
    loop_agrees (fun _ _ => True) documentTurn_ends
      (fun declarations lexer _ =>
        documentTurn_agrees header declarations (fun _ => trivial) lexer)
      (fun _ _ _ _ _ => trivial) trivial
  exact (header_agrees trivial (fun _ => trivial) lexer).bind fun header _ _ =>
    (hloop header _).bind fun _ _ _ => agrees_pure rfl

/-- A whole document has been read where the input has ended. -/
theorem document_done {lexer rest : Lexer} {found : Document}
    (h : document lexer = some (.ok found, rest)) : AtEnd rest.upcoming := by
  obtain ⟨header, middle, -, hafter⟩ := exists_of_bind h
  obtain ⟨declarations, last, hloop, hpure⟩ := exists_of_bind hafter
  cases hpure
  obtain ⟨_, _, hlast⟩ := exists_last_turn documentTurn_ends hloop
  obtain ⟨rfl, hend⟩ := documentTurn_done hlast
  exact hend

/-- The document that is found by descent is the one that is read, without a problem. -/
theorem ofStream_of_document {lexer rest : Lexer} {found : Document}
    (h : document lexer = some (.ok found, rest)) :
    Reading.ofStream lexer.upcoming = (.body found.header found.declarations none, none) := by
  have hagrees : Reading.start.on lexer.upcoming =
      (Reading.body found.header found.declarations none).on rest.upcoming :=
    document_agrees lexer _ _ h
  obtain ⟨position, hend⟩ := document_done h
  rw [hend] at hagrees
  exact hagrees

/-- The problem that is found by descent is the one that stops the reading. -/
theorem ofStream_of_problem {lexer rest : Lexer} {problem : Problem}
    (h : document lexer = some (.error problem, rest)) :
    (Reading.ofStream lexer.upcoming).2 = some problem :=
  (document_agrees lexer _ _ h).1

end Rule

end GraphSchema
