import GraphSchema.Proofs.Grammar.Consumed

/-!
# What can be finished

Whatever is open can be finished: for every state of an automaton there is a row of tokens that
leads to its end (`Completable`).  So no token is taken in vain: a row of tokens can be read exactly
if its kinds are the beginning of a row that derives from the grammar
(`Reading.reads_start_isSome_iff`), and the documents that are read are the grammatical ones
(`Reading.reads_start_eq_iff`).
-/

namespace GraphSchema

/-- A token of a given kind, with a text and places that do not matter. -/
def Token.ofKind (kind : TokenKind) : Token :=
  ⟨kind, "", default, default⟩

@[simp]
theorem Token.kind_ofKind (kind : TokenKind) : (Token.ofKind kind).kind = kind := rfl

/-- Some row of tokens leads from a state to an end. -/
def Completable {σ α : Type} (step : σ → Token → Option (Progress σ α)) (state : σ) : Prop :=
  ∃ row value, Feeds step state row (.done value)

section

variable {σ τ α β : Type}

theorem Completable.of_last {step : σ → Token → Option (Progress σ α)} {state : σ} {value : α}
    (token : Token) (h : step state token = some (.done value)) : Completable step state :=
  ⟨[token], value, .last h⟩

theorem Completable.of_step {step : σ → Token → Option (Progress σ α)} {state next : σ}
    (token : Token) (h : step state token = some (.more next)) (rest : Completable step next) :
    Completable step state := by
  obtain ⟨row, value, hfeeds⟩ := rest
  exact ⟨token :: row, value, .cons h hfeeds⟩

variable {inner : σ → Token → Option (Progress σ α)} {outer : τ → Token → Option (Progress τ β)}

/-- An outer automaton can be finished if the inner one can, and if it can be finished from there
on. -/
theorem Completable.lift (wrap : σ → τ) (finish : α → Token → Progress τ β)
    (more : ∀ state token next, inner state token = some (.more next) →
      outer (wrap state) token = some (.more (wrap next)))
    (done : ∀ state token value, inner state token = some (.done value) →
      outer (wrap state) token = some (finish value token))
    (after : ∀ value token next, finish value token = .more next → Completable outer next)
    {state : σ} (h : Completable inner state) : Completable outer (wrap state) := by
  obtain ⟨row, value, hfeeds⟩ := h
  generalize hdone : Progress.done value = result at hfeeds
  induction hfeeds with
  | nil state => cases hdone
  | @last state token value hlast =>
    have hfinish := done _ _ _ hlast
    cases hresult : finish value token with
    | more next =>
      exact .of_step token (hfinish.trans (congrArg some hresult)) (after _ _ _ hresult)
    | done result => exact .of_last token (hfinish.trans (congrArg some hresult))
  | @cons state next token row result hfirst _ ih =>
    exact .of_step token (more _ _ _ hfirst) (ih hdone)

end

/-! ### Open parts -/

theorem OpenParameters.completable (listing : OpenParameters) :
    Completable OpenParameters.step listing := by
  obtain ⟨opening, entries, stage⟩ := listing
  have hseparator (parameter : TypedName) :
      Completable OpenParameters.step ⟨opening, entries, .separator parameter⟩ :=
    .of_last (.ofKind .parenClose) rfl
  have htype (name : Token) (modifiers : List Token) :
      Completable OpenParameters.step ⟨opening, entries, .type name modifiers⟩ :=
    .of_step (.ofKind .typeName) rfl (hseparator _)
  cases stage with
  | name => exact .of_step (.ofKind .lowerName) rfl (htype _ _)
  | type name modifiers => exact htype name modifiers
  | separator parameter => exact hseparator parameter

theorem OpenSignature.completable (signature : OpenSignature) :
    Completable OpenSignature.step signature := by
  cases signature with
  | named name => exact .of_last (.ofKind .typeName) rfl
  | parameters name listing =>
    refine Completable.lift (parameters name)
      (fun listing _ => .more (.typed name (some listing) [])) ?_ ?_ ?_ listing.completable
    · intro state token next hstep
      simp [step, hstep]
    · intro state token value hstep
      simp [step, hstep]
    · intro value token next hnext
      obtain rfl := Progress.more.inj hnext
      exact .of_last (.ofKind .typeName) rfl
  | typed name listing modifiers => exact .of_last (.ofKind .typeName) rfl

/-- The members can be ended between two of them. -/
theorem Body.completable_opened (body : Body) : Completable OpenBody.step body.opened :=
  .of_last (.ofKind .braceClose) (body.step_opened rfl)

theorem OpenBody.completable (body : OpenBody) : Completable OpenBody.step body := by
  cases body with
  | enum values => exact (Body.enum values).completable_opened
  | union options modifiers =>
    refine .of_step (.ofKind .typeName) ?_
      (Body.union (options ++ [⟨modifiers, .ofKind .typeName⟩])).completable_opened
    simp [step, TypeReference.step, Body.opened]
  | struct fields pending =>
    cases pending with
    | none => exact (Body.struct fields).completable_opened
    | some entry =>
      obtain ⟨name, modifiers⟩ := entry
      have hend :=
        (Body.struct (fields ++ [⟨name, modifiers, .ofKind .typeName⟩])).completable_opened
      exact .of_step (.ofKind .typeName) rfl hend
  | resolver properties pending =>
    cases pending with
    | none => exact (Body.resolver properties).completable_opened
    | some signature =>
      refine Completable.lift (fun signature => resolver properties (some signature))
        (fun property _ => .more (.resolver (properties ++ [property]) none)) ?_ ?_ ?_
        signature.completable
      · intro state token next hstep
        simp [step, hstep]
      · intro state token value hstep
        simp [step, hstep]
      · intro property token next hnext
        obtain rfl := Progress.more.inj hnext
        exact (Body.resolver (properties ++ [property])).completable_opened

theorem OpenDeclaration.completable (declaration : OpenDeclaration) :
    Completable OpenDeclaration.step declaration := by
  have hbody (keyword name opening : Token) (body : OpenBody) :
      Completable OpenDeclaration.step (.blockBody keyword name opening body) := by
    refine Completable.lift (blockBody keyword name opening)
      (fun body closing => .done (.block keyword name opening body closing)) ?_ ?_ ?_
      body.completable
    · intro state token next hstep
      simp [step, hstep, Progress.map]
    · intro state token value hstep
      simp [step, hstep, Progress.map]
    · intro value token next hnext
      cases hnext
  have hsignature (kind : EndpointKind) (keyword : Token) (signature : OpenSignature) :
      Completable OpenDeclaration.step (.endpoint kind keyword signature) := by
    refine Completable.lift (endpoint kind keyword)
      (fun signature _ => .done (.endpoint kind keyword signature)) ?_ ?_ ?_ signature.completable
    · intro state token next hstep
      simp [step, hstep, Progress.map]
    · intro state token value hstep
      simp [step, hstep, Progress.map]
    · intro value token next hnext
      cases hnext
  have htarget (keyword name equals : Token) :
      Completable OpenDeclaration.step (.aliasTarget keyword name equals) :=
    .of_last (.ofKind .typeName) rfl
  have hequals (keyword name : Token) :
      Completable OpenDeclaration.step (.aliasEquals keyword name) :=
    .of_step (.ofKind .equals) rfl (htarget _ _ _)
  have hbrace (kind : BlockKind) (keyword name : Token) :
      Completable OpenDeclaration.step (.blockBrace kind keyword name) :=
    .of_step (.ofKind .braceOpen) rfl (hbody _ _ _ _)
  cases declaration with
  | aliasName keyword => exact .of_step (.ofKind .typeName) rfl (hequals _ _)
  | aliasEquals keyword name => exact hequals keyword name
  | aliasTarget keyword name equals => exact htarget keyword name equals
  | blockName kind keyword => exact .of_step (.ofKind .typeName) rfl (hbrace _ _ _)
  | blockBrace kind keyword name => exact hbrace kind keyword name
  | blockBody keyword name opening body => exact hbody keyword name opening body
  | endpointName kind keyword => exact .of_step (.ofKind .lowerName) rfl (hsignature _ _ _)
  | endpoint kind keyword signature => exact hsignature kind keyword signature

/-! ### Documents -/

namespace Reading

/-- Whatever has been read can be finished. -/
theorem exists_finish (reading : Reading) :
    ∃ row header declarations, reading.reads row = some (body header declarations none) := by
  cases reading with
  | start => exact ⟨[.ofKind (.keyword .schema), .ofKind .lowerName], _, _, rfl⟩
  | headed keyword => exact ⟨[.ofKind .lowerName], _, _, rfl⟩
  | body header declarations pending =>
    cases pending with
    | none => exact ⟨[], header, declarations, rfl⟩
    | some opened =>
      obtain ⟨row, declaration, hfeeds⟩ := opened.completable
      exact ⟨row, header, _, reads_of_feeds hfeeds header declarations⟩

/-- The documents that are read are the grammatical ones, each from its own tokens. -/
theorem reads_start_eq_iff (document : Document) (row : List Token) :
    start.reads row = some (body document.header document.declarations none) ↔
      document.Grammatical ∧ document.tokens = row := by
  constructor
  · intro h
    obtain ⟨⟨hheader, hdeclarations, -⟩, htokens⟩ := reads_keeps h trivial
    refine ⟨⟨hheader, hdeclarations⟩, ?_⟩
    simpa [tokens, Document.tokens] using htokens
  · rintro ⟨hgrammatical, rfl⟩
    exact hgrammatical.reads

/-- A document has been read if and only if its tokens may end where they do. -/
theorem document?_eq_some_iff {reading : Reading} {document : Document} :
    reading.document? = some document ↔
      reading = body document.header document.declarations none := by
  unfold document?
  split
  case h_1 header declarations =>
    obtain ⟨header', declarations'⟩ := document
    simp
  case h_2 hnone =>
    constructor
    · intro h
      cases h
    · intro h
      exact absurd h (hnone _ _)

/-- The kinds of a row of tokens derive if and only if the tokens are read to a document. -/
theorem derivable_iff (row : List Token) :
    Derivable (row.map Token.kind) ↔
      ∃ document : Document,
        start.reads row = some (body document.header document.declarations none) := by
  rw [derivable_iff_grammatical]
  constructor
  · rintro ⟨document, h⟩
    exact ⟨document, (reads_start_eq_iff document row).mpr h⟩
  · rintro ⟨document, h⟩
    exact ⟨document, (reads_start_eq_iff document row).mp h⟩

/-- All tokens of a row are taken if and only if their kinds are the beginning of a row that
derives. -/
theorem reads_start_isSome_iff (row : List Token) :
    (start.reads row).isSome ↔ Viable (row.map Token.kind) := by
  constructor
  · intro h
    obtain ⟨reading, hreading⟩ := Option.isSome_iff_exists.mp h
    obtain ⟨rest, header, declarations, hrest⟩ := reading.exists_finish
    have hall : start.reads (row ++ rest) = some (body header declarations none) := by
      rw [reads_append, hreading, Option.bind_some, hrest]
    refine ⟨rest.map Token.kind, ?_⟩
    rw [← List.map_append]
    exact (derivable_iff _).mpr ⟨⟨header, declarations⟩, hall⟩
  · rintro ⟨rest, hrest⟩
    -- the missing kinds are those of some tokens
    have hkinds : row.map Token.kind ++ rest = (row ++ rest.map Token.ofKind).map Token.kind := by
      rw [List.map_append, List.map_map]
      simp [Function.comp_def]
    rw [hkinds, derivable_iff] at hrest
    obtain ⟨document, hdocument⟩ := hrest
    rw [reads_append] at hdocument
    obtain ⟨reading, hreading, -⟩ := Option.bind_eq_some_iff.mp hdocument
    exact Option.isSome_iff_exists.mpr ⟨reading, hreading⟩

end Reading

/-- A grammatical document is determined by its tokens. -/
theorem Document.Grammatical.eq_of_tokens {document other : Document} (h : document.Grammatical)
    (hother : other.Grammatical) (tokens : document.tokens = other.tokens) : document = other := by
  have hfirst := h.reads
  have hsecond := hother.reads
  rw [tokens, hsecond] at hfirst
  obtain ⟨hheader, hdeclarations, -⟩ := Reading.body.inj (Option.some.inj hfirst)
  obtain ⟨header, declarations⟩ := document
  obtain ⟨otherHeader, others⟩ := other
  rw [Document.mk.injEq]
  exact ⟨hheader.symm, hdeclarations.symm⟩

end GraphSchema
