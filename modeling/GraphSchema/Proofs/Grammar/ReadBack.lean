import GraphSchema.Proofs.Grammar.Written

/-!
# Reading grammatical documents

The tokens of a grammatical document are read back to that document: `Document.Grammatical.reads`.

The reader is a stack of automata, one for designations, one for parameters, and so on outward.
`Feeds step state row result` says that an automaton that is in a state takes a row of tokens and
arrives at a result.  An outer automaton hands the tokens of a part to an inner one, so what the
inner one does is lifted outward (`Feeds.lift_done`, `Feeds.lift_more`), and a list of members is
read member by member (`Feeds.members`).
-/

namespace GraphSchema

/-! ### Rows of tokens -/

section

variable {σ τ α β μ : Type}

/-- The tokens of a row, taken one by one from a state, lead to a result.  Nothing is taken after
something is finished. -/
inductive Feeds (step : σ → Token → Option (Progress σ α)) :
    σ → List Token → Progress σ α → Prop
  | nil (state : σ) : Feeds step state [] (.more state)
  | last {state : σ} {token : Token} {value : α} (h : step state token = some (.done value)) :
      Feeds step state [token] (.done value)
  | cons {state next : σ} {token : Token} {row : List Token} {result : Progress σ α}
      (h : step state token = some (.more next)) (rest : Feeds step next row result) :
      Feeds step state (token :: row) result

variable {step : σ → Token → Option (Progress σ α)}

theorem Feeds.single {state next : σ} {token : Token} (h : step state token = some (.more next)) :
    Feeds step state [token] (.more next) :=
  .cons h (.nil next)

theorem Feeds.append {state next : σ} {row others : List Token} {result : Progress σ α}
    (h : Feeds step state row (.more next)) (rest : Feeds step next others result) :
    Feeds step state (row ++ others) result := by
  generalize hmore : Progress.more next = middle at h
  induction h with
  | nil state =>
    obtain rfl := Progress.more.inj hmore
    exact rest
  | last h => cases hmore
  | cons h _ ih => exact .cons h (ih hmore)

/-- A row of tokens leads to one result. -/
theorem Feeds.unique {state : σ} {row : List Token} {result other : Progress σ α}
    (h : Feeds step state row result) (hother : Feeds step state row other) : result = other := by
  induction h with
  | nil state =>
    cases hother
    rfl
  | last h =>
    cases hother with
    | last h' => exact Option.some.inj (h.symm.trans h')
    | cons h' _ => cases h.symm.trans h'
  | cons h rest ih =>
    cases hother with
    | last h' => cases h.symm.trans h'
    | cons h' rest' =>
      obtain rfl := Progress.more.inj (Option.some.inj (h.symm.trans h'))
      exact ih rest'

/-- Members that are taken one by one are taken as a row. -/
theorem Feeds.members (read : List μ → σ) {tokens : μ → List Token} {Good : μ → Prop}
    (one : ∀ front member, Good member →
      Feeds step (read front) (tokens member) (.more (read (front ++ [member]))))
    (members : List μ) (good : ∀ member ∈ members, Good member) (front : List μ) :
    Feeds step (read front) (members.flatMap tokens) (.more (read (front ++ members))) := by
  induction members generalizing front with
  | nil =>
    rw [List.append_nil]
    exact .nil (read front)
  | cons member members ih =>
    have hfirst := one front member (good member (List.mem_cons_self ..))
    have hothers := ih (fun other hother => good other (List.mem_cons_of_mem _ hother))
      (front ++ [member])
    rw [List.append_assoc, List.singleton_append] at hothers
    exact hfirst.append hothers

variable {inner : σ → Token → Option (Progress σ α)} {outer : τ → Token → Option (Progress τ β)}

/-- An outer automaton follows an inner one as long as nothing is finished. -/
theorem Feeds.lift_more (wrap : σ → τ)
    (more : ∀ state token next, inner state token = some (.more next) →
      outer (wrap state) token = some (.more (wrap next)))
    {state next : σ} {row : List Token} (h : Feeds inner state row (.more next)) :
    Feeds outer (wrap state) row (.more (wrap next)) := by
  generalize hmore : Progress.more next = result at h
  induction h with
  | nil state =>
    obtain rfl := Progress.more.inj hmore
    exact .nil _
  | last h => cases hmore
  | cons h _ ih => exact .cons (more _ _ _ h) (ih hmore)

/-- An outer automaton follows an inner one until the inner one has finished. -/
theorem Feeds.lift_done (wrap : σ → τ) (finish : α → Progress τ β)
    (more : ∀ state token next, inner state token = some (.more next) →
      outer (wrap state) token = some (.more (wrap next)))
    (done : ∀ state token value, inner state token = some (.done value) →
      outer (wrap state) token = some (finish value))
    {state : σ} {row : List Token} {value : α} (h : Feeds inner state row (.done value)) :
    Feeds outer (wrap state) row (finish value) := by
  generalize hdone : Progress.done value = result at h
  induction h with
  | nil state => cases hdone
  | last h =>
    -- here the inner automaton ends, and the outer one goes on or ends as well
    obtain rfl := Progress.done.inj hdone
    have hlast := done _ _ _ h
    cases hfinish : finish value with
    | more next => exact .single (hlast.trans (congrArg some hfinish))
    | done result => exact .last (hlast.trans (congrArg some hfinish))
  | cons h _ ih => exact .cons (more _ _ _ h) (ih hdone)

end

/-! ### Designations -/

theorem Token.isLowerName_ne {token : Token} (h : token.isLowerName = true) :
    token.kind ≠ .braceClose := by
  intro hkind
  rw [isLowerName, hkind] at h
  cases h

/-- A `?` that stands in a row of modifiers does not follow another one. -/
theorem ModifierRow.endsOptional_eq_false {front back : List Token} {token : Token}
    (h : ModifierRow (front ++ token :: back)) (htoken : token.kind = .questionMark) :
    endsOptional front = false := by
  obtain ⟨-, -, hjoint⟩ := List.isChain_append.mp h.single
  cases hlast : front.getLast? with
  | none => simp [endsOptional, hlast]
  | some before =>
    have hnot := hjoint before hlast token (by simp)
    simpa [endsOptional, hlast, Outline.MayPrecede, htoken] using hnot

theorem TypeReference.feeds_modifiers (terminal : Token) (hterminal : terminal.kind = .typeName)
    (back front : List Token) (h : ModifierRow (front ++ back)) :
    Feeds step front (back ++ [terminal]) (.done ⟨front ++ back, terminal⟩) := by
  induction back generalizing front with
  | nil =>
    rw [List.append_nil]
    exact .last (by rw [step, hterminal])
  | cons token back ih =>
    have hnext : step front token = some (.more (front ++ [token])) := by
      rcases h.modifier token (by simp) with htoken | htoken
      · simp [step, htoken, h.endsOptional_eq_false htoken]
      · simp [step, htoken]
    have hrest := ih (front ++ [token]) (by simpa using h)
    rw [List.append_assoc, List.singleton_append] at hrest
    exact .cons hnext hrest

theorem TypeReference.Grammatical.feeds {type : TypeReference} (h : type.Grammatical) :
    Feeds TypeReference.step [] type.tokens (.done type) :=
  TypeReference.feeds_modifiers type.terminal h.terminal type.modifiers [] h.modifiers

/-- The closing brace and the opening parenthesis do not belong to a designation. -/
theorem TypeReference.kind_of_step {modifiers : List Token} {token : Token}
    {result : Progress (List Token) TypeReference} (h : step modifiers token = some result) :
    token.kind ≠ .braceClose ∧ token.kind ≠ .parenOpen := by
  constructor <;>
  · intro hkind
    rw [step, hkind] at h
    cases h

/-! ### Parameters -/

/-- A name with its type is read where a parameter may stand. -/
theorem OpenParameters.feeds_parameter {parameter : TypedName} (h : parameter.Grammatical)
    (opening : Token) (entries : List (TypedName × Token)) :
    Feeds OpenParameters.step ⟨opening, entries, .name⟩ parameter.tokens
      (.more ⟨opening, entries, .separator parameter⟩) := by
  have hname : OpenParameters.step ⟨opening, entries, .name⟩ parameter.name =
      some (.more ⟨opening, entries, .type parameter.name []⟩) := by
    simp [OpenParameters.step, h.name]
  refine .cons hname ?_
  refine Feeds.lift_done
    (fun modifiers => (⟨opening, entries, .type parameter.name modifiers⟩ : OpenParameters))
    (fun type => .more ⟨opening, entries, .separator ⟨parameter.name, type⟩⟩) ?_ ?_ h.type.feeds
  · intro modifiers token next hstep
    simp [OpenParameters.step, hstep]
  · intro modifiers token type hstep
    simp [OpenParameters.step, hstep]

theorem OpenParameters.feeds_entries (opening : Token) {entries : List (TypedName × Token)}
    (separated : Separated entries) (grammatical : ∀ entry ∈ entries, entry.1.Grammatical)
    (front : List (TypedName × Token)) :
    Feeds OpenParameters.step ⟨opening, front, .name⟩
      (entries.flatMap fun entry => entry.1.tokens ++ [entry.2])
      (.done ⟨opening, front ++ entries⟩) := by
  induction separated generalizing front with
  | @last parameter token closes =>
    have hparameter := feeds_parameter (grammatical (parameter, token) (by simp)) opening front
    have hlast : OpenParameters.step ⟨opening, front, .separator parameter⟩ token =
        some (.done ⟨opening, front ++ [(parameter, token)]⟩) := by
      simp [OpenParameters.step, closes]
    simpa using hparameter.append (.last hlast)
  | @cons parameter token entries comma rest ih =>
    have hparameter := feeds_parameter (grammatical (parameter, token) (by simp)) opening front
    have hcomma : OpenParameters.step ⟨opening, front, .separator parameter⟩ token =
        some (.more ⟨opening, front ++ [(parameter, token)], .name⟩) := by
      simp [OpenParameters.step, comma]
    have hrest := ih (fun entry hentry => grammatical entry (List.mem_cons_of_mem _ hentry))
      (front ++ [(parameter, token)])
    simpa using hparameter.append (.cons hcomma hrest)

/-! ### Properties and endpoints -/

theorem OpenSignature.feeds_type {type : TypeReference} (h : type.Grammatical) (name : Token)
    (listing : Option ParameterListing) :
    Feeds OpenSignature.step (.typed name listing []) type.tokens
      (.done ⟨name, listing, type⟩) := by
  refine Feeds.lift_done (fun modifiers => OpenSignature.typed name listing modifiers)
    (fun type => .done (⟨name, listing, type⟩ : Signature)) ?_ ?_ h.feeds
  · intro modifiers token next hstep
    simp [OpenSignature.step, OpenSignature.typeStep, hstep, Progress.map]
  · intro modifiers token type hstep
    simp [OpenSignature.step, OpenSignature.typeStep, hstep, Progress.map]

/-- Where a list of parameters may stand, the designation may also follow at once. -/
theorem OpenSignature.step_named_of_typed {name token : Token}
    {result : Progress OpenSignature Signature}
    (h : OpenSignature.step (.typed name none []) token = some result) :
    OpenSignature.step (.named name) token = some result := by
  have hkind : token.kind ≠ .parenOpen := by
    simp only [OpenSignature.step, OpenSignature.typeStep, Option.map_eq_some_iff] at h
    obtain ⟨_, hstep, -⟩ := h
    exact (TypeReference.kind_of_step hstep).2
  rw [OpenSignature.step, if_neg hkind]
  exact h

theorem OpenSignature.feeds_named {name : Token} {row : List Token} {signature : Signature}
    (h : Feeds OpenSignature.step (.typed name none []) row (.done signature)) :
    Feeds OpenSignature.step (.named name) row (.done signature) := by
  cases h with
  | last hlast => exact .last (step_named_of_typed hlast)
  | cons hfirst hrest => exact .cons (step_named_of_typed hfirst) hrest

theorem Signature.Grammatical.feeds {signature : Signature} (h : signature.Grammatical) :
    ∃ row, signature.tokens = signature.name :: row ∧
      Feeds OpenSignature.step (.named signature.name) row (.done signature) := by
  obtain ⟨name, parameters, type⟩ := signature
  refine ⟨_, rfl, ?_⟩
  cases parameters with
  | none => exact OpenSignature.feeds_named (OpenSignature.feeds_type h.type name none)
  | some listing =>
    have hlisting := h.parameters listing rfl
    have hopening : OpenSignature.step (.named name) listing.opening =
        some (.more (.parameters name ⟨listing.opening, [], .name⟩)) := by
      rw [OpenSignature.step, if_pos hlisting.opening]
    have hentries : Feeds OpenSignature.step (.parameters name ⟨listing.opening, [], .name⟩)
        (listing.entries.flatMap fun entry => entry.1.tokens ++ [entry.2])
        (.more (.typed name (some listing) [])) := by
      refine Feeds.lift_done (fun listing => OpenSignature.parameters name listing)
        (fun listing => .more (.typed name (some listing) [])) ?_ ?_
        (OpenParameters.feeds_entries _ hlisting.separated hlisting.entries [])
      · intro state token next hstep
        simp [OpenSignature.step, hstep]
      · intro state token value hstep
        simp [OpenSignature.step, hstep]
    exact .cons hopening (hentries.append (OpenSignature.feeds_type h.type name (some listing)))

/-! ### Members -/

/-- All members have been read, and the closing brace may follow. -/
def Body.opened : Body → OpenBody
  | enum values => .enum values
  | union options => .union options []
  | struct fields => .struct fields none
  | resolver properties => .resolver properties none

/-- The kind of declaration that the members belong to. -/
def Body.blockKind : Body → BlockKind
  | enum _ => .enum
  | union _ => .union
  | struct _ => .struct
  | resolver _ => .resolver

theorem Body.step_opened (body : Body) {closing : Token} (h : closing.kind = .braceClose) :
    body.opened.step closing = some (.done body) := by
  cases body <;> simp [opened, OpenBody.step, h]

theorem OpenBody.feeds_value (values : List Token) (value : Token)
    (h : value.isLowerName = true) :
    Feeds OpenBody.step (.enum values) [value] (.more (.enum (values ++ [value]))) := by
  refine .single ?_
  rw [OpenBody.step, if_neg (Token.isLowerName_ne h), if_pos h]

theorem OpenBody.feeds_option (options : List TypeReference) (option : TypeReference)
    (h : option.Grammatical) :
    Feeds OpenBody.step (.union options []) option.tokens
      (.more (.union (options ++ [option]) [])) := by
  refine Feeds.lift_done (fun modifiers => OpenBody.union options modifiers)
    (fun type => .more (.union (options ++ [type]) [])) ?_ ?_ h.feeds
  · intro modifiers token next hstep
    simp [OpenBody.step, (TypeReference.kind_of_step hstep).1, hstep]
  · intro modifiers token type hstep
    simp [OpenBody.step, (TypeReference.kind_of_step hstep).1, hstep]

theorem OpenBody.feeds_field (fields : List TypedName) (field : TypedName)
    (h : field.Grammatical) :
    Feeds OpenBody.step (.struct fields none) field.tokens
      (.more (.struct (fields ++ [field]) none)) := by
  have hname : OpenBody.step (.struct fields none) field.name =
      some (.more (.struct fields (some (field.name, [])))) := by
    rw [OpenBody.step, if_neg (Token.isLowerName_ne h.name), if_pos h.name]
  refine .cons hname ?_
  refine Feeds.lift_done (fun modifiers => OpenBody.struct fields (some (field.name, modifiers)))
    (fun type => .more (.struct (fields ++ [⟨field.name, type⟩]) none)) ?_ ?_ h.type.feeds
  · intro modifiers token next hstep
    simp [OpenBody.step, hstep]
  · intro modifiers token type hstep
    simp [OpenBody.step, hstep]

theorem OpenBody.feeds_property (properties : List Signature) (property : Signature)
    (h : property.Grammatical) :
    Feeds OpenBody.step (.resolver properties none) property.tokens
      (.more (.resolver (properties ++ [property]) none)) := by
  obtain ⟨row, htokens, hfeeds⟩ := h.feeds
  have hname : OpenBody.step (.resolver properties none) property.name =
      some (.more (.resolver properties (some (.named property.name)))) := by
    rw [OpenBody.step, if_neg (Token.isLowerName_ne h.name), if_pos h.name]
  rw [htokens]
  refine .cons hname ?_
  refine Feeds.lift_done (fun signature => OpenBody.resolver properties (some signature))
    (fun property => .more (.resolver (properties ++ [property]) none)) ?_ ?_ hfeeds
  · intro state token next hstep
    simp [OpenBody.step, hstep]
  · intro state token value hstep
    simp [OpenBody.step, hstep]

theorem Body.Grammatical.feeds {body : Body} (h : body.Grammatical) :
    Feeds OpenBody.step (.empty body.blockKind) body.tokens (.more body.opened) := by
  cases body with
  | enum values =>
    have hvalues := Feeds.members OpenBody.enum OpenBody.feeds_value values h []
    rwa [List.flatMap_singleton'] at hvalues
  | union options =>
    exact Feeds.members (fun options => OpenBody.union options []) OpenBody.feeds_option
      options h []
  | struct fields =>
    exact Feeds.members (fun fields => OpenBody.struct fields none) OpenBody.feeds_field fields h []
  | resolver properties =>
    exact Feeds.members (fun properties => OpenBody.resolver properties none)
      OpenBody.feeds_property properties h []

/-! ### Declarations and documents -/

theorem OpenDeclaration.feeds_block {body : Body} (h : body.Grammatical)
    {keyword name opening closing : Token} (hname : name.kind = .typeName)
    (hopening : opening.kind = .braceOpen) (hclosing : closing.kind = .braceClose) :
    Feeds OpenDeclaration.step (.blockName body.blockKind keyword)
      (name :: opening :: (body.tokens ++ [closing]))
      (.done (.block keyword name opening body closing)) := by
  have hfirst : OpenDeclaration.step (.blockName body.blockKind keyword) name =
      some (.more (.blockBrace body.blockKind keyword name)) := by
    rw [OpenDeclaration.step, if_pos hname]
  have hbrace : OpenDeclaration.step (.blockBrace body.blockKind keyword name) opening =
      some (.more (.blockBody keyword name opening (.empty body.blockKind))) := by
    rw [OpenDeclaration.step, if_pos hopening]
  have hmembers : Feeds OpenDeclaration.step
      (.blockBody keyword name opening (.empty body.blockKind)) body.tokens
      (.more (.blockBody keyword name opening body.opened)) := by
    refine Feeds.lift_more (OpenDeclaration.blockBody keyword name opening) ?_ h.feeds
    intro state token next hstep
    simp [OpenDeclaration.step, hstep, Progress.map]
  have hlast : OpenDeclaration.step (.blockBody keyword name opening body.opened) closing =
      some (.done (.block keyword name opening body closing)) := by
    simp [OpenDeclaration.step, body.step_opened hclosing, Progress.map]
  exact .cons hfirst (.cons hbrace (hmembers.append (.last hlast)))

theorem OpenDeclaration.feeds_endpoint {signature : Signature} (h : signature.Grammatical)
    (kind : EndpointKind) (keyword : Token) :
    Feeds OpenDeclaration.step (.endpointName kind keyword) signature.tokens
      (.done (.endpoint kind keyword signature)) := by
  obtain ⟨row, htokens, hfeeds⟩ := h.feeds
  have hname : OpenDeclaration.step (.endpointName kind keyword) signature.name =
      some (.more (.endpoint kind keyword (.named signature.name))) := by
    rw [OpenDeclaration.step, if_pos h.name]
  rw [htokens]
  refine .cons hname ?_
  refine Feeds.lift_done (OpenDeclaration.endpoint kind keyword)
    (fun signature => .done (Declaration.endpoint kind keyword signature)) ?_ ?_ hfeeds
  · intro state token next hstep
    simp [OpenDeclaration.step, hstep, Progress.map]
  · intro state token value hstep
    simp [OpenDeclaration.step, hstep, Progress.map]

/-- A keyword opens a declaration, and the other tokens finish it. -/
theorem Declaration.Grammatical.feeds {declaration : Declaration} (h : declaration.Grammatical) :
    ∃ keyword row opened, declaration.tokens = keyword :: row ∧
      OpenDeclaration.opened? keyword = some opened ∧
      Feeds OpenDeclaration.step opened row (.done declaration) := by
  cases declaration with
  | typeAlias keyword name equals target =>
    obtain ⟨hkeyword, hname, hequals, htarget⟩ := h
    refine ⟨keyword, _, .aliasName keyword, rfl, by rw [OpenDeclaration.opened?, hkeyword], ?_⟩
    refine .cons (by rw [OpenDeclaration.step, if_pos hname]) ?_
    refine .cons (by rw [OpenDeclaration.step, if_pos hequals]) ?_
    exact .last (by rw [OpenDeclaration.step, if_pos htarget])
  | block keyword name opening body closing =>
    obtain ⟨hkeyword, hname, hopening, hbody, hclosing⟩ := h
    refine ⟨keyword, _, .blockName body.blockKind keyword, rfl, ?_,
      OpenDeclaration.feeds_block hbody hname hopening hclosing⟩
    cases body <;> rw [OpenDeclaration.opened?, hkeyword] <;> rfl
  | endpoint kind keyword signature =>
    obtain ⟨hkeyword, hsignature⟩ := h
    refine ⟨keyword, _, .endpointName kind keyword, rfl, ?_,
      OpenDeclaration.feeds_endpoint hsignature kind keyword⟩
    cases kind <;> rw [OpenDeclaration.opened?, hkeyword] <;> rfl

namespace Reading

/-- Takes a row of tokens; nothing if one of them cannot be taken. -/
def reads (reading : Reading) (row : List Token) : Option Reading :=
  row.foldlM step reading

@[simp]
theorem reads_nil (reading : Reading) : reading.reads [] = some reading := rfl

@[simp]
theorem reads_cons (reading : Reading) (token : Token) (row : List Token) :
    reading.reads (token :: row) = (reading.step token).bind fun next => next.reads row := rfl

theorem reads_append (reading : Reading) (front back : List Token) :
    reading.reads (front ++ back) = (reading.reads front).bind fun next => next.reads back := by
  rw [reads, List.foldlM_append]
  rfl

/-- What is read of a document while a declaration is open. -/
theorem reads_of_feeds {opened : OpenDeclaration} {row : List Token} {declaration : Declaration}
    (h : Feeds OpenDeclaration.step opened row (.done declaration)) (header : Header)
    (declarations : List Declaration) :
    (body header declarations (some opened)).reads row =
      some (body header (declarations ++ [declaration]) none) := by
  generalize hdone : Progress.done declaration = result at h
  induction h with
  | nil state => cases hdone
  | last hlast =>
    obtain rfl := Progress.done.inj hdone
    simp [step, hlast]
  | cons hfirst _ ih =>
    rw [reads_cons, step, hfirst]
    exact ih hdone

theorem reads_declaration {declaration : Declaration} (h : declaration.Grammatical)
    (header : Header) (declarations : List Declaration) :
    (body header declarations none).reads declaration.tokens =
      some (body header (declarations ++ [declaration]) none) := by
  obtain ⟨keyword, row, opened, htokens, hopened, hfeeds⟩ := h.feeds
  rw [htokens, reads_cons, step, hopened]
  exact reads_of_feeds hfeeds header declarations

theorem reads_declarations (others : List Declaration)
    (h : ∀ declaration ∈ others, declaration.Grammatical) (header : Header)
    (declarations : List Declaration) :
    (body header declarations none).reads (others.flatMap Declaration.tokens) =
      some (body header (declarations ++ others) none) := by
  induction others generalizing declarations with
  | nil => simp
  | cons declaration others ih =>
    have hrest := ih (fun other hother => h other (List.mem_cons_of_mem _ hother))
      (declarations ++ [declaration])
    rw [List.append_assoc, List.singleton_append] at hrest
    rw [List.flatMap_cons, reads_append, reads_declaration (h _ (List.mem_cons_self ..)),
      Option.bind_some, hrest]

end Reading

/-- The tokens of a grammatical document are read back to it. -/
theorem Document.Grammatical.reads {document : Document} (h : document.Grammatical) :
    Reading.start.reads document.tokens =
      some (.body document.header document.declarations none) := by
  have hkeyword : Reading.start.step document.header.keyword =
      some (.headed document.header.keyword) := by
    rw [Reading.step, if_pos h.header.keyword]
  have hname : (Reading.headed document.header.keyword).step document.header.name =
      some (.body document.header [] none) := by
    rw [Reading.step, if_pos h.header.name]
  rw [Document.tokens, Header.tokens, List.cons_append, List.cons_append, List.nil_append,
    Reading.reads_cons, hkeyword, Option.bind_some, Reading.reads_cons, hname, Option.bind_some,
    Reading.reads_declarations _ h.declarations, List.nil_append]

end GraphSchema
