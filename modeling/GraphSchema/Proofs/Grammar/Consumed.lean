import GraphSchema.Proofs.Grammar.ReadBack

/-!
# What has been read

Every state of the reader keeps the tokens it has taken.  `Reading.tokens` lists them, and
`Reading.Grammatical` says that they are the beginning of a grammatical document: what is finished
is grammatical, and what is open is grammatical up to where it has come.  Both are kept by every
step (`Reading.step_keeps`), so a reading that was reached is grammatical and its tokens are the
tokens that led to it (`Reading.reads_keeps`).
-/

namespace GraphSchema

/-- What is open or finished is as it should be, and consists of the tokens of a row. -/
def Progress.Keeps {σ α : Type} (Open : σ → Prop) (taken : σ → List Token) (Done : α → Prop)
    (tokens : α → List Token) (row : List Token) : Progress σ α → Prop
  | more state => Open state ∧ taken state = row
  | done value => Done value ∧ tokens value = row

/-- What every step keeps is kept while a row of tokens is taken. -/
theorem Feeds.keeps {σ α : Type} {step : σ → Token → Option (Progress σ α)} {Open : σ → Prop}
    {taken : σ → List Token} {Done : α → Prop} {tokens : α → List Token}
    (kept : ∀ state token result, step state token = some result → Open state →
      result.Keeps Open taken Done tokens (taken state ++ [token]))
    {state : σ} {row : List Token} {result : Progress σ α} (h : Feeds step state row result)
    (good : Open state) : result.Keeps Open taken Done tokens (taken state ++ row) := by
  induction h with
  | nil state =>
    rw [List.append_nil]
    exact ⟨good, rfl⟩
  | last h => exact kept _ _ _ h good
  | @cons state next token row _ h _ ih =>
    obtain ⟨hnext, htaken⟩ := kept _ _ _ h good
    have hrest := ih hnext
    rw [htaken, List.append_assoc] at hrest
    exact hrest

/-! ### Open parts -/

namespace OpenParameters

/-- The tokens that have been taken. -/
def tokens (listing : OpenParameters) : List Token :=
  listing.opening :: (listing.entries.flatMap (fun entry => entry.1.tokens ++ [entry.2]) ++
    match listing.stage with
    | .name => []
    | .type name modifiers => name :: modifiers
    | .separator parameter => parameter.tokens)

/-- The parameters so far follow the grammar. -/
structure Grammatical (listing : OpenParameters) : Prop where
  opening : listing.opening.kind = .parenOpen
  entries : ∀ entry ∈ listing.entries, entry.1.Grammatical
  commas : ∀ entry ∈ listing.entries, entry.2.kind = .comma
  stage : match listing.stage with
    | .name => True
    | .type name modifiers => name.isLowerName = true ∧ ModifierRow modifiers
    | .separator parameter => parameter.Grammatical

end OpenParameters

namespace OpenSignature

/-- The tokens that have been taken. -/
def tokens : OpenSignature → List Token
  | named name => [name]
  | parameters name listing => name :: listing.tokens
  | typed name listing modifiers =>
    name :: ((listing.map ParameterListing.tokens).getD [] ++ modifiers)

/-- The property or endpoint so far follows the grammar. -/
def Grammatical : OpenSignature → Prop
  | named name => name.isLowerName = true
  | parameters name listing => name.isLowerName = true ∧ listing.Grammatical
  | typed name listing modifiers =>
    name.isLowerName = true ∧ (∀ entry ∈ listing, entry.Grammatical) ∧ ModifierRow modifiers

end OpenSignature

namespace OpenBody

/-- The tokens that have been taken. -/
def tokens : OpenBody → List Token
  | enum values => values
  | union options modifiers => options.flatMap TypeReference.tokens ++ modifiers
  | struct fields pending =>
    fields.flatMap TypedName.tokens ++ (pending.map fun entry => entry.1 :: entry.2).getD []
  | resolver properties pending =>
    properties.flatMap Signature.tokens ++ (pending.map OpenSignature.tokens).getD []

/-- The members so far follow the grammar. -/
def Grammatical : OpenBody → Prop
  | enum values => ∀ value ∈ values, value.isLowerName = true
  | union options modifiers => (∀ option ∈ options, option.Grammatical) ∧ ModifierRow modifiers
  | struct fields pending =>
    (∀ field ∈ fields, field.Grammatical) ∧
      ∀ entry ∈ pending, entry.1.isLowerName = true ∧ ModifierRow entry.2
  | resolver properties pending =>
    (∀ property ∈ properties, property.Grammatical) ∧ ∀ signature ∈ pending, signature.Grammatical

/-- The keyword that a declaration with such members begins with. -/
def keyword : OpenBody → Keyword
  | enum _ => .enum
  | union _ _ => .union
  | struct _ _ => .struct
  | resolver _ _ => .resolver

end OpenBody

/-- The keyword that a declaration with braces begins with. -/
def BlockKind.keyword : BlockKind → Keyword
  | enum => .enum
  | union => .union
  | struct => .struct
  | resolver => .resolver

namespace OpenDeclaration

/-- The tokens that have been taken. -/
def tokens : OpenDeclaration → List Token
  | aliasName keyword | blockName _ keyword | endpointName _ keyword => [keyword]
  | aliasEquals keyword name | blockBrace _ keyword name => [keyword, name]
  | aliasTarget keyword name equals => [keyword, name, equals]
  | blockBody keyword name opening body => keyword :: name :: opening :: body.tokens
  | endpoint _ keyword signature => keyword :: signature.tokens

/-- The declaration so far follows the grammar. -/
def Grammatical : OpenDeclaration → Prop
  | aliasName keyword => keyword.kind = .keyword .typeAlias
  | aliasEquals keyword name => keyword.kind = .keyword .typeAlias ∧ name.kind = .typeName
  | aliasTarget keyword name equals =>
    keyword.kind = .keyword .typeAlias ∧ name.kind = .typeName ∧ equals.kind = .equals
  | blockName kind keyword => keyword.kind = .keyword kind.keyword
  | blockBrace kind keyword name => keyword.kind = .keyword kind.keyword ∧ name.kind = .typeName
  | blockBody keyword name opening body =>
    keyword.kind = .keyword body.keyword ∧ name.kind = .typeName ∧ opening.kind = .braceOpen ∧
      body.Grammatical
  | endpointName kind keyword => keyword.kind = .keyword kind.keyword
  | endpoint kind keyword signature =>
    keyword.kind = .keyword kind.keyword ∧ signature.Grammatical

end OpenDeclaration

namespace Reading

/-- The tokens that have been taken. -/
def tokens : Reading → List Token
  | start => []
  | headed keyword => [keyword]
  | body header declarations pending =>
    header.tokens ++ declarations.flatMap Declaration.tokens ++
      (pending.map OpenDeclaration.tokens).getD []

/-- The document so far follows the grammar. -/
def Grammatical : Reading → Prop
  | start => True
  | headed keyword => keyword.kind = .keyword .schema
  | body header declarations pending =>
    header.Grammatical ∧ (∀ declaration ∈ declarations, declaration.Grammatical) ∧
      ∀ declaration ∈ pending, declaration.Grammatical

end Reading

/-! ### What a step keeps -/

/-- A list all of whose entries are good, and one more. -/
theorem forall_mem_append_singleton {α : Type} {Good : α → Prop} {entries : List α} {entry : α}
    (h : ∀ other ∈ entries, Good other) (hentry : Good entry) :
    ∀ other ∈ entries ++ [entry], Good other := by
  intro other hother
  rcases List.mem_append.mp hother with hother | hother
  · exact h other hother
  · rw [List.mem_singleton.mp hother]
    exact hentry

theorem TypeReference.step_keeps {modifiers : List Token} {token : Token}
    {result : Progress (List Token) TypeReference} (h : step modifiers token = some result)
    (row : ModifierRow modifiers) :
    result.Keeps ModifierRow id Grammatical tokens (modifiers ++ [token]) := by
  have hlast (hkind : token.kind = .questionMark ∨ token.kind = .listMarker)
      (hjoint : ∀ before ∈ modifiers.getLast?, Outline.MayPrecede before.kind token.kind) :
      ModifierRow (modifiers ++ [token]) := by
    refine ⟨forall_mem_append_singleton row.modifier hkind,
      List.isChain_append.mpr ⟨row.single, .singleton _, ?_⟩⟩
    intro before hbefore after hafter
    obtain rfl : token = after := by simpa using hafter
    exact hjoint before hbefore
  unfold step at h
  split at h
  case h_1 hkind =>
    split at h
    · cases h
    case isFalse hends =>
      -- there is no question mark before this one
      obtain rfl := Option.some.inj h
      refine ⟨hlast (.inl hkind) ?_, rfl⟩
      rintro before hbefore ⟨hquestion, -⟩
      rw [endsOptional, Option.mem_def.mp hbefore, Option.map_some, hquestion] at hends
      exact hends rfl
  case h_2 hkind =>
    obtain rfl := Option.some.inj h
    refine ⟨hlast (.inr hkind) ?_, rfl⟩
    rintro before - ⟨-, hquestion⟩
    rw [hkind] at hquestion
    cases hquestion
  case h_3 hkind =>
    obtain rfl := Option.some.inj h
    exact ⟨⟨row, hkind⟩, rfl⟩
  case h_4 => cases h

theorem modifierRow_nil : ModifierRow [] :=
  ⟨by simp, .nil⟩

/-- A row of tokens is read as a designation if and only if it is the row of a grammatical one. -/
theorem TypeReference.feeds_iff {row : List Token} {type : TypeReference} :
    Feeds step [] row (.done type) ↔ type.Grammatical ∧ type.tokens = row := by
  constructor
  · exact fun h => h.keeps (fun _ _ _ hstep hrow => step_keeps hstep hrow) modifierRow_nil
  · rintro ⟨hgrammatical, rfl⟩
    exact hgrammatical.feeds

theorem OpenParameters.step_keeps {listing : OpenParameters} {token : Token}
    {result : Progress OpenParameters ParameterListing} (h : listing.step token = some result)
    (good : listing.Grammatical) :
    result.Keeps Grammatical tokens ParameterListing.Grammatical ParameterListing.tokens
      (listing.tokens ++ [token]) := by
  obtain ⟨opening, entries, stage⟩ := listing
  obtain ⟨hopening, hentries, hcommas, hstage⟩ := good
  cases stage with
  | name =>
    simp only [step, Option.ite_none_right_eq_some] at h
    obtain ⟨hname, h⟩ := h
    obtain rfl := Option.some.inj h
    exact ⟨⟨hopening, hentries, hcommas, hname, modifierRow_nil⟩, by simp [tokens]⟩
  | type name modifiers =>
    obtain ⟨hname, hrow⟩ := hstage
    simp only [step, Option.map_eq_some_iff] at h
    obtain ⟨inner, hinner, rfl⟩ := h
    have hkeeps := TypeReference.step_keeps hinner hrow
    cases inner with
    | more next =>
      obtain ⟨hnext, rfl⟩ := hkeeps
      exact ⟨⟨hopening, hentries, hcommas, hname, hnext⟩, by simp [tokens]⟩
    | done type =>
      obtain ⟨htype, htokens⟩ := hkeeps
      exact ⟨⟨hopening, hentries, hcommas, hname, htype⟩,
        by simp [tokens, TypedName.tokens, htokens]⟩
  | separator parameter =>
    have hall : ∀ entry ∈ entries ++ [(parameter, token)], entry.1.Grammatical :=
      forall_mem_append_singleton hentries hstage
    simp only [step] at h
    split at h
    case h_1 hkind =>
      -- a comma, and the next parameter
      obtain rfl := Option.some.inj h
      exact ⟨⟨hopening, hall, forall_mem_append_singleton hcommas hkind, trivial⟩, by simp [tokens]⟩
    case h_2 hkind =>
      -- the closing parenthesis
      obtain rfl := Option.some.inj h
      exact ⟨⟨hopening, .append_last hcommas hkind, hall⟩,
        by simp [tokens, ParameterListing.tokens]⟩
    case h_3 => cases h

theorem OpenSignature.typeStep_keeps {name token : Token} {listing : Option ParameterListing}
    {modifiers : List Token} {result : Progress OpenSignature Signature}
    (h : typeStep name listing modifiers token = some result) (hname : name.isLowerName = true)
    (hlisting : ∀ entry ∈ listing, entry.Grammatical) (hrow : ModifierRow modifiers) :
    result.Keeps Grammatical tokens Signature.Grammatical Signature.tokens
      ((typed name listing modifiers).tokens ++ [token]) := by
  simp only [typeStep, Option.map_eq_some_iff] at h
  obtain ⟨inner, hinner, rfl⟩ := h
  have hkeeps := TypeReference.step_keeps hinner hrow
  cases inner with
  | more next =>
    obtain ⟨hnext, rfl⟩ := hkeeps
    exact ⟨⟨hname, hlisting, hnext⟩, by simp [tokens]⟩
  | done type =>
    obtain ⟨htype, htokens⟩ := hkeeps
    exact ⟨⟨hname, hlisting, htype⟩, by simp [tokens, Signature.tokens, htokens]⟩

theorem OpenSignature.step_keeps {signature : OpenSignature} {token : Token}
    {result : Progress OpenSignature Signature} (h : signature.step token = some result)
    (good : signature.Grammatical) :
    result.Keeps Grammatical tokens Signature.Grammatical Signature.tokens
      (signature.tokens ++ [token]) := by
  cases signature with
  | named name =>
    rw [step] at h
    split at h
    case isTrue hkind =>
      obtain rfl := Option.some.inj h
      exact ⟨⟨good, hkind, by simp, by simp, trivial⟩, by simp [tokens, OpenParameters.tokens]⟩
    case isFalse => exact typeStep_keeps h good (by simp) modifierRow_nil
  | parameters name listing =>
    obtain ⟨hname, hlisting⟩ := good
    simp only [step, Option.map_eq_some_iff] at h
    obtain ⟨inner, hinner, rfl⟩ := h
    have hkeeps := OpenParameters.step_keeps hinner hlisting
    cases inner with
    | more next =>
      obtain ⟨hnext, htokens⟩ := hkeeps
      exact ⟨⟨hname, hnext⟩, by simp [tokens, htokens]⟩
    | done value =>
      obtain ⟨hvalue, htokens⟩ := hkeeps
      exact ⟨⟨hname, by simpa using hvalue, modifierRow_nil⟩, by simp [tokens, htokens]⟩
  | typed name listing modifiers =>
    obtain ⟨hname, hlisting, hrow⟩ := good
    exact typeStep_keeps h hname hlisting hrow

/-- What a token makes of members: more of them in a declaration of the same kind, or all of them,
in which case it is the closing brace. -/
def OpenBody.Follows (body : OpenBody) (token : Token) : Progress OpenBody Body → Prop
  | .more next =>
    next.Grammatical ∧ next.tokens = body.tokens ++ [token] ∧ next.keyword = body.keyword
  | .done value =>
    value.Grammatical ∧ value.tokens = body.tokens ∧ value.keyword = body.keyword ∧
      token.kind = .braceClose

theorem OpenBody.enum_follows {values : List Token} {token : Token}
    {result : Progress OpenBody Body} (h : (enum values).step token = some result)
    (good : (enum values).Grammatical) : (enum values).Follows token result := by
  rw [step] at h
  by_cases hkind : token.kind = .braceClose
  · rw [if_pos hkind] at h
    obtain rfl := Option.some.inj h
    exact ⟨good, rfl, rfl, hkind⟩
  · rw [if_neg hkind] at h
    obtain ⟨hname, h⟩ := Option.ite_none_right_eq_some.mp h
    obtain rfl := Option.some.inj h
    exact ⟨forall_mem_append_singleton good hname, rfl, rfl⟩

theorem OpenBody.union_follows {options : List TypeReference} {modifiers : List Token}
    {token : Token} {result : Progress OpenBody Body}
    (h : (union options modifiers).step token = some result)
    (good : (union options modifiers).Grammatical) :
    (union options modifiers).Follows token result := by
  obtain ⟨hoptions, hrow⟩ := good
  rw [step] at h
  by_cases hkind : token.kind = .braceClose ∧ modifiers = []
  · -- a union ends between two options only
    rw [if_pos hkind] at h
    obtain ⟨hkind, rfl⟩ := hkind
    obtain rfl := Option.some.inj h
    exact ⟨hoptions, by simp [tokens, Body.tokens], rfl, hkind⟩
  · rw [if_neg hkind] at h
    obtain ⟨inner, hinner, rfl⟩ := Option.map_eq_some_iff.mp h
    have hkeeps := TypeReference.step_keeps hinner hrow
    cases inner with
    | more next =>
      obtain ⟨hnext, rfl⟩ := hkeeps
      exact ⟨⟨hoptions, hnext⟩, by simp [tokens], rfl⟩
    | done type =>
      obtain ⟨htype, htokens⟩ := hkeeps
      exact ⟨⟨forall_mem_append_singleton hoptions htype, modifierRow_nil⟩,
        by simp [tokens, htokens], rfl⟩

theorem OpenBody.struct_follows {fields : List TypedName} {pending : Option (Token × List Token)}
    {token : Token} {result : Progress OpenBody Body}
    (h : (struct fields pending).step token = some result)
    (good : (struct fields pending).Grammatical) :
    (struct fields pending).Follows token result := by
  obtain ⟨hfields, hpending⟩ := good
  cases pending with
  | none =>
    rw [step] at h
    by_cases hkind : token.kind = .braceClose
    · rw [if_pos hkind] at h
      obtain rfl := Option.some.inj h
      exact ⟨hfields, by simp [tokens, Body.tokens], rfl, hkind⟩
    · rw [if_neg hkind] at h
      obtain ⟨hname, h⟩ := Option.ite_none_right_eq_some.mp h
      obtain rfl := Option.some.inj h
      exact ⟨⟨hfields, by simpa using ⟨hname, modifierRow_nil⟩⟩, by simp [tokens], rfl⟩
  | some entry =>
    obtain ⟨name, modifiers⟩ := entry
    obtain ⟨hname, hrow⟩ := hpending _ rfl
    obtain ⟨inner, hinner, rfl⟩ := Option.map_eq_some_iff.mp h
    have hkeeps := TypeReference.step_keeps hinner hrow
    cases inner with
    | more next =>
      obtain ⟨hnext, rfl⟩ := hkeeps
      exact ⟨⟨hfields, by simpa using ⟨hname, hnext⟩⟩, by simp [tokens], rfl⟩
    | done type =>
      obtain ⟨htype, htokens⟩ := hkeeps
      exact ⟨⟨forall_mem_append_singleton hfields ⟨hname, htype⟩, by simp⟩,
        by simp [tokens, TypedName.tokens, htokens], rfl⟩

theorem OpenBody.resolver_follows {properties : List Signature} {pending : Option OpenSignature}
    {token : Token} {result : Progress OpenBody Body}
    (h : (resolver properties pending).step token = some result)
    (good : (resolver properties pending).Grammatical) :
    (resolver properties pending).Follows token result := by
  obtain ⟨hproperties, hpending⟩ := good
  cases pending with
  | none =>
    rw [step] at h
    by_cases hkind : token.kind = .braceClose
    · rw [if_pos hkind] at h
      obtain rfl := Option.some.inj h
      exact ⟨hproperties, by simp [tokens, Body.tokens], rfl, hkind⟩
    · rw [if_neg hkind] at h
      obtain ⟨hname, h⟩ := Option.ite_none_right_eq_some.mp h
      obtain rfl := Option.some.inj h
      have hopened : OpenSignature.Grammatical (.named token) := hname
      exact ⟨⟨hproperties, by simpa using hopened⟩, by simp [tokens, OpenSignature.tokens], rfl⟩
  | some signature =>
    obtain ⟨inner, hinner, rfl⟩ := Option.map_eq_some_iff.mp h
    have hkeeps := OpenSignature.step_keeps hinner (hpending _ rfl)
    cases inner with
    | more next =>
      obtain ⟨hnext, htokens⟩ := hkeeps
      exact ⟨⟨hproperties, by simpa using hnext⟩, by simp [tokens, htokens], rfl⟩
    | done property =>
      obtain ⟨hproperty, htokens⟩ := hkeeps
      exact ⟨⟨forall_mem_append_singleton hproperties hproperty, by simp⟩,
        by simp [tokens, htokens], rfl⟩

theorem OpenBody.step_follows {body : OpenBody} {token : Token} {result : Progress OpenBody Body}
    (h : body.step token = some result) (good : body.Grammatical) :
    body.Follows token result := by
  cases body with
  | enum values => exact enum_follows h good
  | union options modifiers => exact union_follows h good
  | struct fields pending => exact struct_follows h good
  | resolver properties pending => exact resolver_follows h good

theorem OpenBody.empty_keeps (kind : BlockKind) :
    (empty kind).Grammatical ∧ (empty kind).tokens = [] ∧ (empty kind).keyword = kind.keyword := by
  cases kind
  · exact ⟨by simp [empty, Grammatical], rfl, rfl⟩
  · exact ⟨⟨by simp, modifierRow_nil⟩, rfl, rfl⟩
  · exact ⟨⟨by simp, by simp⟩, rfl, rfl⟩
  · exact ⟨⟨by simp, by simp⟩, rfl, rfl⟩

theorem OpenDeclaration.step_keeps {declaration : OpenDeclaration} {token : Token}
    {result : Progress OpenDeclaration Declaration} (h : declaration.step token = some result)
    (good : declaration.Grammatical) :
    result.Keeps Grammatical tokens Declaration.Grammatical Declaration.tokens
      (declaration.tokens ++ [token]) := by
  cases declaration with
  | aliasName keyword =>
    obtain ⟨hname, h⟩ := Option.ite_none_right_eq_some.mp h
    obtain rfl := Option.some.inj h
    exact ⟨⟨good, hname⟩, rfl⟩
  | aliasEquals keyword name =>
    obtain ⟨hequals, h⟩ := Option.ite_none_right_eq_some.mp h
    obtain rfl := Option.some.inj h
    exact ⟨⟨good.1, good.2, hequals⟩, rfl⟩
  | aliasTarget keyword name equals =>
    obtain ⟨htarget, h⟩ := Option.ite_none_right_eq_some.mp h
    obtain rfl := Option.some.inj h
    exact ⟨⟨good.1, good.2.1, good.2.2, htarget⟩, rfl⟩
  | blockName kind keyword =>
    obtain ⟨hname, h⟩ := Option.ite_none_right_eq_some.mp h
    obtain rfl := Option.some.inj h
    exact ⟨⟨good, hname⟩, rfl⟩
  | blockBrace kind keyword name =>
    obtain ⟨hopening, h⟩ := Option.ite_none_right_eq_some.mp h
    obtain rfl := Option.some.inj h
    obtain ⟨hempty, htokens, hkeyword⟩ := OpenBody.empty_keeps kind
    exact ⟨⟨by rw [hkeyword, good.1], good.2, hopening, hempty⟩, by simp [tokens, htokens]⟩
  | blockBody keyword name opening body =>
    -- the keyword of the block is the one for what its members are
    obtain ⟨hkeyword, hname, hopening, hbody⟩ := good
    obtain ⟨inner, hinner, rfl⟩ := Option.map_eq_some_iff.mp h
    have hkeeps := OpenBody.step_follows hinner hbody
    cases inner with
    | more next =>
      obtain ⟨hnext, htokens, hword⟩ := hkeeps
      exact ⟨⟨by rw [hword, hkeyword], hname, hopening, hnext⟩, by simp [tokens, htokens]⟩
    | done value =>
      obtain ⟨hvalue, htokens, hword, hclosing⟩ := hkeeps
      exact ⟨⟨by rw [hword, hkeyword], hname, hopening, hvalue, hclosing⟩,
        by simp [tokens, Declaration.tokens, htokens]⟩
  | endpointName kind keyword =>
    obtain ⟨hname, h⟩ := Option.ite_none_right_eq_some.mp h
    obtain rfl := Option.some.inj h
    exact ⟨⟨good, hname⟩, rfl⟩
  | endpoint kind keyword signature =>
    obtain ⟨inner, hinner, rfl⟩ := Option.map_eq_some_iff.mp h
    have hkeeps := OpenSignature.step_keeps hinner good.2
    cases inner with
    | more next =>
      obtain ⟨hnext, htokens⟩ := hkeeps
      exact ⟨⟨good.1, hnext⟩, by simp [tokens, htokens]⟩
    | done value =>
      obtain ⟨hvalue, htokens⟩ := hkeeps
      exact ⟨⟨good.1, hvalue⟩, by simp [tokens, Declaration.tokens, htokens]⟩

theorem OpenDeclaration.opened?_keeps {token : Token} {opened : OpenDeclaration}
    (h : opened? token = some opened) : opened.Grammatical ∧ opened.tokens = [token] := by
  unfold opened? at h
  split at h <;> cases h <;> exact ⟨by assumption, rfl⟩

namespace Reading

/-- Every step keeps what has been read grammatical and adds its token. -/
theorem step_keeps {reading next : Reading} {token : Token} (h : reading.step token = some next)
    (good : reading.Grammatical) :
    next.Grammatical ∧ next.tokens = reading.tokens ++ [token] := by
  cases reading with
  | start =>
    obtain ⟨hkeyword, h⟩ := Option.ite_none_right_eq_some.mp h
    obtain rfl := Option.some.inj h
    exact ⟨hkeyword, rfl⟩
  | headed keyword =>
    obtain ⟨hname, h⟩ := Option.ite_none_right_eq_some.mp h
    obtain rfl := Option.some.inj h
    exact ⟨⟨⟨good, hname⟩, by simp, by simp⟩, rfl⟩
  | body header declarations pending =>
    obtain ⟨hheader, hdeclarations, hpending⟩ := good
    cases pending with
    | none =>
      obtain ⟨opened, hopened, rfl⟩ := Option.map_eq_some_iff.mp h
      obtain ⟨hgood, htokens⟩ := OpenDeclaration.opened?_keeps hopened
      exact ⟨⟨hheader, hdeclarations, by simpa using hgood⟩, by simp [tokens, htokens]⟩
    | some opened =>
      obtain ⟨inner, hinner, rfl⟩ := Option.map_eq_some_iff.mp h
      have hkeeps := OpenDeclaration.step_keeps hinner (hpending _ rfl)
      cases inner with
      | more next =>
        obtain ⟨hnext, htokens⟩ := hkeeps
        exact ⟨⟨hheader, hdeclarations, by simpa using hnext⟩, by simp [tokens, htokens]⟩
      | done declaration =>
        obtain ⟨hdeclaration, htokens⟩ := hkeeps
        exact ⟨⟨hheader, forall_mem_append_singleton hdeclarations hdeclaration, by simp⟩,
          by simp [tokens, htokens]⟩

/-- What has been read from the start is grammatical and consists of the tokens that were taken. -/
theorem reads_keeps {reading next : Reading} {row : List Token} (h : reading.reads row = some next)
    (good : reading.Grammatical) :
    next.Grammatical ∧ next.tokens = reading.tokens ++ row := by
  induction row generalizing reading with
  | nil =>
    obtain rfl := Option.some.inj h
    exact ⟨good, by rw [List.append_nil]⟩
  | cons token row ih =>
    obtain ⟨middle, hmiddle, hrest⟩ := Option.bind_eq_some_iff.mp h
    obtain ⟨hgood, htokens⟩ := step_keeps hmiddle good
    obtain ⟨hnext, hrow⟩ := ih hrest hgood
    exact ⟨hnext, by rw [hrow, htokens, List.append_assoc, List.singleton_append]⟩

end Reading

end GraphSchema
