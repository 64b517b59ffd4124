import GraphSchema.Proofs.Document.Distinct
import GraphSchema.Proofs.Grammar.Consumed
import Mathlib.Data.List.Infix

/-!
# Problems that last

The names of a document are read one after the other, and only those of the last declaration go on
(`DeclaredNames.Grows`).  A name that was used again stays one, whatever follows, so a problem that
shows once while a document is read shows until the reading ends (`Reading.problems_lasting`).
-/

namespace GraphSchema

/-- More entries follow in a list, or its last entry grows. -/
inductive Continues {α : Type} (Grows : α → α → Prop) : List α → List α → Prop
  | more (entries back : List α) : Continues Grows entries (entries ++ back)
  | last (front : List α) {entry next : α} (grows : Grows entry next) :
      Continues Grows (front ++ [entry]) (front ++ [next])

theorem Continues.exists_grown {α : Type} {Grows : α → α → Prop} {entries others : List α}
    (h : Continues Grows entries others) (refl : ∀ entry, Grows entry entry) {entry : α}
    (mem : entry ∈ entries) : ∃ other ∈ others, Grows entry other := by
  cases h with
  | more _ back => exact ⟨entry, List.mem_append_left _ mem, refl entry⟩
  | @last front last next grows =>
    rcases List.mem_append.mp mem with mem | mem
    · exact ⟨entry, List.mem_append_left _ mem, refl entry⟩
    · rw [List.mem_singleton.mp mem]
      exact ⟨next, List.mem_append_right _ (List.mem_singleton.mpr rfl), grows⟩

/-- What is selected of the entries goes on if what grows keeps what is selected of it. -/
theorem Continues.prefix_filterMap {α β : Type} {Grows : α → α → Prop} {entries others : List α}
    (h : Continues Grows entries others) {select : α → Option β}
    (keeps : ∀ entry next, Grows entry next → ∀ found ∈ select entry, found ∈ select next) :
    entries.filterMap select <+: others.filterMap select := by
  cases h with
  | more _ back =>
    rw [List.filterMap_append]
    exact List.prefix_append _ _
  | @last front last next grows =>
    rw [List.filterMap_append, List.filterMap_append, List.prefix_append_right_inj]
    cases hlast : select last with
    | none =>
      rw [List.filterMap_cons_none hlast]
      exact List.nil_prefix
    | some found =>
      rw [List.filterMap_cons_some hlast, List.filterMap_cons_some (keeps _ _ grows found hlast)]

/-- A property keeps its name while its parameters are read. -/
def PropertyGrows (property next : Token × List Token) : Prop :=
  property.1 = next.1 ∧ property.2 <+: next.2

/-- Names of a declaration stay, and more of them follow. -/
inductive DeclaredNames.Grows : DeclaredNames → DeclaredNames → Prop
  | begins (names : DeclaredNames) : Grows nothing names
  | stays (names : DeclaredNames) : Grows names names
  | enum (name : Token) {values next : List Token} (more : values <+: next) :
      Grows (enum name values) (enum name next)
  | union (name : Token) {options next : List Designation} (more : options <+: next) :
      Grows (union name options) (union name next)
  | struct (name : Token) {fields next : List Token} (more : fields <+: next) :
      Grows (struct name fields) (struct name next)
  | resolver (name : Token) {properties next : List (Token × List Token)}
      (more : Continues PropertyGrows properties next) :
      Grows (resolver name properties) (resolver name next)
  | endpoint (name : Token) {parameters next : List Token} (more : parameters <+: next) :
      Grows (endpoint name parameters) (endpoint name next)

/-! ### What is reported about names -/

namespace DeclaredNames

theorem repeats_map_subset {α κ : Type} [DecidableEq κ] {key : α → κ} {report : α × α → Problem}
    {entries others : List α} (h : entries <+: others) :
    (repeats key entries).map report ⊆ (repeats key others).map report :=
  List.map_subset _ (prefix_repeats key h).subset

theorem parameterProblems_subset {nodeName : String} {parameters next : List Token}
    (h : parameters <+: next) :
    parameterProblems nodeName parameters ⊆ parameterProblems nodeName next :=
  repeats_map_subset h

/-- The repeated properties are those with repeated names. -/
theorem propertyProblems_eq (name : Token) (properties : List (Token × List Token)) :
    ((repeats (fun property => property.1.text) properties).map fun (first, again) =>
      Problem.propertyRedeclared name.text again.1.text again.1.start first.1.start) =
    (repeats Token.text (properties.map Prod.fst)).map fun (first, again) =>
      .propertyRedeclared name.text again.text again.start first.start := by
  rw [repeats_map, List.map_map]
  rfl

theorem Grows.memberProblems_subset {names next : DeclaredNames} (h : names.Grows next) :
    names.memberProblems ⊆ next.memberProblems := by
  cases h with
  | begins => exact List.nil_subset _
  | stays => exact List.Subset.refl _
  | enum name more => exact repeats_map_subset more
  | union name more => exact repeats_map_subset more
  | struct name more => exact repeats_map_subset more
  | @resolver name properties next more =>
    have hnames : properties.map Prod.fst <+: next.map Prod.fst := by
      rw [← List.filterMap_eq_map]
      refine more.prefix_filterMap ?_
      rintro property grown ⟨hname, -⟩ found hfound
      rw [Function.comp_apply] at hfound ⊢
      rwa [← hname]
    rw [memberProblems, memberProblems, propertyProblems_eq, propertyProblems_eq]
    refine List.append_subset.mpr
      ⟨List.subset_append_of_subset_left _ (repeats_map_subset hnames),
        List.subset_append_of_subset_right _ ?_⟩
    intro problem hproblem
    obtain ⟨property, hproperty, hproblem⟩ := List.mem_flatMap.mp hproblem
    obtain ⟨grown, hgrown, hname, hparameters⟩ :=
      more.exists_grown (fun _ => ⟨rfl, List.prefix_rfl⟩) hproperty
    rw [hname] at hproblem
    exact List.mem_flatMap.mpr ⟨grown, hgrown, parameterProblems_subset hparameters hproblem⟩
  | endpoint name more => exact parameterProblems_subset more

theorem Grows.typeName? {names next : DeclaredNames} (h : names.Grows next) {name : Token}
    (hname : name ∈ names.typeName?) : name ∈ next.typeName? := by
  cases h with
  | begins => cases hname
  | stays | enum | union | struct | resolver | endpoint => exact hname

theorem Grows.endpointName? {names next : DeclaredNames} (h : names.Grows next) {name : Token}
    (hname : name ∈ names.endpointName?) : name ∈ next.endpointName? := by
  cases h with
  | begins => cases hname
  | stays | enum | union | struct | resolver | endpoint => exact hname

theorem typeProblems_subset {names next : List Token} (h : names <+: next) :
    typeProblems names ⊆ typeProblems next := by
  unfold typeProblems
  rw [List.partition_eq_filter_filter, List.partition_eq_filter_filter]
  exact List.append_subset.mpr
    ⟨List.subset_append_of_subset_left _ (List.map_subset _ (h.filter _).subset),
      List.subset_append_of_subset_right _ (repeats_map_subset (h.filter _))⟩

/-- A problem with names stays when more names follow. -/
theorem problems_subset {names next : List DeclaredNames} (h : Continues Grows names next) :
    problems names ⊆ problems next := by
  have htypes := h.prefix_filterMap fun _ _ grows _ => grows.typeName?
  have hendpoints := h.prefix_filterMap fun _ _ grows _ => grows.endpointName?
  intro problem hproblem
  rcases List.mem_append.mp hproblem with hproblem | hproblem
  · refine List.mem_append_left _ ?_
    rcases List.mem_append.mp hproblem with hproblem | hproblem
    · exact List.mem_append_left _ (typeProblems_subset htypes hproblem)
    · exact List.mem_append_right _ (repeats_map_subset hendpoints hproblem)
  · obtain ⟨declared, hdeclared, hproblem⟩ := List.mem_flatMap.mp hproblem
    obtain ⟨grown, hgrown, grows⟩ := h.exists_grown .stays hdeclared
    exact List.mem_append_right _
      (List.mem_flatMap.mpr ⟨grown, hgrown, grows.memberProblems_subset hproblem⟩)

end DeclaredNames

/-! ### What a step adds to the names -/

/-- What is open, and what is finished, has a property. -/
def Progress.All {σ α : Type} (Open : σ → Prop) (Done : α → Prop) : Progress σ α → Prop
  | more state => Open state
  | done value => Done value

theorem OpenParameters.step_names {listing : OpenParameters} {token : Token}
    {result : Progress OpenParameters ParameterListing} (h : listing.step token = some result) :
    result.All (fun next => listing.names <+: next.names)
      fun value => listing.names <+: value.entries.map fun entry => entry.1.name := by
  obtain ⟨opening, entries, stage⟩ := listing
  cases stage with
  | name =>
    obtain ⟨-, h⟩ := Option.ite_none_right_eq_some.mp h
    obtain rfl := Option.some.inj h
    exact List.prefix_rfl
  | type name modifiers =>
    obtain ⟨inner, -, rfl⟩ := Option.map_eq_some_iff.mp h
    cases inner with
    | more next => exact List.prefix_rfl
    | done type =>
      -- the parameter is complete
      show entries.map (fun entry => entry.1.name) ++ [] <+: _
      rw [List.append_nil]
      exact List.prefix_append _ _
  | separator parameter =>
    have hnames : names ⟨opening, entries, .separator parameter⟩ =
        (entries ++ [(parameter, token)]).map fun entry => entry.1.name := by
      rw [List.map_append]
      rfl
    simp only [step] at h
    split at h
    case h_1 =>
      obtain rfl := Option.some.inj h
      rw [hnames]
      exact List.prefix_append _ _
    case h_2 =>
      obtain rfl := Option.some.inj h
      rw [hnames]
      exact List.prefix_rfl
    case h_3 => cases h

theorem OpenSignature.typeStep_names {name token : Token} {listing : Option ParameterListing}
    {modifiers : List Token} {result : Progress OpenSignature Signature}
    (h : typeStep name listing modifiers token = some result) :
    result.All (fun next => PropertyGrows (typed name listing modifiers).names next.names)
      fun value => PropertyGrows (typed name listing modifiers).names value.names := by
  obtain ⟨inner, -, rfl⟩ := Option.map_eq_some_iff.mp h
  cases inner with
  | more next => cases listing <;> exact ⟨rfl, List.prefix_rfl⟩
  | done type =>
    cases listing with
    | none => exact ⟨rfl, List.prefix_rfl⟩
    | some listing =>
      have hnames : (⟨name, some listing, type⟩ : Signature).names.2 =
          listing.entries.map fun entry => entry.1.name := List.map_map
      refine ⟨rfl, ?_⟩
      show (typed name (some listing) modifiers).names.2 <+:
        (⟨name, some listing, type⟩ : Signature).names.2
      rw [hnames]
      exact List.prefix_rfl

theorem OpenSignature.step_names {signature : OpenSignature} {token : Token}
    {result : Progress OpenSignature Signature} (h : signature.step token = some result) :
    result.All (fun next => PropertyGrows signature.names next.names)
      fun value => PropertyGrows signature.names value.names := by
  cases signature with
  | named name =>
    rw [step] at h
    split at h
    case isTrue =>
      obtain rfl := Option.some.inj h
      exact ⟨rfl, List.nil_prefix⟩
    case isFalse => exact typeStep_names h
  | parameters name listing =>
    obtain ⟨inner, hinner, rfl⟩ := Option.map_eq_some_iff.mp h
    have hnames := OpenParameters.step_names hinner
    cases inner with
    | more next => exact ⟨rfl, hnames⟩
    | done value => exact ⟨rfl, hnames⟩
  | typed name listing modifiers => exact typeStep_names h

/-- Between two properties. -/
theorem OpenBody.names_resolver (name : Token) (properties : List Signature) :
    (resolver properties none).names name = .resolver name (properties.map Signature.names) :=
  congrArg (DeclaredNames.resolver name) (List.append_nil _)

theorem OpenBody.step_names {body : OpenBody} {token : Token} {result : Progress OpenBody Body}
    (name : Token) (h : body.step token = some result) :
    result.All (fun next => (body.names name).Grows (next.names name))
      fun value => (body.names name).Grows (value.names name) := by
  cases body with
  | enum values =>
    rw [step] at h
    split at h
    · obtain rfl := Option.some.inj h
      exact .stays _
    · obtain ⟨-, h⟩ := Option.ite_none_right_eq_some.mp h
      obtain rfl := Option.some.inj h
      exact .enum name (List.prefix_append _ _)
  | union options modifiers =>
    rw [step] at h
    split at h
    · obtain rfl := Option.some.inj h
      exact .stays _
    · obtain ⟨inner, -, rfl⟩ := Option.map_eq_some_iff.mp h
      cases inner with
      | more next => exact .stays _
      | done type => exact .union name ((List.prefix_append _ _).map _)
  | struct fields pending =>
    cases pending with
    | none =>
      rw [step] at h
      split at h
      · obtain rfl := Option.some.inj h
        exact .stays _
      · obtain ⟨-, h⟩ := Option.ite_none_right_eq_some.mp h
        obtain rfl := Option.some.inj h
        exact .stays _
    | some entry =>
      obtain ⟨inner, -, rfl⟩ := Option.map_eq_some_iff.mp h
      cases inner with
      | more next => exact .stays _
      | done type => exact .struct name ((List.prefix_append _ _).map _)
  | resolver properties pending =>
    cases pending with
    | none =>
      rw [names_resolver]
      rw [step] at h
      split at h
      · obtain rfl := Option.some.inj h
        exact .stays _
      · obtain ⟨-, h⟩ := Option.ite_none_right_eq_some.mp h
        obtain rfl := Option.some.inj h
        exact .resolver name (.more _ _)
    | some signature =>
      obtain ⟨inner, hinner, rfl⟩ := Option.map_eq_some_iff.mp h
      have hnames := OpenSignature.step_names hinner
      cases inner with
      | more next => exact .resolver name (.last _ hnames)
      | done property =>
        show DeclaredNames.Grows _ ((resolver (properties ++ [property]) none).names name)
        rw [names_resolver, List.map_append]
        exact .resolver name (.last _ hnames)

theorem OpenDeclaration.step_names {declaration : OpenDeclaration} {token : Token}
    {result : Progress OpenDeclaration Declaration} (h : declaration.step token = some result) :
    result.All (fun next => declaration.names.Grows next.names)
      fun value => declaration.names.Grows value.names := by
  cases declaration with
  | aliasName keyword | aliasEquals keyword name | aliasTarget keyword name equals
  | blockName kind keyword | endpointName kind keyword =>
    obtain ⟨-, h⟩ := Option.ite_none_right_eq_some.mp h
    obtain rfl := Option.some.inj h
    exact .begins _
  | blockBrace kind keyword name =>
    obtain ⟨-, h⟩ := Option.ite_none_right_eq_some.mp h
    obtain rfl := Option.some.inj h
    exact .stays _
  | blockBody keyword name opening body =>
    obtain ⟨inner, hinner, rfl⟩ := Option.map_eq_some_iff.mp h
    have hnames := OpenBody.step_names name hinner
    cases inner with
    | more next => exact hnames
    | done value => exact hnames
  | endpoint kind keyword signature =>
    obtain ⟨inner, hinner, rfl⟩ := Option.map_eq_some_iff.mp h
    have hnames := OpenSignature.step_names hinner
    cases inner with
    | more next =>
      obtain ⟨hname, hparameters⟩ := hnames
      show DeclaredNames.Grows _ (.endpoint next.names.1 next.names.2)
      rw [← hname]
      exact .endpoint _ hparameters
    | done value =>
      obtain ⟨hname, hparameters⟩ := hnames
      show DeclaredNames.Grows _ (.endpoint value.names.1 value.names.2)
      rw [← hname]
      exact .endpoint _ hparameters

namespace Reading

/-- Between two declarations. -/
theorem names_body (header : Header) (declarations : List Declaration) :
    (body header declarations none).names = declarations.map Declaration.names :=
  List.append_nil _

/-- The problems that show between two declarations. -/
theorem problems_body (header : Header) (declarations : List Declaration) :
    (body header declarations none).problems =
      DeclaredNames.typeProblems (declarations.filterMap Declaration.typeName?) ++
      DeclaredNames.endpointProblems (declarations.filterMap Declaration.endpointName?) ++
      declarations.flatMap (fun declaration => declaration.names.memberProblems) ++
      declarations.flatMap Declaration.shortages := by
  rw [problems, names_body, DeclaredNames.problems, Document.typeNames_eq,
    Document.endpointNames_eq, List.flatMap_map]
  rfl

/-- A step adds to the names of the last declaration, and finishes one declaration at most. -/
theorem step_names {reading next : Reading} {token : Token} (h : reading.step token = some next) :
    Continues DeclaredNames.Grows reading.names next.names ∧
      reading.declarations <+: next.declarations := by
  cases reading with
  | start =>
    obtain ⟨-, h⟩ := Option.ite_none_right_eq_some.mp h
    obtain rfl := Option.some.inj h
    exact ⟨.more [] [], List.prefix_rfl⟩
  | headed keyword =>
    obtain ⟨-, h⟩ := Option.ite_none_right_eq_some.mp h
    obtain rfl := Option.some.inj h
    exact ⟨.more [] [], List.prefix_rfl⟩
  | body header declarations pending =>
    cases pending with
    | none =>
      obtain ⟨opened, -, rfl⟩ := Option.map_eq_some_iff.mp h
      rw [names_body]
      exact ⟨.more _ _, List.prefix_rfl⟩
    | some opened =>
      obtain ⟨inner, hinner, rfl⟩ := Option.map_eq_some_iff.mp h
      have hgrows := OpenDeclaration.step_names hinner
      cases inner with
      | more next => exact ⟨.last _ hgrows, List.prefix_rfl⟩
      | done declaration =>
        refine ⟨?_, List.prefix_append _ _⟩
        show Continues _ _ (body header (declarations ++ [declaration]) none).names
        rw [names_body, List.map_append]
        exact .last _ hgrows

/-- A problem that shows stays when a token is taken. -/
theorem problems_subset_of_step {reading next : Reading} {token : Token}
    (h : reading.step token = some next) : reading.problems ⊆ next.problems := by
  obtain ⟨hnames, hdeclarations⟩ := step_names h
  exact List.append_subset.mpr
    ⟨List.subset_append_of_subset_left _ (DeclaredNames.problems_subset hnames),
      List.subset_append_of_subset_right _
        (hdeclarations.flatMap Declaration.shortages).subset⟩

/-- A problem that shows once shows until the reading ends. -/
theorem problems_lasting {reading next : Reading} {row : List Token}
    (h : reading.reads row = some next) : reading.problems ⊆ next.problems := by
  induction row generalizing reading with
  | nil =>
    obtain rfl := Option.some.inj h
    exact List.Subset.refl _
  | cons token row ih =>
    obtain ⟨middle, hmiddle, hrest⟩ := Option.bind_eq_some_iff.mp h
    exact List.Subset.trans (problems_subset_of_step hmiddle) (ih hrest)

end Reading

end GraphSchema
