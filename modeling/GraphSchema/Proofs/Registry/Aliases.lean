import GraphSchema.Proofs.Acceptance.Naming

/-!
# Aliases of a registry

When the references of a registry are filled in, an alias stands for the type with the name of its
target, if there is one (`Registry.Records.alias_spec`).  So an alias never stands for a container
(`Registry.Records.exists_named_of_step`), and the steps of aliases by number are those by name
(`Registry.Records.reaches_iff`).  References whose name is not known make no difference here.
-/

namespace GraphSchema.Registry

open Relation

variable {registry : Registry} {declarations : List Declaration} {name : String} {id : TypeId}

/-! ### What an alias stands for -/

/-- An alias is declared with the name of its target, and stands for the type with that name. -/
theorem Records.alias_spec (h : Records declarations registry) (filled : registry.Filled)
    {type : DeclaredType} (htype : type ∈ registry.types.declared) {target : Designation}
    {aliased : Option TypeId} (hbody : type.body = .typeAlias target aliased) :
    Document.Aliases declarations type.name target.terminal ∧
      aliased = (registry.types.named? target.terminal).map SchemaType.id := by
  have hfilled := filled.types type htype
  rcases h.of_declared htype with
    ⟨keyword, token, equals, written, other, hwritten, htoken, hrecorded⟩ |
      ⟨_, token, _, body, _, _, _, hrecorded⟩
  · rw [hbody] at hfilled hrecorded
    obtain ⟨rfl, -⟩ := TypeBody.typeAlias.inj hrecorded
    refine ⟨?_, hfilled⟩
    rw [← htoken]
    exact .mk hwritten
  · rw [hbody] at hrecorded
    exact hrecorded.not_alias.elim

/-- What is written as an alias is declared with the name of its target. -/
theorem Records.exists_alias (h : Records declarations registry) {next : String}
    (aliases : Document.Aliases declarations name next) :
    ∃ type ∈ registry.types.declared, type.name = name ∧
      ∃ target aliased, type.body = .typeAlias target aliased ∧ target.terminal = next := by
  obtain ⟨hmem⟩ := aliases
  obtain ⟨type, htype, hname, aliased, hbody⟩ := h.of_alias hmem
  exact ⟨type, htype, hname, _, aliased, hbody, rfl⟩

/-- The step of an alias leads to a name. -/
theorem Records.aliases_of_step (h : Records declarations registry) (filled : registry.Filled)
    (consistent : registry.Consistent) (named : registry.Named name id) {other : TypeId}
    (step : registry.types.AliasStep id other) :
    ∃ next, registry.Named next other ∧ Document.Aliases declarations name next := by
  obtain ⟨found, hfound, haliased⟩ := step
  obtain ⟨type, target, rfl, hbody⟩ := SchemaType.exists_alias haliased
  obtain ⟨hmem, rfl⟩ := consistent.types.type?_eq_some_iff.mp hfound
  have htype := TypeTable.declared_mem_types_iff.mp hmem
  obtain ⟨haliases, hother⟩ := h.alias_spec filled htype hbody
  obtain ⟨base, hbase, rfl⟩ := Option.map_eq_some_iff.mp hother.symm
  rw [consistent.named_left named (consistent.named_declared htype)]
  exact ⟨target.terminal, ⟨base, hbase, rfl⟩, haliases⟩

/-- Aliases lead to types that have names. -/
theorem Records.exists_named_of_step (h : Records declarations registry) (filled : registry.Filled)
    (consistent : registry.Consistent) {other : TypeId}
    (step : registry.types.AliasStep id other) : ∃ name, registry.Named name other := by
  obtain ⟨found, hfound, haliased⟩ := step
  obtain ⟨type, -, rfl, -⟩ := SchemaType.exists_alias haliased
  obtain ⟨hmem, rfl⟩ := consistent.types.type?_eq_some_iff.mp hfound
  have hnamed := consistent.named_declared (TypeTable.declared_mem_types_iff.mp hmem)
  obtain ⟨name, hname, -⟩ :=
    h.aliases_of_step filled consistent hnamed ⟨.declared type, hfound, haliased⟩
  exact ⟨name, hname⟩

/-- What is written as an alias of a name that is known has the step of an alias. -/
theorem Records.step_of_aliases (h : Records declarations registry) (filled : registry.Filled)
    (consistent : registry.Consistent) {next : String} {other : TypeId}
    (aliases : Document.Aliases declarations name next) (named : registry.Named next other) :
    ∃ id, registry.Named name id ∧ registry.types.AliasStep id other := by
  obtain ⟨type, htype, rfl, target, aliased, hbody, rfl⟩ := h.exists_alias aliases
  obtain ⟨-, rfl⟩ := h.alias_spec filled htype hbody
  obtain ⟨base, hbase, rfl⟩ := named
  refine ⟨type.id, consistent.named_declared htype, .declared type, ?_, ?_⟩
  · exact consistent.types.type?_id (TypeTable.declared_mem_types_iff.mpr htype)
  · rw [SchemaType.aliased?_of_body hbody, hbase]
    rfl

/-! ### What aliases lead to -/

/-- What aliases lead to from a type with a name has a name, to which the names lead. -/
theorem Records.aliases_of_reaches (h : Records declarations registry) (filled : registry.Filled)
    (consistent : registry.Consistent) (named : registry.Named name id) {target : TypeId}
    (reaches : ReflTransGen registry.types.AliasStep id target) :
    ∃ last, registry.Named last target ∧
      ReflTransGen (Document.Aliases declarations) name last := by
  induction reaches with
  | refl => exact ⟨name, named, .refl⟩
  | tail _ hstep ih =>
    obtain ⟨middle, hmiddle, hnames⟩ := ih
    obtain ⟨last, hlast, hstep⟩ := h.aliases_of_step filled consistent hmiddle hstep
    exact ⟨last, hlast, hnames.tail hstep⟩

/-- Names that lead to one that is known are known. -/
theorem Records.reaches_of_aliases (h : Records declarations registry) (filled : registry.Filled)
    (consistent : registry.Consistent) {last : String} {target : TypeId}
    (reaches : ReflTransGen (Document.Aliases declarations) name last)
    (ends : registry.Named last target) :
    ∃ id, registry.Named name id ∧ ReflTransGen registry.types.AliasStep id target := by
  induction reaches using ReflTransGen.head_induction_on with
  | refl => exact ⟨target, ends, .refl⟩
  | head hstep _ ih =>
    obtain ⟨middle, hmiddle, hsteps⟩ := ih
    obtain ⟨first, hfirst, hstep⟩ := h.step_of_aliases filled consistent hstep hmiddle
    exact ⟨first, hfirst, .head hstep hsteps⟩

/-- Aliases lead to the same types by name and by number. -/
theorem Records.reaches_iff (h : Records declarations registry) (filled : registry.Filled)
    (consistent : registry.Consistent) (named : registry.Named name id) {last : String}
    {target : TypeId} (ends : registry.Named last target) :
    ReflTransGen (Document.Aliases declarations) name last ↔
      ReflTransGen registry.types.AliasStep id target := by
  constructor
  · intro hnames
    obtain ⟨first, hfirst, hsteps⟩ := h.reaches_of_aliases filled consistent hnames ends
    rw [named.right hfirst]
    exact hsteps
  · intro hsteps
    obtain ⟨other, hother, hnames⟩ := h.aliases_of_reaches filled consistent named hsteps
    rw [consistent.named_left ends hother]
    exact hnames

/-- A name is declared as an alias of one other name at most. -/
theorem Records.aliases_unique (h : Records declarations registry)
    (consistent : registry.Consistent) {next other : String}
    (aliases : Document.Aliases declarations name next)
    (again : Document.Aliases declarations name other) : next = other := by
  obtain ⟨type, htype, hname, target, _, hbody, rfl⟩ := h.exists_alias aliases
  obtain ⟨same, hsame, hagain, second, _, hsecond, rfl⟩ := h.exists_alias again
  have hnamed {found : DeclaredType} (hfound : found ∈ registry.types.declared) :
      .declared found ∈ registry.types.named :=
    TypeTable.mem_named.mpr ⟨TypeTable.declared_mem_types_iff.mpr hfound, rfl⟩
  obtain rfl := SchemaType.declared.inj (eq_of_key_eq consistent.types.names (hnamed htype)
    (hnamed hsame) (hname.trans hagain.symm))
  rw [hbody] at hsecond
  rw [(TypeBody.typeAlias.inj hsecond).1]

/-- The name of a type that is no alias is declared as no alias. -/
theorem Records.not_aliases_of_isTarget (h : Records declarations registry)
    (consistent : registry.Consistent) (named : registry.Named name id)
    (isTarget : registry.types.IsTarget id) (next : String) :
    ¬ Document.Aliases declarations name next := by
  intro haliases
  obtain ⟨type, htype, rfl, target, aliased, hbody, -⟩ := h.exists_alias haliases
  obtain rfl := named.right (consistent.named_declared htype)
  obtain ⟨found, hfound, hnone⟩ := isTarget
  have hsame := consistent.types.type?_id (TypeTable.declared_mem_types_iff.mpr htype)
  rw [SchemaType.id, hfound] at hsame
  rw [Option.some.inj hsame, SchemaType.aliased?_of_body hbody] at hnone
  cases hnone

/-! ### Targets of references -/

theorem named_of_reference? {reference : Designation} (bare : reference.modifiers = [])
    (found : registry.types.reference? reference = some id) :
    registry.Named reference.terminal id := by
  rw [TypeTable.reference?, bare] at found
  exact Option.map_eq_some_iff.mp found

theorem exists_container_of_reference? (consistent : registry.Consistent) {reference : Designation}
    (wrapped : reference.modifiers ≠ [])
    (found : registry.types.reference? reference = some id) :
    ∃ container, registry.types.type? id = some (.container container) := by
  unfold TypeTable.reference? at found
  split at found
  case h_1 hnil => exact absurd hnil wrapped
  case h_2 =>
    obtain ⟨container, hcontainer, rfl⟩ := Option.map_eq_some_iff.mp found
    obtain ⟨hmem, -⟩ := consistent.types.anonymous?_eq_some_iff.mp hcontainer
    exact ⟨container, consistent.types.type?_id (TypeTable.container_mem_types hmem)⟩

/-- A reference leads to a type that is no container only if it has no modifiers, and then along the
names of aliases. -/
theorem Records.aliasTarget?_iff (h : Records declarations registry) (filled : registry.Filled)
    (consistent : registry.Consistent) {reference : Designation}
    (found : registry.types.reference? reference = some id) {last : String} {target : TypeId}
    (named : registry.Named last target) (isTarget : registry.types.IsTarget target) :
    registry.types.aliasTarget? id = some target ↔ reference.modifiers = [] ∧
      ReflTransGen (Document.Aliases declarations) reference.terminal last := by
  rw [TypeTable.aliasTarget?_eq_some_iff]
  by_cases hnil : reference.modifiers = []
  · rw [h.reaches_iff filled consistent (named_of_reference? hnil found) named]
    exact ⟨fun hboth => ⟨hnil, hboth.1⟩, fun hboth => ⟨hboth.2, isTarget⟩⟩
  · -- a container is no alias and has no name
    obtain ⟨container, hcontainer⟩ := exists_container_of_reference? consistent hnil found
    refine ⟨?_, fun hboth => absurd hboth.1 hnil⟩
    rintro ⟨hreaches, -⟩
    rcases ReflTransGen.cases_head hreaches with rfl | ⟨next, ⟨type, htype, haliased⟩, -⟩
    · exact absurd hcontainer (consistent.named_not_container named)
    · rw [hcontainer] at htype
      obtain rfl := Option.some.inj htype
      cases haliased

/-- A reference from which names lead to a type is known. -/
theorem Records.exists_aliasTarget?_iff (h : Records declarations registry)
    (filled : registry.Filled) (consistent : registry.Consistent) {reference : Designation}
    {last : String} {target : TypeId} (named : registry.Named last target)
    (isTarget : registry.types.IsTarget target) :
    (∃ id, registry.types.reference? reference = some id ∧
        registry.types.aliasTarget? id = some target) ↔
      reference.modifiers = [] ∧
        ReflTransGen (Document.Aliases declarations) reference.terminal last := by
  constructor
  · rintro ⟨id, hfound, htarget⟩
    exact (h.aliasTarget?_iff filled consistent hfound named isTarget).mp htarget
  · rintro ⟨hnil, hnames⟩
    obtain ⟨id, ⟨base, hbase, rfl⟩, -⟩ := h.reaches_of_aliases filled consistent hnames named
    have hfound : registry.types.reference? reference = some base.id := by
      rw [TypeTable.reference?, hnil, hbase]
      rfl
    exact ⟨base.id, hfound,
      (h.aliasTarget?_iff filled consistent hfound named isTarget).mpr ⟨hnil, hnames⟩⟩

end GraphSchema.Registry
