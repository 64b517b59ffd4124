import GraphSchema.Proofs.Registry.Aliases
import GraphSchema.Proofs.Registry.Settled
import GraphSchema.Proofs.Types.AliasReports

/-!
# Walks that agree

Three walks follow the references of types: one to the target of an alias, one to the struct behind
a type, and one that looks for cycles of aliases.  In the registry of any declarations they see the
same chains (`Registry.walksAgree_linked`), because an alias never stands for a container
(`Registry.aliasesProper_linked`) and the terminal of a container is no container
(`TypeTable.Consistent.not_isContainer_terminal`).

From a type that is known, aliases lead to a target, or to an alias whose own target is not known,
or to a cycle (`TypeTable.AliasesProper.aliasTarget?_eq_none_iff`).
-/

namespace GraphSchema

open Relation

namespace TypeTable

variable {table : TypeTable} {id target : TypeId}

/-- A type is a container. -/
def IsContainer (table : TypeTable) (id : TypeId) : Prop :=
  ∃ container, table.type? id = some (.container container)

/-- A type is an alias whose target is not known. -/
def Dangles (table : TypeTable) (id : TypeId) : Prop :=
  ∃ type, table.type? id = some type ∧ type.aliased? = some none

/-- Aliases stand for types that are known and no containers. -/
structure AliasesProper (table : TypeTable) : Prop where
  known : ∀ id next, table.AliasStep id next → (table.type? next).isSome
  bare : ∀ id next, table.AliasStep id next → ¬ table.IsContainer next

/-! ### Where chains of aliases end -/

theorem aliasStep_single (table : TypeTable) (id next other : TypeId)
    (step : table.AliasStep id next) (again : table.AliasStep id other) : next = other :=
  step.unique again

/-- What a type stands for as an alias is one thing. -/
theorem aliased?_unique {aliased other : Option (Option TypeId)}
    (h : ∃ type, table.type? id = some type ∧ type.aliased? = aliased)
    (hother : ∃ type, table.type? id = some type ∧ type.aliased? = other) : aliased = other := by
  obtain ⟨type, htype, rfl⟩ := h
  obtain ⟨same, hsame, rfl⟩ := hother
  rw [htype] at hsame
  rw [Option.some.inj hsame]

theorem IsTarget.no_step (h : table.IsTarget id) (next : TypeId) : ¬ table.AliasStep id next := by
  intro hstep
  cases aliased?_unique h hstep

theorem Dangles.no_step (h : table.Dangles id) (next : TypeId) : ¬ table.AliasStep id next := by
  intro hstep
  cases aliased?_unique h hstep

theorem Dangles.not_isTarget (h : table.Dangles id) : ¬ table.IsTarget id := by
  intro htarget
  cases aliased?_unique h htarget

/-- Whatever stands for something is an alias of the table. -/
theorem Consistent.exists_alias (h : table.Consistent) {aliased : Option TypeId}
    (standsFor : ∃ type, table.type? id = some type ∧ type.aliased? = some aliased) :
    ∃ type ∈ table.aliases, type.id = id := by
  obtain ⟨found, hfound, haliased⟩ := standsFor
  obtain ⟨type, target, rfl, hbody⟩ := SchemaType.exists_alias haliased
  obtain ⟨hmem, rfl⟩ := h.type?_eq_some_iff.mp hfound
  refine ⟨type, mem_aliases.mpr ⟨hmem, ?_⟩, rfl⟩
  obtain ⟨number, name, position, body⟩ := type
  obtain rfl : body = .typeAlias target aliased := hbody
  rfl

/-- A type without a step is no alias, or an alias whose target is not known. -/
theorem isTarget_or_dangles (known : (table.type? id).isSome)
    (last : ∀ next, ¬ table.AliasStep id next) : table.IsTarget id ∨ table.Dangles id := by
  obtain ⟨type, htype⟩ := Option.isSome_iff_exists.mp known
  match haliased : type.aliased? with
  | none => exact .inl ⟨type, htype, haliased⟩
  | some none => exact .inr ⟨type, htype, haliased⟩
  | some (some next) => exact absurd ⟨type, htype, haliased⟩ (last next)

/-- A type from which there is a step is known, and so is a target. -/
theorem isSome_type?_of_reaches_target (reaches : ReflTransGen table.AliasStep id target)
    (isTarget : table.IsTarget target) : (table.type? id).isSome := by
  rcases ReflTransGen.cases_head reaches with rfl | ⟨next, ⟨type, htype, -⟩, -⟩
  · obtain ⟨type, htype, -⟩ := isTarget
    rw [htype]
    rfl
  · rw [htype]
    rfl

/-- What aliases lead to is known. -/
theorem AliasesProper.isSome_type? (h : table.AliasesProper) (known : (table.type? id).isSome)
    (reaches : ReflTransGen table.AliasStep id target) : (table.type? target).isSome := by
  cases reaches with
  | refl => exact known
  | tail _ hstep => exact h.known _ _ hstep

/-- There is no target if and only if the type is not known, or its chain meets an alias whose
target is not known, or a cycle. -/
theorem AliasesProper.aliasTarget?_eq_none_iff (h : table.AliasesProper) :
    table.aliasTarget? id = none ↔ table.type? id = none ∨
      (∃ last, ReflTransGen table.AliasStep id last ∧ table.Dangles last) ∨
      ∃ last, ReflTransGen table.AliasStep id last ∧ TransGen table.AliasStep last last := by
  constructor
  · intro hnone
    by_cases hknown : (table.type? id).isSome
    case neg => exact .inl (Option.not_isSome_iff_eq_none.mp hknown)
    case pos =>
      have hsources : ∀ a b, table.AliasStep a b → a ∈ table.types.map SchemaType.id := by
        rintro a b ⟨type, htype, -⟩
        exact mem_ids_of_type? htype
      rcases exists_stop_or_cycle hsources id with ⟨last, hreaches, hlast⟩ | hcycle
      · rcases isTarget_or_dangles (h.isSome_type? hknown hreaches) hlast with htarget | hdangles
        · rw [aliasTarget?_eq_some_iff.mpr ⟨hreaches, htarget⟩] at hnone
          cases hnone
        · exact .inr (.inl ⟨last, hreaches, hdangles⟩)
      · exact .inr (.inr hcycle)
  · intro hends
    rw [Option.eq_none_iff_forall_ne_some]
    intro target hsome
    obtain ⟨hreaches, htarget⟩ := aliasTarget?_eq_some_iff.mp hsome
    rcases hends with hunknown | ⟨last, hvisits, hdangles⟩ | ⟨last, hvisits, hcycle⟩
    · have hknown := isSome_type?_of_reaches_target hreaches htarget
      rw [hunknown] at hknown
      cases hknown
    · have hon := reaches_of_stop table.aliasStep_single htarget.no_step hreaches hvisits
      rcases ReflTransGen.cases_head hon with rfl | ⟨next, hstep, -⟩
      · exact hdangles.not_isTarget htarget
      · exact hdangles.no_step next hstep
    · exact not_cycle_of_stop table.aliasStep_single htarget.no_step hreaches hvisits hcycle

/-! ### The struct behind a type -/

theorem IsStructId.isTarget (h : table.IsStructId id) : table.IsTarget id := by
  obtain ⟨type, htype, hstruct⟩ := h
  obtain ⟨declared, fields, rfl, hbody⟩ := SchemaType.exists_struct hstruct
  obtain ⟨number, name, position, body⟩ := declared
  obtain rfl : body = .struct fields := hbody
  exact ⟨_, htype, rfl⟩

/-- The terminal of a container is no container. -/
theorem Consistent.not_isContainer_terminal (h : table.Consistent) (id : TypeId) :
    ¬ table.IsContainer (table.terminal id) := by
  rintro ⟨inner, hinner⟩
  match htype : table.type? id with
  | some (.container container) =>
    obtain ⟨hmem, -⟩ := h.type?_eq_some_iff.mp htype
    obtain ⟨-, base, -, hbase, hterminal, -⟩ := h.spelled (container_mem_types_iff.mp hmem)
    obtain ⟨hbase, hanonymous⟩ := mem_named.mp hbase
    have hid : table.terminal id = base.id := by rw [terminal, htype, ← hterminal]
    rw [hid, h.type?_id hbase] at hinner
    obtain rfl := Option.some.inj hinner
    cases hanonymous
  | none | some (.primitive _) | some (.declared _) =>
    rw [terminal, htype, htype] at hinner
    cases hinner

/-- From a type that is no container only aliases lead on. -/
theorem leads_iff_of_not_isContainer (h : ¬ table.IsContainer id) {next : TypeId} :
    table.Leads id next ↔ table.AliasStep id next := by
  refine ⟨?_, .inr⟩
  rintro (⟨container, hcontainer, -⟩ | hstep)
  · exact absurd ⟨container, hcontainer⟩ h
  · exact hstep

/-- Behind a type that is no container there are no containers. -/
theorem AliasesProper.reaches_iff (h : table.AliasesProper) (bare : ¬ table.IsContainer id) :
    ReflTransGen table.Leads id target ↔ ReflTransGen table.AliasStep id target := by
  refine ⟨fun hleads => ?_, ReflTransGen.mono (fun _ _ => .inr) _ _⟩
  have hboth : ReflTransGen table.AliasStep id target ∧ ¬ table.IsContainer target := by
    induction hleads with
    | refl => exact ⟨.refl, bare⟩
    | tail _ hstep ih =>
      obtain ⟨hsteps, hbare⟩ := ih
      have halias := (leads_iff_of_not_isContainer hbare).mp hstep
      exact ⟨hsteps.tail halias, h.bare _ _ halias⟩
  exact hboth.1

/-- A struct is behind a type if and only if it is behind the terminal of the type. -/
theorem IsStructId.reaches_iff (h : table.IsStructId target) :
    ReflTransGen table.Leads id target ↔ ReflTransGen table.Leads (table.terminal id) target := by
  match htype : table.type? id with
  | some (.container container) =>
    have hterminal : table.terminal id = container.terminal := by rw [terminal, htype]
    rw [hterminal]
    refine ⟨fun hleads => ?_, .head (.inl ⟨container, htype, rfl⟩)⟩
    rcases ReflTransGen.cases_head hleads with rfl | ⟨next, hstep, hrest⟩
    · -- a container is no struct
      obtain ⟨type, hfound, hstruct⟩ := h
      rw [htype] at hfound
      obtain rfl := Option.some.inj hfound
      cases hstruct
    · rcases hstep with ⟨same, hsame, rfl⟩ | ⟨type, hfound, haliased⟩
      · rw [htype] at hsame
        obtain rfl := SchemaType.container.inj (Option.some.inj hsame)
        exact hrest
      · rw [htype] at hfound
        obtain rfl := Option.some.inj hfound
        cases haliased
  | none | some (.primitive _) | some (.declared _) => rw [terminal, htype]

/-- The struct that is left of a type is the target of its terminal, if that is a struct. -/
theorem AliasesProper.structTarget?_eq_some_iff (h : table.AliasesProper)
    (consistent : table.Consistent) :
    table.structTarget? id = some target ↔
      table.aliasTarget? (table.terminal id) = some target ∧ table.IsStructId target := by
  rw [TypeTable.structTarget?_eq_some_iff, aliasTarget?_eq_some_iff]
  constructor
  · rintro ⟨hleads, hstruct⟩
    have hterminal := (h.reaches_iff (consistent.not_isContainer_terminal id)).mp
      (hstruct.reaches_iff.mp hleads)
    exact ⟨⟨hterminal, hstruct.isTarget⟩, hstruct⟩
  · rintro ⟨⟨hterminal, -⟩, hstruct⟩
    have hleads := (h.reaches_iff (consistent.not_isContainer_terminal id)).mpr hterminal
    exact ⟨hstruct.reaches_iff.mpr hleads, hstruct⟩

end TypeTable

/-! ### Walks in a registry -/

/-- The walks along references agree in the registry of some declarations. -/
structure Registry.WalksAgree (declarations : List Declaration) (registry : Registry) : Prop where
  /-- The target of a type is the type that is no alias to which its aliases lead. -/
  target : ∀ id target, registry.types.aliasTarget? id = some target ↔
    ReflTransGen registry.types.AliasStep id target ∧ registry.types.IsTarget target
  /-- There is none if the type is not known, if its aliases lead to one whose target is not known,
  or if they lead to a cycle. -/
  noTarget : ∀ id, registry.types.aliasTarget? id = none ↔ registry.types.type? id = none ∨
    (∃ last, ReflTransGen registry.types.AliasStep id last ∧ registry.types.Dangles last) ∨
    ∃ last, ReflTransGen registry.types.AliasStep id last ∧
      TransGen registry.types.AliasStep last last
  /-- The struct behind a type is the target of its terminal, if that is a struct. -/
  struct : ∀ id target, registry.types.structTarget? id = some target ↔
    registry.types.aliasTarget? (registry.types.terminal id) = some target ∧
      registry.types.IsStructId target
  /-- An alias has no target if and only if it leads to an alias whose target is not defined, or to
  one that is named in the report of a cycle. -/
  reported : ∀ type ∈ registry.types.aliases, registry.types.aliasTarget? type.id = none ↔
    ∃ last ∈ registry.types.aliases, ReflTransGen registry.types.AliasStep type.id last.id ∧
      ((∃ target aliased, last.body = .typeAlias target aliased ∧
          ¬ Document.Defines declarations target.terminal) ∨
        ∃ first others, .aliasCycle first others ∈ registry.types.aliasCycleProblems ∧
          last.name ∈ (first :: others).map AliasMember.name)

namespace Registry

variable {registry : Registry} {declarations : List Declaration}

/-- In a registry whose references are filled in, aliases stand for types that have names. -/
theorem Records.aliasesProper (h : Records declarations registry) (filled : registry.Filled)
    (consistent : registry.Consistent) : registry.types.AliasesProper := by
  refine ⟨fun id next hstep => ?_, fun id next hstep => ?_⟩
  · obtain ⟨name, hname⟩ := h.exists_named_of_step filled consistent hstep
    obtain ⟨type, htype, -⟩ := consistent.named_iff.mp hname
    rw [htype]
    rfl
  · obtain ⟨name, hname⟩ := h.exists_named_of_step filled consistent hstep
    rintro ⟨container, hcontainer⟩
    exact consistent.named_not_container hname hcontainer

theorem aliasesProper_linked (declarations : List Declaration) :
    (ofDeclarations declarations).linked.types.AliasesProper :=
  (records_kept_linked declarations).aliasesProper
    (filled_linked (consistent_ofDeclarations declarations)) (consistent_linked declarations)

/-- The target of an alias is not known if and only if its name is not defined. -/
theorem dangles_iff (declarations : List Declaration) {type : DeclaredType}
    (htype : type ∈ (ofDeclarations declarations).linked.types.aliases) :
    (ofDeclarations declarations).linked.types.Dangles type.id ↔
      ∃ target aliased, type.body = .typeAlias target aliased ∧
        ¬ Document.Defines declarations target.terminal := by
  have hrecords := records_kept_linked declarations
  have hfilled := filled_linked (consistent_ofDeclarations declarations)
  have hconsistent := consistent_linked declarations
  have hdefines (name : String) :
      ((ofDeclarations declarations).linked.types.named? name).isSome ↔
        Document.Defines declarations name :=
    (hrecords.isSome_named?_iff hconsistent name).trans (Document.defines_kept_iff name)
  generalize (ofDeclarations declarations).linked = registry at *
  obtain ⟨hmem, halias⟩ := TypeTable.mem_aliases.mp htype
  have hfound := hconsistent.types.type?_id hmem
  constructor
  · rintro ⟨found, hsame, hdangling⟩
    rw [SchemaType.id, hsame] at hfound
    obtain rfl := Option.some.inj hfound
    obtain ⟨same, target, hdeclared, hbody⟩ := SchemaType.exists_alias hdangling
    obtain rfl := SchemaType.declared.inj hdeclared
    refine ⟨target, none, hbody, ?_⟩
    obtain ⟨-, hnone⟩ :=
      hrecords.alias_spec hfilled (TypeTable.declared_mem_types_iff.mp hmem) hbody
    rw [← hdefines, Option.map_eq_none_iff.mp hnone.symm]
    exact Bool.false_ne_true
  · rintro ⟨target, aliased, hbody, hundefined⟩
    refine ⟨.declared type, hfound, ?_⟩
    obtain ⟨-, haliased⟩ :=
      hrecords.alias_spec hfilled (TypeTable.declared_mem_types_iff.mp hmem) hbody
    rw [← hdefines, Option.not_isSome_iff_eq_none] at hundefined
    rw [SchemaType.aliased?_of_body hbody, haliased, hundefined]
    rfl

/-- The walks along references agree, whatever is declared. -/
theorem walksAgree_linked (declarations : List Declaration) :
    (ofDeclarations declarations).linked.WalksAgree declarations := by
  have hproper := aliasesProper_linked declarations
  have hconsistent := (consistent_linked declarations).types
  have hdangles (type : DeclaredType)
      (htype : type ∈ (ofDeclarations declarations).linked.types.aliases) :=
    dangles_iff declarations htype
  have hcycles := hconsistent.aliasCyclesReported
  generalize (ofDeclarations declarations).linked = registry at *
  refine ⟨fun _ _ => TypeTable.aliasTarget?_eq_some_iff,
    fun _ => hproper.aliasTarget?_eq_none_iff,
    fun _ _ => hproper.structTarget?_eq_some_iff hconsistent, fun type htype => ?_⟩
  have hknown : registry.types.type? type.id ≠ none := by
    have hfound := hconsistent.type?_id (TypeTable.mem_aliases.mp htype).1
    rw [SchemaType.id] at hfound
    rw [hfound]
    exact Option.some_ne_none _
  rw [hproper.aliasTarget?_eq_none_iff]
  constructor
  · rintro (hunknown | ⟨last, hreaches, hdangling⟩ | ⟨last, hreaches, hcycle⟩)
    · exact absurd hunknown hknown
    · obtain ⟨other, hother, rfl⟩ := hconsistent.exists_alias hdangling
      exact ⟨other, hother, hreaches, .inl ((hdangles other hother).mp hdangling)⟩
    · obtain ⟨next, hstep, -⟩ := TransGen.head'_iff.mp hcycle
      obtain ⟨other, hother, rfl⟩ := hconsistent.exists_alias hstep
      exact ⟨other, hother, hreaches, .inr ((hcycles.named other hother).mpr hcycle)⟩
  · rintro ⟨other, hother, hreaches, hundefined | hreported⟩
    · exact .inr (.inl ⟨other.id, hreaches, (hdangles other hother).mpr hundefined⟩)
    · exact .inr (.inr ⟨other.id, hreaches, (hcycles.named other hother).mp hreported⟩)

end Registry

end GraphSchema
