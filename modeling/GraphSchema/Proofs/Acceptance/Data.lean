import GraphSchema.Proofs.Acceptance.Simulation

/-!
# Types that carry data

What a type refers to is what its name carries, so a type is pure if and only if its name carries
data only (`Registry.Resolved.isPure_iff`).  Containers have no names; their only reference is to
their terminal.
-/

namespace GraphSchema.Registry

open Relation

variable {registry : Registry} {declarations : List Declaration} {name : String} {id : TypeId}

theorem option_reference_mem {keyword token opening closing : Token} {options : List TypeReference}
    (hmem : .block keyword token opening (.union options) closing ∈ declarations)
    {option : TypeReference} (hoption : option ∈ options) :
    option.designation ∈ declarations.flatMap Declaration.references :=
  List.mem_flatMap.mpr ⟨_, hmem, List.mem_map_of_mem hoption⟩

/-- The options of a union are those that are written. -/
theorem Filled.options_spec (h : registry.Filled) {token : Token}
    {options : List TypeReference} {type : DeclaredType} (htype : type ∈ registry.types.declared)
    (records : registry.RecordsBody token (.union options) type.body) :
    ∃ recorded, type.body = .union recorded ∧
      List.Forall₂ (fun (option : TypeReference) (described : UnionOption) =>
        described.designation = option.designation ∧
        described.type = registry.types.reference? option.designation) options recorded := by
  have hfilled := h.types type htype
  obtain ⟨recorded, hbody, hdesignations⟩ := records
  rw [hbody] at hfilled
  refine ⟨recorded, hbody, ?_⟩
  refine forall₂_imp_of_mem (forall₂_of_map_eq_map hdesignations.symm) ?_
  intro option _ described hdescribed hsame
  refine ⟨hsame.symm, ?_⟩
  rw [hsame]
  exact hfilled described hdescribed

theorem refers_of_type? {type : SchemaType} (h : registry.types.type? id = some type)
    {other : TypeId} : registry.types.Refers id other ↔ other ∈ type.purityReferences := by
  rw [TypeTable.Refers, TypeTable.purityReferences, h]
  rfl

/-! ### Steps -/

/-- What a name carries its type refers to. -/
theorem Resolved.refers (h : Resolved declarations registry) (named : registry.Named name id)
    {next : String} (carries : Document.Carries declarations name next) :
    ∃ other, registry.NamedWithin next other ∧ registry.types.Refers id other := by
  rcases carries with haliases | ⟨options, declared, option, hoption, rfl⟩
  · obtain ⟨other, hother, found, hfound, haliased⟩ := h.aliasStep named haliases
    obtain ⟨type, target, rfl, hbody⟩ := SchemaType.exists_alias haliased
    refine ⟨other, .inl hother, ?_⟩
    rw [refers_of_type? hfound, SchemaType.purityReferences_of_alias hbody]
    exact List.mem_singleton.mpr rfl
  · obtain ⟨type, htype, hfound, -, -, _, _, _, _, hmem, -, hrecords⟩ :=
      h.type_of_body declared named
    obtain ⟨recorded, hbody, hall⟩ := h.filled.options_spec htype hrecords
    obtain ⟨described, hdescribed, -, hreference⟩ := exists_right_of_forall₂ hall hoption
    obtain ⟨other, hother, hwithin, -⟩ := h.reference?_within (option_reference_mem hmem hoption)
    refine ⟨other, hwithin, ?_⟩
    rw [refers_of_type? hfound, SchemaType.purityReferences_of_union hbody]
    exact List.mem_filterMap.mpr ⟨described, hdescribed, hreference.trans hother⟩

/-- What a type with a name refers to its name carries. -/
theorem Resolved.carries (h : Resolved declarations registry) (named : registry.Named name id)
    {other : TypeId} (refers : registry.types.Refers id other) :
    ∃ next, registry.NamedWithin next other ∧ Document.Carries declarations name next := by
  obtain ⟨type, htype, hanonymous, rfl⟩ := h.consistent.named_iff.mp named
  rw [refers_of_type? htype] at refers
  rcases SchemaType.mem_purityReferences refers with
    ⟨container, rfl, -⟩ |
      ⟨declared, rfl, ⟨target, hbody⟩ | ⟨recorded, hbody, described, hdescribed, hother⟩⟩
  · cases hanonymous
  · have hstep : registry.types.AliasStep id other :=
      ⟨_, htype, SchemaType.aliased?_of_body hbody⟩
    obtain ⟨next, hnext, haliases⟩ := h.aliases named hstep
    exact ⟨next, .inl hnext, .inl haliases⟩
  · obtain ⟨hmem, -⟩ := h.consistent.types.type?_eq_some_iff.mp htype
    have hdeclared := TypeTable.declared_mem_types_iff.mp hmem
    obtain ⟨keyword, token, opening, options, closing, hwritten, htoken, hrecords⟩ :=
      h.records.of_union hdeclared hbody
    obtain ⟨same, hsame, hall⟩ := h.filled.options_spec hdeclared hrecords
    rw [hbody] at hsame
    obtain rfl := TypeBody.union.inj hsame
    obtain ⟨option, hoption, -, hreference⟩ := exists_left_of_forall₂ hall hdescribed
    obtain ⟨found, hfound, hwithin, -⟩ :=
      h.reference?_within (option_reference_mem hwritten hoption)
    rw [hother, hfound] at hreference
    obtain rfl := Option.some.inj hreference
    exact ⟨option.terminal.text, hwithin, .inr
      ⟨options, ⟨keyword, token, opening, closing, hwritten, htoken⟩, option, hoption, rfl⟩⟩

theorem refers_container {container : Container}
    (h : registry.types.type? id = some (.container container)) {other : TypeId} :
    registry.types.Refers id other ↔ other = container.terminal := by
  rw [refers_of_type? h]
  exact List.mem_singleton

theorem Resolved.refers_within (h : Resolved declarations registry)
    (within : registry.NamedWithin name id) {next : String}
    (carries : Document.Carries declarations name next) :
    ∃ other, registry.NamedWithin next other ∧ ReflTransGen registry.types.Refers id other := by
  rcases within with named | ⟨container, hcontainer, named⟩
  · obtain ⟨other, hother, hrefers⟩ := h.refers named carries
    exact ⟨other, hother, .single hrefers⟩
  · obtain ⟨other, hother, hrefers⟩ := h.refers named carries
    exact ⟨other, hother, .head ((refers_container hcontainer).mpr rfl) (.single hrefers)⟩

theorem Resolved.carries_within (h : Resolved declarations registry)
    (within : registry.NamedWithin name id) {other : TypeId}
    (refers : registry.types.Refers id other) :
    ∃ next, registry.NamedWithin next other ∧
      ReflTransGen (Document.Carries declarations) name next := by
  rcases within with named | ⟨container, hcontainer, named⟩
  · obtain ⟨next, hnext, hcarries⟩ := h.carries named refers
    exact ⟨next, hnext, .single hcarries⟩
  · obtain rfl := (refers_container hcontainer).mp refers
    exact ⟨name, .inl named, .refl⟩

/-! ### Types that carry no data -/

/-- The types that carry no data are `None` and the resolvers. -/
theorem Resolved.isImpure_iff (h : Resolved declarations registry)
    (named : registry.Named name id) :
    registry.types.isImpure id = true ↔
      name = Primitive.nothing.name ∨ Document.IsResolver declarations name := by
  unfold TypeTable.isImpure
  constructor
  · obtain ⟨type, htype, hanonymous, rfl⟩ := h.consistent.named_iff.mp named
    rw [htype]
    intro himpure
    rcases SchemaType.exists_impure himpure with rfl | ⟨declared, ids, rfl, hbody⟩
    · exact .inl rfl
    · obtain ⟨hmem, -⟩ := h.consistent.types.type?_eq_some_iff.mp htype
      exact .inr (h.records.of_resolver (TypeTable.declared_mem_types_iff.mp hmem) hbody)
  · rintro (rfl | ⟨properties, declared⟩)
    · rw [named.right (h.consistent.named_primitive .nothing)]
      have hfound := h.consistent.types.type?_id (TypeTable.primitive_mem_types .nothing)
      rw [SchemaType.id] at hfound
      rw [hfound]
      rfl
    · obtain ⟨type, -, hfound, -, -, _, _, _, _, -, -, ids, hbody, -⟩ :=
        h.type_of_body declared named
      rw [hfound]
      exact SchemaType.isImpure_of_body hbody

/-- A type is pure if and only if the name that is left of it carries data only. -/
theorem Resolved.isPure_iff (h : Resolved declarations registry)
    (within : registry.NamedWithin name id) :
    registry.types.isPure id = true ↔ Document.CarriesData declarations name := by
  rw [h.consistent.types.isPure_eq_true_iff]
  constructor
  · intro hpure last hreaches
    have hsimulates : ∀ name id, registry.NamedWithin name id →
        ∀ next, Document.Carries declarations name next →
          ∃ other, registry.NamedWithin next other ∧
            ReflTransGen registry.types.Refers id other :=
      fun name id within next hstep => h.refers_within within hstep
    obtain ⟨other, hother, hsteps⟩ := reflTransGen_of_simulation hsimulates hreaches within
    -- a container leads on to the type that has the name
    obtain ⟨target, htarget, hsteps⟩ : ∃ target, registry.Named last target ∧
        ReflTransGen registry.types.Refers id target := by
      rcases hother with named | ⟨container, hcontainer, named⟩
      · exact ⟨other, named, hsteps⟩
      · exact ⟨container.terminal, named, hsteps.tail ((refers_container hcontainer).mpr rfl)⟩
    have himpure := hpure target hsteps
    rw [← not_or, ← h.isImpure_iff htarget, himpure]
    exact Bool.false_ne_true
  · intro hdata last hreaches
    have hsimulates : ∀ id name, registry.NamedWithin name id →
        ∀ other, registry.types.Refers id other →
          ∃ next, registry.NamedWithin next other ∧
            ReflTransGen (Document.Carries declarations) name next :=
      fun id name within other hstep => h.carries_within within hstep
    obtain ⟨next, hnext, hsteps⟩ := reflTransGen_of_simulation hsimulates hreaches within
    have hclean := hdata next hsteps
    rcases hnext with named | ⟨container, hcontainer, -⟩
    · rw [← not_or, ← h.isImpure_iff named] at hclean
      exact Bool.eq_false_iff.mpr hclean
    · -- a container itself is never impure
      rw [TypeTable.isImpure, hcontainer]
      rfl

end GraphSchema.Registry
