import GraphSchema.Proofs.Containment.Graph
import GraphSchema.Proofs.Registry.Aliases

/-!
# Steps of names and of numbers

What is written about names is what the types of a resolved registry say about numbers: aliases lead
to the same names (`Registry.Resolved.reaches_aliases`), fields lead to the same structs
(`Registry.Resolved.structTarget?_iff`), and the same types carry data
(`Registry.Resolved.isPure_iff`).
-/

namespace GraphSchema

open Relation

namespace Registry

variable {registry : Registry} {declarations : List Declaration} {name : String} {id : TypeId}

/-! ### Aliases -/

theorem bareDesignation_mem {keyword token equals target : Token}
    (hmem : .typeAlias keyword token equals target ∈ declarations) :
    target.bareDesignation ∈ declarations.flatMap Declaration.references :=
  List.mem_flatMap.mpr ⟨_, hmem, List.mem_singleton.mpr rfl⟩

/-- What is declared as an alias has the step of an alias. -/
theorem Resolved.aliasStep (h : Resolved declarations registry) (named : registry.Named name id)
    {next : String} (aliases : Document.Aliases declarations name next) :
    ∃ other, registry.Named next other ∧ registry.types.AliasStep id other := by
  have haliases := aliases
  obtain ⟨hmem⟩ := aliases
  obtain ⟨base, hbase⟩ := Option.isSome_iff_exists.mp (h.known _ (bareDesignation_mem hmem))
  have hnext : registry.Named _ base.id := ⟨base, hbase, rfl⟩
  obtain ⟨same, hsame, hstep⟩ := h.records.step_of_aliases h.filled h.consistent haliases hnext
  rw [hsame.right named] at hstep
  exact ⟨base.id, hnext, hstep⟩

/-- A step of an alias is that of an alias that is declared. -/
theorem Resolved.aliases (h : Resolved declarations registry) (named : registry.Named name id)
    {other : TypeId} (step : registry.types.AliasStep id other) :
    ∃ next, registry.Named next other ∧ Document.Aliases declarations name next :=
  h.records.aliases_of_step h.filled h.consistent named step

/-- Aliases lead to the same types by name and by number. -/
theorem Resolved.reaches_aliases (h : Resolved declarations registry)
    (named : registry.Named name id) {last : String} {target : TypeId}
    (ends : registry.Named last target) :
    ReflTransGen (Document.Aliases declarations) name last ↔
      ReflTransGen registry.types.AliasStep id target :=
  h.records.reaches_iff h.filled h.consistent named ends

/-- There is a cycle of aliases by name if and only if there is one by number. -/
theorem Resolved.aliases_acyclic_iff (h : Resolved declarations registry) :
    (∀ id, ¬ TransGen registry.types.AliasStep id id) ↔
      ∀ name, ¬ TransGen (Document.Aliases declarations) name name := by
  constructor
  · intro hacyclic name hcycle
    -- a name on a cycle is that of an alias
    obtain ⟨id, named⟩ : ∃ id, registry.Named name id := by
      obtain ⟨next, ⟨hmem⟩, -⟩ := TransGen.head'_iff.mp hcycle
      obtain ⟨type, htype, hname, -⟩ := h.records.of_alias hmem
      rw [← hname]
      exact ⟨type.id, h.consistent.named_declared htype⟩
    have hsimulates : ∀ name id, registry.Named name id →
        ∀ next, Document.Aliases declarations name next →
          ∃ other, registry.Named next other ∧ registry.types.AliasStep id other :=
      fun name id named next hstep => h.aliasStep named hstep
    obtain ⟨other, hother, hsteps⟩ := transGen_of_simulation hsimulates hcycle named
    rw [← named.right hother] at hsteps
    exact hacyclic id hsteps
  · intro hacyclic id hcycle
    -- a number on a cycle is that of an alias
    obtain ⟨name, named⟩ : ∃ name, registry.Named name id := by
      obtain ⟨next, ⟨found, hfound, haliased⟩, -⟩ := TransGen.head'_iff.mp hcycle
      obtain ⟨type, target, rfl, -⟩ := SchemaType.exists_alias haliased
      exact ⟨type.name, h.consistent.named_iff.mpr ⟨.declared type, hfound, rfl, rfl⟩⟩
    have hsimulates : ∀ id name, registry.Named name id →
        ∀ other, registry.types.AliasStep id other →
          ∃ next, registry.Named next other ∧ Document.Aliases declarations name next :=
      fun id name named other hstep => h.aliases named hstep
    obtain ⟨other, hother, hsteps⟩ := transGen_of_simulation hsimulates hcycle named
    rw [← h.consistent.named_left named hother] at hsteps
    exact hacyclic name hsteps

/-! ### Structs -/

/-- A number is that of a struct if and only if the name is. -/
theorem Resolved.isStruct_iff (h : Resolved declarations registry)
    (named : registry.Named name id) :
    registry.types.IsStructId id ↔ Document.IsStruct declarations name := by
  constructor
  · rintro ⟨found, hfound, hstruct⟩
    obtain ⟨type, ids, rfl, hbody⟩ := SchemaType.exists_struct hstruct
    obtain ⟨hmem, rfl⟩ := h.consistent.types.type?_eq_some_iff.mp hfound
    have htype := TypeTable.declared_mem_types_iff.mp hmem
    rw [h.consistent.named_left named (h.consistent.named_declared htype)]
    exact h.records.of_struct htype hbody
  · rintro ⟨fields, declared⟩
    obtain ⟨type, -, hfound, -, -, -, -, -, -, -, -, ids, hbody, -⟩ := h.type_of_body declared named
    exact ⟨.declared type, hfound, SchemaType.isStruct_of_body hbody⟩

/-- From a type with a name there are no steps but those of aliases. -/
theorem Resolved.leads_of_named (h : Resolved declarations registry)
    (named : registry.Named name id) {target : TypeId} :
    ReflTransGen registry.types.Leads id target ↔
      ReflTransGen registry.types.AliasStep id target := by
  constructor
  · intro hreaches
    -- aliases lead to types with names only, so no container is met
    have hboth : ReflTransGen registry.types.AliasStep id target ∧
        ∃ last, registry.Named last target := by
      induction hreaches with
      | refl => exact ⟨.refl, name, named⟩
      | tail _ hstep ih =>
        obtain ⟨hsteps, last, hlast⟩ := ih
        rcases hstep with ⟨container, hcontainer, -⟩ | hstep
        · exact absurd hcontainer (h.consistent.named_not_container hlast)
        · obtain ⟨next, hnext, -⟩ := h.aliases hlast hstep
          exact ⟨hsteps.tail hstep, next, hnext⟩
    exact hboth.1
  · intro hreaches
    exact ReflTransGen.mono (fun _ _ hstep => .inr hstep) _ _ hreaches

/-- The struct that is left of a type is the one to which aliases lead from its name. -/
theorem Resolved.structTarget?_iff (h : Resolved declarations registry)
    (within : registry.NamedWithin name id) {held : String} {target : TypeId}
    (named : registry.Named held target) :
    registry.types.structTarget? id = some target ↔
      ReflTransGen (Document.Aliases declarations) name held ∧
        Document.IsStruct declarations held := by
  rw [TypeTable.structTarget?_eq_some_iff, h.isStruct_iff named]
  refine and_congr_left fun _ => ?_
  rcases within with hname | ⟨container, hcontainer, hname⟩
  · rw [h.leads_of_named hname, h.reaches_aliases hname named]
  · rw [h.reaches_aliases hname named, ← h.leads_of_named hname]
    constructor
    · intro hreaches
      rcases ReflTransGen.cases_head hreaches with rfl | ⟨next, hstep, hrest⟩
      · exact absurd hcontainer (h.consistent.named_not_container named)
      · -- the only step from a container is that to its terminal
        rcases hstep with ⟨same, hsame, rfl⟩ | ⟨found, hfound, haliased⟩
        · rw [hcontainer] at hsame
          obtain rfl := SchemaType.container.inj (Option.some.inj hsame)
          exact hrest
        · rw [hcontainer] at hfound
          obtain rfl := Option.some.inj hfound
          cases haliased
    · intro hreaches
      exact .head (.inl ⟨container, hcontainer, rfl⟩) hreaches

/-- A struct of the registry has a name. -/
theorem Resolved.mem_structs_iff (h : Resolved declarations registry) {type : DeclaredType}
    (htype : type ∈ registry.types.declared) :
    type ∈ registry.structs ↔ Document.IsStruct declarations type.name := by
  have hmem := TypeTable.declared_mem_types_iff.mpr htype
  rw [mem_structs, type.isStruct_iff, ← h.isStruct_iff (h.consistent.named_declared htype)]
  constructor
  · rintro ⟨-, hstruct⟩
    exact ⟨.declared type, h.consistent.types.type?_id hmem, hstruct⟩
  · rintro ⟨found, hfound, hstruct⟩
    have hsame := h.consistent.types.type?_id hmem
    rw [SchemaType.id, hfound] at hsame
    obtain rfl := Option.some.inj hsame
    exact ⟨hmem, hstruct⟩

theorem field_reference_mem {keyword token opening closing : Token} {fields : List TypedName}
    (hmem : .block keyword token opening (.struct fields) closing ∈ declarations)
    {field : TypedName} (hfield : field ∈ fields) :
    field.type.designation ∈ declarations.flatMap Declaration.references := by
  refine List.mem_flatMap.mpr ⟨_, hmem, ?_⟩
  refine List.mem_flatMap.mpr ⟨field.written token, List.mem_map_of_mem hfield, ?_⟩
  exact List.mem_append_right _ (List.mem_singleton.mpr rfl)

/-- The fields of a struct are those that are written. -/
theorem Resolved.fields_spec (h : Resolved declarations registry)
    {keyword token opening closing : Token} {fields : List TypedName} {type : DeclaredType}
    (hmem : .block keyword token opening (.struct fields) closing ∈ declarations)
    (records : registry.RecordsBody token (.struct fields) type.body) :
    List.Forall₂ (fun field number => ∃ node used, registry.node? number = some node ∧
      node.type = some used ∧ registry.NamedWithin field.type.terminal.text used)
      fields type.members := by
  obtain ⟨ids, hbody, hall⟩ := records
  rw [DeclaredType.members_of_struct hbody]
  refine forall₂_imp_of_mem hall ?_
  rintro field hfield number - ⟨node, hnode, hnumber, hrecords⟩
  obtain ⟨used, hreference, hwithin, -⟩ := h.reference?_within (field_reference_mem hmem hfield)
  have hdesignation : node.designation = field.type.designation := hrecords.designation
  refine ⟨node, used, h.consistent.node?_eq_some_iff.mpr ⟨hnode, hnumber⟩, ?_, hwithin⟩
  rw [h.filled.nodes node hnode, hdesignation, hreference]

/-- Structs that are written to contain each other do so in the registry. -/
theorem Resolved.within_of_contains (h : Resolved declarations registry) {type : DeclaredType}
    (htype : type ∈ registry.structs) {held : String}
    (contains : Document.Contains declarations type.name held) :
    ∃ target ∈ registry.structs, target.name = held ∧ registry.Within type target := by
  have hdeclared := (List.mem_filter.mp htype).1
  obtain ⟨fields, declared, field, hfield, hreaches, hheld⟩ := contains
  obtain ⟨same, hsame, -, hname, hid, keyword, token, opening, closing, hmem, -, hrecords⟩ :=
    h.type_of_body declared (h.consistent.named_declared hdeclared)
  obtain ⟨others, _, other, _, _, hother, rfl⟩ := hheld
  obtain ⟨target, htarget, hheldName, -⟩ := h.records.of_block hother
  -- both are structs of the registry
  have hstruct : target ∈ registry.structs := by
    rw [h.mem_structs_iff htarget, hheldName]
    exact ⟨others, _, other, _, _, hother, rfl⟩
  obtain rfl : same = type := by
    refine h.consistent.eq_of_id_eq ?_ htype hid
    rw [h.mem_structs_iff hsame, hname]
    exact ⟨fields, declared⟩
  refine ⟨target, hstruct, hheldName, ?_⟩
  -- the field that is written is recorded, and its type leads to the same struct
  obtain ⟨number, hnumber, node, used, hnode, hused, hwithin⟩ :=
    exists_right_of_forall₂ (h.fields_spec hmem hrecords) hfield
  refine ⟨node, htype, ⟨number, hnumber, hnode⟩, hstruct, used, hused, ?_⟩
  rw [h.structTarget?_iff hwithin (h.consistent.named_declared htarget), hheldName]
  exact ⟨hreaches, others, _, other, _, _, hother, rfl⟩

/-- Structs that contain each other in the registry are written to do so. -/
theorem Resolved.contains_of_within (h : Resolved declarations registry)
    {type target : DeclaredType} (within : registry.Within type target) :
    Document.Contains declarations type.name target.name := by
  obtain ⟨node, htype, ⟨number, hnumber, hnode⟩, htarget, used, hused, hleads⟩ := within
  have hdeclared := (List.mem_filter.mp htype).1
  have hheld := (List.mem_filter.mp htarget).1
  obtain ⟨fields, declared⟩ := (h.mem_structs_iff hdeclared).mp htype
  obtain ⟨same, hsame, -, hname, hid, keyword, token, opening, closing, hmem, -, hrecords⟩ :=
    h.type_of_body declared (h.consistent.named_declared hdeclared)
  obtain rfl : same = type := by
    refine h.consistent.eq_of_id_eq ?_ htype hid
    rw [h.mem_structs_iff hsame, hname]
    exact ⟨fields, declared⟩
  -- the field is one that is written
  obtain ⟨field, hfield, other, again, hother, hagain, hwithin⟩ :=
    exists_left_of_forall₂ (h.fields_spec hmem hrecords) hnumber
  rw [hnode] at hother
  obtain rfl := Option.some.inj hother
  rw [hused] at hagain
  obtain rfl := Option.some.inj hagain
  rw [h.structTarget?_iff hwithin (h.consistent.named_declared hheld)] at hleads
  exact ⟨fields, declared, field, hfield, hleads⟩

/-- A struct contains itself by name if and only if one does in the registry. -/
theorem Resolved.structs_acyclic_iff (h : Resolved declarations registry) :
    (∀ type, ¬ TransGen registry.Within type type) ↔
      ∀ name, ¬ TransGen (Document.Contains declarations) name name := by
  constructor
  · intro hacyclic name hcycle
    obtain ⟨type, hstruct, hname⟩ : ∃ type ∈ registry.structs, type.name = name := by
      obtain ⟨held, ⟨fields, ⟨_, token, _, _, hmem, rfl⟩, -⟩, -⟩ := TransGen.head'_iff.mp hcycle
      obtain ⟨type, htype, hname, -⟩ := h.records.of_block hmem
      refine ⟨type, ?_, hname⟩
      rw [h.mem_structs_iff htype, hname]
      exact ⟨fields, _, token, _, _, hmem, rfl⟩
    have hsimulates : ∀ name type, type ∈ registry.structs ∧ type.name = name →
        ∀ held, Document.Contains declarations name held →
          ∃ target, (target ∈ registry.structs ∧ target.name = held) ∧
            registry.Within type target := by
      rintro name type ⟨htype, rfl⟩ held hcontains
      obtain ⟨target, htarget, hheld, hwithin⟩ := h.within_of_contains htype hcontains
      exact ⟨target, ⟨htarget, hheld⟩, hwithin⟩
    obtain ⟨other, ⟨hother, hsame⟩, hsteps⟩ :=
      transGen_of_simulation hsimulates hcycle ⟨hstruct, hname⟩
    obtain rfl : type = other :=
      h.consistent.eq_of_name_eq hstruct hother (hname.trans hsame.symm)
    exact hacyclic type hsteps
  · intro hacyclic type hcycle
    refine hacyclic type.name (TransGen.lift DeclaredType.name ?_ _ _ hcycle)
    intro holder held hwithin
    exact h.contains_of_within hwithin

end Registry

end GraphSchema
