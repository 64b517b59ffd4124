import GraphSchema.Analysis.Rules
import GraphSchema.Proofs.Acceptance.Data
import GraphSchema.Proofs.Containment.Completeness
import GraphSchema.Proofs.Types.AliasCycles

/-!
# Conditions on resolved types

For every rule about resolved types there is the condition on names that it enforces: the rule finds
no problem in a resolved registry if and only if the document satisfies the condition.
-/

namespace GraphSchema.Registry

open Relation

variable {registry : Registry} {declarations : List Declaration} {name : String} {id : TypeId}

/-! ### Cycles -/

theorem Resolved.aliasCycleProblems_eq_nil_iff (h : Resolved declarations registry) :
    registry.types.aliasCycleProblems = [] ↔
      ∀ name, ¬ TransGen (Document.Aliases declarations) name name := by
  rw [h.consistent.types.aliasCycleProblems_eq_nil_iff, h.aliases_acyclic_iff]

theorem Resolved.structCycleProblems_eq_nil_iff (h : Resolved declarations registry) :
    registry.structCycleProblems = [] ↔
      ∀ name, ¬ TransGen (Document.Contains declarations) name name := by
  have hcycles := h.consistent.cyclesReported
  rw [← h.structs_acyclic_iff, ← hcycles.silent, structCycleProblems, List.filterMap_eq_nil_iff]
  constructor
  · intro hnone
    apply List.eq_nil_iff_forall_not_mem.mpr
    intro links hlinks
    have hproblem := hnone links hlinks
    cases links with
    | nil => exact (hcycles.sound [] hlinks).nonempty rfl
    | cons first others => cases hproblem
  · intro hnil links hlinks
    rw [hnil] at hlinks
    cases hlinks

/-! ### Options of unions -/

theorem Consistent.isTarget_of_union (h : registry.Consistent) {type : DeclaredType}
    (htype : type ∈ registry.types.declared) {options : List UnionOption}
    (hbody : type.body = .union options) : registry.types.IsTarget type.id := by
  refine ⟨.declared type, h.types.type?_id (TypeTable.declared_mem_types_iff.mpr htype), ?_⟩
  exact SchemaType.aliased?_of_union hbody

theorem Consistent.isTarget_of_primitive (h : registry.Consistent) (primitive : Primitive) :
    registry.types.IsTarget primitive.id :=
  ⟨.primitive primitive, h.types.type?_id (TypeTable.primitive_mem_types primitive), rfl⟩

/-- There is no problem with an option unless its target is the union or `None`. -/
theorem optionProblem?_eq_none_iff (registry : Registry) (type : DeclaredType)
    {option : UnionOption} (hoption : option.type = some id) :
    registry.optionProblem? type option = none ↔
      registry.types.aliasTarget? id ≠ some type.id ∧
        registry.types.aliasTarget? id ≠ some Primitive.nothing.id := by
  unfold optionProblem?
  rw [hoption, Option.bind_eq_bind, Option.bind_some]
  cases htarget : registry.types.aliasTarget? id with
  | none => simp
  | some target =>
    rw [Option.bind_some]
    by_cases hself : target = type.id
    · rw [if_pos hself]
      simp [hself]
    · rw [if_neg hself]
      by_cases hnone : target = Primitive.nothing.id
      · rw [if_pos hnone]
        simp [hnone]
      · rw [if_neg hnone]
        simp [hself, hnone]

/-- The problem with an option is that aliases lead from it to the union or to `None`. -/
theorem Resolved.optionProblem?_iff (h : Resolved declarations registry)
    {keyword token opening closing : Token} {options : List TypeReference}
    (hmem : .block keyword token opening (.union options) closing ∈ declarations)
    {type : DeclaredType} (htype : type ∈ registry.types.declared) (hname : type.name = token.text)
    {recorded : List UnionOption} (hbody : type.body = .union recorded) {option : TypeReference}
    (hoption : option ∈ options) {described : UnionOption}
    (hdescribed : described.type = registry.types.reference? option.designation) :
    registry.optionProblem? type described = none ↔ (option.designation.modifiers = [] →
      ∀ last, ReflTransGen (Document.Aliases declarations) option.terminal.text last →
        last ≠ token.text ∧ last ≠ Primitive.nothing.name) := by
  have hreference := option_reference_mem hmem hoption
  obtain ⟨used, hused, -⟩ := h.reference?_within hreference
  have hself := h.records.aliasTarget?_iff h.filled h.consistent hused
    (h.consistent.named_declared htype) (h.consistent.isTarget_of_union htype hbody)
  have hnone := h.records.aliasTarget?_iff h.filled h.consistent hused
    (h.consistent.named_primitive .nothing) (h.consistent.isTarget_of_primitive .nothing)
  rw [optionProblem?_eq_none_iff registry type (hdescribed.trans hused), Ne, Ne, hself, hnone,
    hname]
  constructor
  · rintro ⟨hnotSelf, hnotNone⟩ hnil last hreaches
    refine ⟨?_, ?_⟩
    · rintro rfl
      exact hnotSelf ⟨hnil, hreaches⟩
    · rintro rfl
      exact hnotNone ⟨hnil, hreaches⟩
  · intro hall
    refine ⟨?_, ?_⟩
    · rintro ⟨hnil, hreaches⟩
      exact (hall hnil _ hreaches).1 rfl
    · rintro ⟨hnil, hreaches⟩
      exact (hall hnil _ hreaches).2 rfl

theorem Resolved.unionProblems_eq_nil_iff (h : Resolved declarations registry) :
    registry.unionProblems = [] ↔
      ∀ name options, Document.DeclaresBody declarations name (.union options) →
        ∀ option ∈ options, option.designation.modifiers = [] →
          ∀ last, ReflTransGen (Document.Aliases declarations) option.terminal.text last →
            last ≠ name ∧ last ≠ Primitive.nothing.name := by
  unfold unionProblems
  rw [List.flatMap_eq_nil_iff]
  constructor
  · rintro hnone _ options ⟨keyword, token, opening, closing, hmem, rfl⟩ option hoption
    obtain ⟨type, htype, hname, hrecords⟩ := h.records.of_block hmem
    obtain ⟨recorded, hbody, hall⟩ := h.filled.options_spec htype hrecords
    obtain ⟨described, hdescribed, -, hused⟩ := exists_right_of_forall₂ hall hoption
    refine (h.optionProblem?_iff hmem htype hname hbody hoption hused).mp ?_
    refine List.filterMap_eq_nil_iff.mp (hnone type htype) described ?_
    rw [DeclaredType.options_of_union hbody]
    exact hdescribed
  · intro hall type htype
    rw [List.filterMap_eq_nil_iff]
    intro described hdescribed
    obtain ⟨recorded, hbody, hdescribed⟩ := DeclaredType.exists_union hdescribed
    obtain ⟨keyword, token, opening, options, closing, hmem, hname, hrecords⟩ :=
      h.records.of_union htype hbody
    obtain ⟨same, hsame, hpairs⟩ := h.filled.options_spec htype hrecords
    rw [hbody] at hsame
    obtain rfl := TypeBody.union.inj hsame
    obtain ⟨option, hoption, -, hused⟩ := exists_left_of_forall₂ hpairs hdescribed
    refine (h.optionProblem?_iff hmem htype hname.symm hbody hoption hused).mpr ?_
    exact hall token.text options ⟨keyword, token, opening, closing, hmem, rfl⟩ option hoption

/-! ### Fields and parameters -/

theorem exists_field {declaration : Declaration} {written : WrittenNode} {owner : Token}
    (h : written ∈ declaration.writtenNodes) (hplace : written.place = .field owner) :
    ∃ keyword token opening fields closing,
      declaration = .block keyword token opening (.struct fields) closing ∧
        ∃ field ∈ fields, written = field.written token := by
  cases declaration with
  | typeAlias keyword name equals target => cases h
  | block keyword token opening body closing =>
    cases body with
    | enum values => cases h
    | union options => cases h
    | struct fields =>
      obtain ⟨field, hfield, rfl⟩ := List.mem_map.mp h
      exact ⟨keyword, token, opening, fields, closing, rfl, field, hfield, rfl⟩
    | resolver properties =>
      obtain ⟨property, -, rfl⟩ := List.mem_map.mp h
      cases hplace
  | endpoint kind keyword signature =>
    obtain rfl := List.mem_singleton.mp h
    cases hplace

/-- There is no problem with a field if and only if its type carries data. -/
theorem fieldProblem?_eq_none_iff {node : GraphNode} {parent : TypeId}
    (hkind : node.kind = .structField parent) (htype : node.type = some id) :
    registry.fieldProblem? node = none ↔ registry.types.isPure id = true := by
  unfold fieldProblem?
  rw [hkind, htype]
  dsimp only
  by_cases hpure : registry.types.isPure id = true
  · rw [if_pos hpure]
    simp [hpure]
  · rw [if_neg hpure]
    simp [hpure]

theorem fieldProblem?_of_not_field {node : GraphNode}
    (hkind : ∀ parent, node.kind ≠ .structField parent) : registry.fieldProblem? node = none := by
  unfold fieldProblem?
  split
  case h_1 parent _ hfield _ => exact absurd hfield (hkind parent)
  case h_2 => rfl

/-- There is no problem with a field that is written if and only if its type carries data. -/
theorem Resolved.fieldProblem?_iff (h : Resolved declarations registry)
    {keyword token opening closing : Token} {fields : List TypedName}
    (hmem : .block keyword token opening (.struct fields) closing ∈ declarations)
    {field : TypedName} (hfield : field ∈ fields) {node : GraphNode} (hnode : node ∈ registry.nodes)
    (records : RecordsNode registry.types.declared registry.parameters (field.written token) node) :
    registry.fieldProblem? node = none ↔
      Document.CarriesData declarations field.type.terminal.text := by
  obtain ⟨type, -, -, hkind⟩ := records.place
  have hdesignation : node.designation = field.type.designation := records.designation
  obtain ⟨used, hused, hwithin, -⟩ := h.reference?_within (field_reference_mem hmem hfield)
  rw [← hdesignation, ← h.filled.nodes node hnode] at hused
  rw [fieldProblem?_eq_none_iff hkind hused]
  exact h.isPure_iff hwithin

theorem Resolved.fieldProblems_eq_nil_iff (h : Resolved declarations registry) :
    registry.nodes.filterMap registry.fieldProblem? = [] ↔
      ∀ name fields, Document.DeclaresBody declarations name (.struct fields) →
        ∀ field ∈ fields, Document.CarriesData declarations field.type.terminal.text := by
  rw [List.filterMap_eq_nil_iff]
  constructor
  · rintro hnone _ fields ⟨keyword, token, opening, closing, hmem, rfl⟩ field hfield
    have hwritten : field.written token ∈ declarations.flatMap Declaration.writtenNodes :=
      List.mem_flatMap.mpr ⟨_, hmem, List.mem_map_of_mem hfield⟩
    obtain ⟨node, hnode, hrecords⟩ := exists_right_of_forall₂ h.records.nodes hwritten
    exact (h.fieldProblem?_iff hmem hfield hnode hrecords).mp (hnone node hnode)
  · intro hall node hnode
    obtain ⟨written, hwritten, hrecords⟩ := exists_left_of_forall₂ h.records.nodes hnode
    obtain ⟨declaration, hmem, hwritten⟩ := List.mem_flatMap.mp hwritten
    cases hplace : written.place with
    | field owner =>
      obtain ⟨keyword, token, opening, fields, closing, rfl, field, hfield, rfl⟩ :=
        exists_field hwritten hplace
      refine (h.fieldProblem?_iff hmem hfield hnode hrecords).mpr ?_
      exact hall token.text fields ⟨keyword, token, opening, closing, hmem, rfl⟩ field hfield
    | property owner =>
      apply fieldProblem?_of_not_field
      intro parent hkind
      have hmatches := hrecords.place
      rw [hplace, hkind] at hmatches
      obtain ⟨type, -, -, hother⟩ := hmatches
      cases hother
    | endpoint kind =>
      apply fieldProblem?_of_not_field
      intro parent hkind
      have hmatches := hrecords.place
      rw [hplace, hkind] at hmatches
      cases kind <;> cases hmatches

/-- There is no problem with a parameter if and only if its type carries data. -/
theorem parameterProblem?_eq_none_iff {parameter : Parameter} (htype : parameter.type = some id) :
    registry.parameterProblem? parameter = none ↔ registry.types.isPure id = true := by
  unfold parameterProblem?
  rw [htype]
  dsimp only
  by_cases hpure : registry.types.isPure id = true
  · rw [if_pos hpure]
    simp [hpure]
  · rw [if_neg hpure]
    simp [hpure]

/-- There is no problem with a parameter that is written if and only if its type carries data. -/
theorem Resolved.parameterProblem?_iff (h : Resolved declarations registry) {written : WrittenNode}
    (hwritten : written ∈ declarations.flatMap Declaration.writtenNodes) {entry : TypedName}
    (hentry : entry ∈ written.parameters) {parameter : Parameter}
    (hparameter : parameter ∈ registry.parameters) {target : NodeId}
    (records : RecordsParameter target entry parameter) :
    registry.parameterProblem? parameter = none ↔
      Document.CarriesData declarations entry.type.terminal.text := by
  have hreference : entry.type.designation ∈ declarations.flatMap Declaration.references := by
    obtain ⟨declaration, hmem, hnode⟩ := List.mem_flatMap.mp hwritten
    refine List.mem_flatMap.mpr ⟨declaration, hmem, ?_⟩
    apply Declaration.writtenNodes_references hnode
    exact List.mem_append_left _ (List.mem_map_of_mem hentry)
  obtain ⟨used, hused, hwithin, -⟩ := h.reference?_within hreference
  rw [← records.designation, ← h.filled.parameters parameter hparameter] at hused
  rw [parameterProblem?_eq_none_iff hused]
  exact h.isPure_iff hwithin

theorem Resolved.parameterProblems_eq_nil_iff (h : Resolved declarations registry) :
    registry.parameters.filterMap registry.parameterProblem? = [] ↔
      ∀ written ∈ declarations.flatMap Declaration.writtenNodes, ∀ entry ∈ written.parameters,
        Document.CarriesData declarations entry.type.terminal.text := by
  rw [List.filterMap_eq_nil_iff]
  constructor
  · intro hnone written hwritten entry hentry
    obtain ⟨node, -, hrecords⟩ := exists_right_of_forall₂ h.records.nodes hwritten
    obtain ⟨number, -, parameter, hparameter, -, hentryRecords⟩ :=
      exists_right_of_forall₂ hrecords.parameters hentry
    exact (h.parameterProblem?_iff hwritten hentry hparameter hentryRecords).mp
      (hnone parameter hparameter)
  · intro hall parameter hparameter
    -- the number of the parameter is listed by some graph node
    have hlisted : parameter.id ∈ registry.nodes.flatMap GraphNode.parameters := by
      rw [← h.records.parameters]
      exact List.mem_map_of_mem hparameter
    obtain ⟨node, hnode, hid⟩ := List.mem_flatMap.mp hlisted
    obtain ⟨written, hwritten, hrecords⟩ := exists_left_of_forall₂ h.records.nodes hnode
    obtain ⟨entry, hentry, recorded, hrecorded, hsame, hentryRecords⟩ :=
      exists_left_of_forall₂ hrecords.parameters hid
    obtain rfl := eq_of_key_eq h.consistent.parameter_ids hrecorded hparameter hsame
    exact (h.parameterProblem?_iff hwritten hentry hrecorded hentryRecords).mpr
      (hall written hwritten entry hentry)

/-! ### Endpoints -/

/-- A declaration introduces the name of an endpoint if and only if it writes an endpoint. -/
theorem exists_endpoint_iff (declaration : Declaration) :
    (∃ written ∈ declaration.writtenNodes, ∃ kind, written.place = .endpoint kind) ↔
      declaration.endpointName?.isSome := by
  constructor
  · rintro ⟨written, hwritten, kind, hplace⟩
    rw [Declaration.endpointName?_of_place hwritten hplace]
    rfl
  · intro hsome
    cases declaration with
    | typeAlias keyword name equals target => cases hsome
    | block keyword name opening body closing => cases hsome
    | endpoint kind keyword signature => exact ⟨_, List.mem_singleton.mpr rfl, kind, rfl⟩

theorem Resolved.endpointProblems_eq_nil_iff (h : Resolved declarations registry)
    (header : Header) :
    registry.endpointProblems header = [] ↔ Document.endpointNames declarations ≠ [] := by
  have hany : registry.nodes.any GraphNode.isEndpoint = true ↔
      Document.endpointNames declarations ≠ [] := by
    unfold Document.endpointNames
    rw [List.any_eq_true, Ne, List.map_eq_nil_iff, List.filterMap_eq_nil_iff, not_forall]
    constructor
    · rintro ⟨node, hnode, hendpoint⟩
      obtain ⟨written, hwritten, hrecords⟩ := exists_left_of_forall₂ h.records.nodes hnode
      obtain ⟨declaration, hmem, hwritten⟩ := List.mem_flatMap.mp hwritten
      have hsome := (exists_endpoint_iff declaration).mp
        ⟨written, hwritten, hrecords.isEndpoint_iff.mp hendpoint⟩
      exact ⟨declaration, fun hnone => Option.isSome_iff_ne_none.mp hsome (hnone hmem)⟩
    · rintro ⟨declaration, hdeclaration⟩
      rw [Classical.not_imp] at hdeclaration
      obtain ⟨hmem, hsome⟩ := hdeclaration
      obtain ⟨written, hwritten, hplace⟩ :=
        (exists_endpoint_iff declaration).mpr (Option.isSome_iff_ne_none.mpr hsome)
      obtain ⟨node, hnode, hrecords⟩ := exists_right_of_forall₂ h.records.nodes
        (List.mem_flatMap.mpr ⟨declaration, hmem, hwritten⟩)
      exact ⟨node, hnode, hrecords.isEndpoint_iff.mpr hplace⟩
  unfold endpointProblems
  rw [← hany]
  by_cases hendpoint : registry.nodes.any GraphNode.isEndpoint = true
  · rw [if_pos hendpoint]
    exact ⟨fun _ => hendpoint, fun _ => rfl⟩
  · rw [if_neg hendpoint]
    exact ⟨fun hnil => absurd hnil (List.cons_ne_nil _ _), fun hpos => absurd hpos hendpoint⟩

end GraphSchema.Registry
