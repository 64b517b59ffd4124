import GraphSchema.Types.Basic

/-!
# Bodies of declared types

What is known of a type once the body of its declaration is known, and what body it must have: the
type behind an alias, the options of a union, the types that decide whether it is pure.
-/

namespace GraphSchema

variable {type : DeclaredType}

/-! ### From the body -/

theorem SchemaType.aliased?_of_body {target : Designation} {aliased : Option TypeId}
    (h : type.body = .typeAlias target aliased) :
    (SchemaType.declared type).aliased? = some aliased := by
  obtain ⟨number, name, position, body⟩ := type
  obtain rfl := h
  rfl

/-- An alias is as pure as what it stands for. -/
theorem SchemaType.purityReferences_of_alias {target : Designation} {aliased : Option TypeId}
    (h : type.body = .typeAlias target aliased) :
    (SchemaType.declared type).purityReferences = aliased.toList := by
  obtain ⟨number, name, position, body⟩ := type
  obtain rfl := h
  rfl

/-- A union is as pure as its options. -/
theorem SchemaType.purityReferences_of_union {options : List UnionOption}
    (h : type.body = .union options) :
    (SchemaType.declared type).purityReferences = options.filterMap UnionOption.type := by
  obtain ⟨number, name, position, body⟩ := type
  obtain rfl := h
  rfl

theorem SchemaType.aliased?_of_union {options : List UnionOption} (h : type.body = .union options) :
    (SchemaType.declared type).aliased? = none := by
  obtain ⟨number, name, position, body⟩ := type
  obtain rfl := h
  rfl

theorem SchemaType.isStruct_of_body {fields : List NodeId} (h : type.body = .struct fields) :
    (SchemaType.declared type).isStruct = true := by
  obtain ⟨number, name, position, body⟩ := type
  obtain rfl := h
  rfl

/-- A resolver is impure for what it is. -/
theorem SchemaType.isImpure_of_body {properties : List NodeId}
    (h : type.body = .resolver properties) : (SchemaType.declared type).isImpure = true := by
  obtain ⟨number, name, position, body⟩ := type
  obtain rfl := h
  rfl

theorem DeclaredType.members_of_struct {fields : List NodeId} (h : type.body = .struct fields) :
    type.members = fields := by
  obtain ⟨number, name, position, body⟩ := type
  obtain rfl := h
  rfl

theorem DeclaredType.options_of_union {options : List UnionOption}
    (h : type.body = .union options) :
    type.options = options := by
  obtain ⟨number, name, position, body⟩ := type
  obtain rfl := h
  rfl

theorem DeclaredType.isStruct_iff (type : DeclaredType) :
    type.isStruct = (SchemaType.declared type).isStruct := by
  obtain ⟨number, name, position, body⟩ := type
  cases body <;> rfl

/-! ### To the body -/

/-- Only an alias stands for a type. -/
theorem SchemaType.exists_alias {type : SchemaType} {aliased : Option TypeId}
    (h : type.aliased? = some aliased) :
    ∃ declared target, type = .declared declared ∧ declared.body = .typeAlias target aliased := by
  cases type with
  | primitive _ => cases h
  | container _ => cases h
  | declared type =>
    obtain ⟨number, name, position, body⟩ := type
    cases body with
    | typeAlias target other =>
      obtain rfl := Option.some.inj h
      exact ⟨_, target, rfl, rfl⟩
    | enum values => cases h
    | union options => cases h
    | struct fields => cases h
    | resolver properties => cases h

theorem SchemaType.exists_struct {type : SchemaType} (h : type.isStruct = true) :
    ∃ declared fields, type = .declared declared ∧ declared.body = .struct fields := by
  cases type with
  | primitive _ => cases h
  | container _ => cases h
  | declared type =>
    obtain ⟨number, name, position, body⟩ := type
    cases body with
    | struct fields => exact ⟨_, fields, rfl, rfl⟩
    | typeAlias target aliased => cases h
    | enum values => cases h
    | union options => cases h
    | resolver properties => cases h

/-- Only `None` and the resolvers are impure. -/
theorem SchemaType.exists_impure {type : SchemaType} (h : type.isImpure = true) :
    type = .primitive .nothing ∨
      ∃ declared properties, type = .declared declared ∧ declared.body = .resolver properties := by
  cases type with
  | primitive primitive =>
    cases primitive with
    | nothing => exact .inl rfl
    | _ => cases h
  | container _ => cases h
  | declared type =>
    obtain ⟨number, name, position, body⟩ := type
    cases body with
    | resolver properties => exact .inr ⟨_, properties, rfl, rfl⟩
    | typeAlias target aliased => cases h
    | enum values => cases h
    | union options => cases h
    | struct fields => cases h

/-- Only unions have options. -/
theorem DeclaredType.exists_union {option : UnionOption} (h : option ∈ type.options) :
    ∃ options, type.body = .union options ∧ option ∈ options := by
  obtain ⟨number, name, position, body⟩ := type
  cases body with
  | union options => exact ⟨options, rfl, h⟩
  | typeAlias target aliased => cases h
  | enum values => cases h
  | struct fields => cases h
  | resolver properties => cases h

/-- Whether a type is pure is decided by the terminal of a container, by the type behind an alias,
or by an option of a union. -/
theorem SchemaType.mem_purityReferences {type : SchemaType} {id : TypeId}
    (h : id ∈ type.purityReferences) :
    (∃ container, type = .container container ∧ id = container.terminal) ∨
      ∃ declared, type = .declared declared ∧
        ((∃ target, declared.body = .typeAlias target (some id)) ∨
          ∃ options, declared.body = .union options ∧
            ∃ option ∈ options, option.type = some id) := by
  cases type with
  | primitive _ => cases h
  | container container => exact .inl ⟨container, rfl, List.mem_singleton.mp h⟩
  | declared type =>
    refine .inr ⟨type, rfl, ?_⟩
    obtain ⟨number, name, position, body⟩ := type
    cases body with
    | typeAlias target aliased =>
      obtain rfl := Option.mem_toList.mp h
      exact .inl ⟨target, rfl⟩
    | union options =>
      obtain ⟨option, hoption, hid⟩ := List.mem_filterMap.mp h
      exact .inr ⟨options, rfl, option, hoption, hid⟩
    | enum values => cases h
    | struct fields => cases h
    | resolver properties => cases h

end GraphSchema
