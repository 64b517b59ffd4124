import GraphSchema.Analysis.StructCycle
import GraphSchema.Proofs.Registry.Consistent
import Mathlib.Logic.Relation

/-!
# The containment graph

One struct contains another by a field if the other is left when containers and aliases are taken
away from the type of the field (`Registry.Contains`).  The fields that are followed by the walk
over the structs are exactly these (`Registry.contains_iff`).
-/

namespace GraphSchema.Registry

/-- A field of a struct leads to a struct. -/
structure Contains (registry : Registry) (type : DeclaredType) (field : GraphNode)
    (target : DeclaredType) : Prop where
  holder : type ∈ registry.structs
  member : ∃ id ∈ type.members, registry.node? id = some field
  held : target ∈ registry.structs
  leads : ∃ used, field.type = some used ∧ registry.types.structTarget? used = some target.id

/-- Some field of a struct leads to a struct. -/
def Within (registry : Registry) (type target : DeclaredType) : Prop :=
  ∃ field, registry.Contains type field target

variable {registry : Registry}

/-! ### Structs -/

theorem mem_structs {type : DeclaredType} :
    type ∈ registry.structs ↔ .declared type ∈ registry.types.types ∧ type.isStruct = true := by
  rw [structs, List.mem_filter, TypeTable.declared_mem_types_iff]

/-- A number stands for the struct that has it. -/
theorem Consistent.struct?_eq_some_iff (h : registry.Consistent) {id : TypeId}
    {type : DeclaredType} :
    registry.struct? id = some type ↔ type ∈ registry.structs ∧ type.id = id := by
  rw [struct?, Option.filter_eq_some_iff, Option.bind_eq_some_iff, mem_structs]
  constructor
  · rintro ⟨⟨found, hfound, hdeclared⟩, hstruct⟩
    obtain ⟨hmem, hid⟩ := h.types.type?_eq_some_iff.mp hfound
    cases found with
    | declared other =>
      obtain rfl := Option.some.inj hdeclared
      exact ⟨⟨hmem, hstruct⟩, hid⟩
    | primitive _ => cases hdeclared
    | container _ => cases hdeclared
  · rintro ⟨⟨hmem, hstruct⟩, hid⟩
    exact ⟨⟨.declared type, h.types.type?_eq_some_iff.mpr ⟨hmem, hid⟩, rfl⟩, hstruct⟩

theorem Consistent.eq_of_id_eq (h : registry.Consistent) {type other : DeclaredType}
    (htype : type ∈ registry.structs) (hother : other ∈ registry.structs)
    (hid : type.id = other.id) : type = other := by
  have hsame := eq_of_key_eq h.types.ids (mem_structs.mp htype).1 (mem_structs.mp hother).1 hid
  exact SchemaType.declared.inj hsame

/-- Structs are told apart by their names. -/
theorem Consistent.eq_of_name_eq (h : registry.Consistent) {type other : DeclaredType}
    (htype : type ∈ registry.structs) (hother : other ∈ registry.structs)
    (hname : type.name = other.name) : type = other := by
  have hnamed {struct : DeclaredType} (hstruct : struct ∈ registry.structs) :
      .declared struct ∈ registry.types.named :=
    TypeTable.mem_named.mpr ⟨(mem_structs.mp hstruct).1, rfl⟩
  exact SchemaType.declared.inj (eq_of_key_eq h.types.names (hnamed htype) (hnamed hother) hname)

/-! ### Fields that lead to structs -/

theorem structTargetWithin_isStruct (table : TypeTable) (steps : Nat) {id target : TypeId}
    (h : table.structTargetWithin steps id = some target) :
    ∃ type, table.type? target = some type ∧ type.isStruct = true := by
  induction steps generalizing id with
  | zero => cases h
  | succ steps ih =>
    rw [TypeTable.structTargetWithin] at h
    split at h
    case h_1 => cases h
    case h_2 => exact ih h
    case h_3 type _ htype =>
      split at h
      case h_1 =>
        by_cases hstruct : type.isStruct = true
        · rw [if_pos hstruct] at h
          obtain rfl := Option.some.inj h
          exact ⟨type, htype, hstruct⟩
        · rw [if_neg hstruct] at h
          cases h
      case h_2 => cases h
      case h_3 => exact ih h

/-- What is left of a type is a struct of the registry. -/
theorem Consistent.exists_target (h : registry.Consistent) {used id : TypeId}
    (htarget : registry.types.structTarget? used = some id) :
    ∃ target ∈ registry.structs, target.id = id := by
  obtain ⟨type, htype, hstruct⟩ := structTargetWithin_isStruct registry.types _ htarget
  obtain ⟨hmem, hid⟩ := h.types.type?_eq_some_iff.mp htype
  cases type with
  | declared type =>
    refine ⟨type, mem_structs.mpr ⟨hmem, ?_⟩, hid⟩
    obtain ⟨number, name, position, body⟩ := type
    cases body <;> first | rfl | cases hstruct
  | primitive _ => cases hstruct
  | container _ => cases hstruct

theorem mem_containment {type : DeclaredType} {edge : ContainmentEdge} :
    edge ∈ registry.containment type ↔
      (∃ id ∈ type.members, registry.node? id = some edge.field) ∧
        ∃ used, edge.field.type = some used ∧
          registry.types.structTarget? used = some edge.target := by
  rw [containment, List.mem_filterMap]
  constructor
  · rintro ⟨id, hid, hedge⟩
    obtain ⟨field, hfield, hedge⟩ := Option.bind_eq_some_iff.mp hedge
    obtain ⟨used, hused, hedge⟩ := Option.bind_eq_some_iff.mp hedge
    obtain ⟨target, htarget, hedge⟩ := Option.bind_eq_some_iff.mp hedge
    obtain rfl := Option.some.inj hedge
    exact ⟨⟨id, hid, hfield⟩, used, hused, htarget⟩
  · rintro ⟨⟨id, hid, hfield⟩, used, hused, htarget⟩
    refine ⟨id, hid, ?_⟩
    simp [hfield, hused, htarget]

/-- The edges of the walk are the fields that lead to structs. -/
theorem contains_iff {type target : DeclaredType} {field : GraphNode}
    (htype : type ∈ registry.structs) (htarget : target ∈ registry.structs) :
    registry.Contains type field target ↔ ⟨field, target.id⟩ ∈ registry.containment type := by
  rw [mem_containment]
  constructor
  · intro h
    exact ⟨h.member, h.leads⟩
  · rintro ⟨hmember, hleads⟩
    exact ⟨htype, hmember, htarget, hleads⟩

/-- Every edge leads to a struct. -/
theorem Consistent.exists_contains (h : registry.Consistent) {type : DeclaredType}
    (htype : type ∈ registry.structs) {edge : ContainmentEdge}
    (hedge : edge ∈ registry.containment type) :
    ∃ target, target.id = edge.target ∧ registry.Contains type edge.field target := by
  obtain ⟨-, used, hused, hleads⟩ := mem_containment.mp hedge
  obtain ⟨target, htarget, hid⟩ := h.exists_target hleads
  refine ⟨target, hid, (contains_iff htype htarget).mpr ?_⟩
  rw [hid]
  exact hedge

theorem Within.holder {type target : DeclaredType} (h : registry.Within type target) :
    type ∈ registry.structs := by
  obtain ⟨field, hfield⟩ := h
  exact hfield.holder

end GraphSchema.Registry
