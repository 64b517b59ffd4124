import GraphSchema.Proofs.Steps
import GraphSchema.Proofs.Types.Consistent
import GraphSchema.Types.Reference

/-!
# Targets of references

Aliases lead to types (`TypeTable.AliasStep`), and so do containers (`TypeTable.Leads`).  The target
of a type is what its references lead to in the end: the type that is no alias
(`TypeTable.aliasTarget?_eq_some_iff`), and the struct, if it is one
(`TypeTable.structTarget?_eq_some_iff`).
-/

namespace GraphSchema.TypeTable

open Relation

variable {table : TypeTable}

/-- An alias leads to the type that it stands for. -/
def AliasStep (table : TypeTable) (id next : TypeId) : Prop :=
  ∃ type, table.type? id = some type ∧ type.aliased? = some (some next)

/-- A container leads to its terminal, an alias to the type that it stands for. -/
def Leads (table : TypeTable) (id next : TypeId) : Prop :=
  (∃ container, table.type? id = some (.container container) ∧ container.terminal = next) ∨
    table.AliasStep id next

/-- A type is known and no alias. -/
def IsTarget (table : TypeTable) (id : TypeId) : Prop :=
  ∃ type, table.type? id = some type ∧ type.aliased? = none

/-- A type is a struct. -/
def IsStructId (table : TypeTable) (id : TypeId) : Prop :=
  ∃ type, table.type? id = some type ∧ type.isStruct = true

theorem mem_ids_of_type? {id : TypeId} {type : SchemaType} (h : table.type? id = some type) :
    id ∈ table.types.map SchemaType.id := by
  have hid : type.id = id := by simpa using List.find?_some h
  rw [← hid]
  exact List.mem_map_of_mem (List.mem_of_find?_eq_some h)

theorem AliasStep.unique {id next other : TypeId} (h : table.AliasStep id next)
    (hother : table.AliasStep id other) : next = other := by
  obtain ⟨type, htype, haliased⟩ := h
  obtain ⟨same, hsame, hagain⟩ := hother
  rw [htype] at hsame
  obtain rfl := Option.some.inj hsame
  rw [haliased] at hagain
  exact Option.some.inj (Option.some.inj hagain)

/-! ### The target of aliases -/

theorem follows_aliasTargetWithin (table : TypeTable) :
    Follows table.AliasStep table.IsTarget table.aliasTargetWithin := by
  refine ⟨fun _ => rfl, ?_, ?_, ?_⟩
  · rintro steps id ⟨type, htype, haliased⟩
    simp only [aliasTargetWithin, htype, haliased]
  · rintro steps id next ⟨type, htype, haliased⟩
    simp only [aliasTargetWithin, htype, haliased]
  · intro steps id target h
    unfold aliasTargetWithin at h
    split at h
    case h_1 => cases h
    case h_2 type htype =>
      split at h
      case h_1 haliased => exact .inl ⟨⟨type, htype, haliased⟩, Option.some.inj h⟩
      case h_2 => cases h
      case h_3 next haliased => exact .inr ⟨next, ⟨type, htype, haliased⟩, h⟩

/-- The target of a type is the type that is no alias to which its aliases lead. -/
theorem aliasTarget?_eq_some_iff {id target : TypeId} :
    table.aliasTarget? id = some target ↔
      ReflTransGen table.AliasStep id target ∧ table.IsTarget target := by
  refine (follows_aliasTargetWithin table).eq_some_iff ?_ ?_
    (Nat.le_succ_of_le (Nat.le_of_eq (List.length_map SchemaType.id)))
  · rintro id next ⟨type, htype, -⟩
    exact mem_ids_of_type? htype
  · rintro id ⟨type, htype, -⟩
    exact mem_ids_of_type? htype

/-! ### The struct behind a type -/

theorem follows_structTargetWithin (table : TypeTable) :
    Follows table.Leads table.IsStructId table.structTargetWithin := by
  refine ⟨fun _ => rfl, ?_, ?_, ?_⟩
  · rintro steps id ⟨type, htype, hstruct⟩
    cases type with
    | primitive primitive => cases hstruct
    | container container => cases hstruct
    | declared type =>
      obtain ⟨number, name, position, body⟩ := type
      cases body with
      | struct fields => simp [structTargetWithin, htype, SchemaType.aliased?, SchemaType.isStruct]
      | typeAlias target aliased => cases hstruct
      | enum values => cases hstruct
      | union options => cases hstruct
      | resolver properties => cases hstruct
  · rintro steps id next (⟨container, htype, rfl⟩ | ⟨type, htype, haliased⟩)
    · simp only [structTargetWithin, htype]
    · cases type with
      | primitive primitive => cases haliased
      | container container => cases haliased
      | declared type => simp only [structTargetWithin, htype, haliased]
  · -- containers come first, then aliases; whatever is neither is the end
    intro steps id target h
    unfold structTargetWithin at h
    split at h
    case h_1 => cases h
    case h_2 container htype => exact .inr ⟨container.terminal, .inl ⟨container, htype, rfl⟩, h⟩
    case h_3 type _ htype =>
      split at h
      case h_1 =>
        by_cases hstruct : type.isStruct = true
        · rw [if_pos hstruct] at h
          exact .inl ⟨⟨type, htype, hstruct⟩, Option.some.inj h⟩
        · rw [if_neg hstruct] at h
          cases h
      case h_2 => cases h
      case h_3 next haliased => exact .inr ⟨next, .inr ⟨type, htype, haliased⟩, h⟩

/-- The struct that is left of a type is the one to which its references lead. -/
theorem structTarget?_eq_some_iff {id target : TypeId} :
    table.structTarget? id = some target ↔
      ReflTransGen table.Leads id target ∧ table.IsStructId target := by
  refine (follows_structTargetWithin table).eq_some_iff ?_ ?_
    (Nat.le_succ_of_le (Nat.le_of_eq (List.length_map SchemaType.id)))
  · rintro id next (⟨container, htype, -⟩ | ⟨type, htype, -⟩)
    · exact mem_ids_of_type? htype
    · exact mem_ids_of_type? htype
  · rintro id ⟨type, htype, -⟩
    exact mem_ids_of_type? htype

end GraphSchema.TypeTable
