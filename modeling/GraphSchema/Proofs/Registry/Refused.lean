import GraphSchema.Proofs.Registry.Kept
import GraphSchema.Proofs.Registry.Resolved

/-!
# Names that are taken

A registry refuses a declaration whose name is taken (`Registry.Refuses`), and is left as it is
(`Registry.add_of_refuses`).  Of a document those declarations are refused whose name is primitive
or was used before, by whatever declaration (`Registry.refuses_ofDeclarations_iff`).
-/

namespace GraphSchema.Registry

variable {registry : Registry} {declaration : Declaration}

/-- The name of a declaration is taken. -/
def Refuses (registry : Registry) (declaration : Declaration) : Prop :=
  (∃ name ∈ declaration.typeName?, (registry.types.named? name.text).isSome) ∨
    ∃ name ∈ declaration.endpointName?, (registry.endpoint? name.text).isSome

instance (registry : Registry) (declaration : Declaration) :
    Decidable (registry.Refuses declaration) :=
  inferInstanceAs (Decidable (_ ∨ _))

theorem add_of_refuses (h : registry.Refuses declaration) :
    registry.add declaration = registry := by
  obtain ⟨name, hname, htaken⟩ | ⟨name, hname, htaken⟩ := h
  · exact add_of_isSome_named? hname htaken
  · exact add_of_isSome_endpoint? hname htaken

/-- Of a document those declarations are refused whose name is primitive or was used before. -/
theorem refuses_ofDeclarations_iff {declarations : List Declaration} :
    (ofDeclarations declarations).Refuses declaration ↔ ¬ declaration.IsNewAfter declarations := by
  have hnamed (name : Token) : ((ofDeclarations declarations).types.named? name.text).isSome ↔
      ¬ (Primitive.ofName? name.text = none ∧ name.text ∉ Document.typeNames declarations) := by
    rw [(records_kept declarations).isSome_named?_iff (consistent_ofDeclarations declarations),
      Document.mem_typeNames_kept, Option.isSome_iff_ne_none]
    tauto
  have hendpoint (name : Token) : ((ofDeclarations declarations).endpoint? name.text).isSome ↔
      ¬ name.text ∉ Document.endpointNames declarations := by
    rw [← Document.mem_endpointNames_kept, not_not]
    refine ⟨fun hsome => ?_, (records_kept declarations).isSome_endpoint?⟩
    by_contra hnew
    rw [(records_kept declarations).endpoint?_eq_none hnew] at hsome
    cases hsome
  unfold Refuses Declaration.IsNewAfter
  simp only [hnamed, hendpoint, not_and_or, Classical.not_forall, exists_prop]

end GraphSchema.Registry
