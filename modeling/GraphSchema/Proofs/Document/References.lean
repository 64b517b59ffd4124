import GraphSchema.Proofs.Document.Accepted
import GraphSchema.Proofs.Document.Designations
import GraphSchema.Proofs.Document.Kept

/-!
# References that are kept

The designations of what is kept of a declaration are some of the designations that the declaration
writes, in their order (`Declaration.references_kept`).  They are read from the tokens of the source
text (`TokenStream.Spells.exists_readFrom`), so they end in the names of types, and none of these
names begins like a modifier (`TokenStream.Spells.plainName`).
-/

namespace GraphSchema

/-! ### Designations that are kept -/

theorem Signature.references_kept (place : NodePlace) (signature : Signature) :
    (signature.kept.written place).references.Sublist (signature.written place).references := by
  rw [WrittenNode.references, WrittenNode.references, written, written, parameterList_kept]
  exact ((firsts_sublist _ _).map _).append_right _

/-- The designations that are kept are some of those that are written, in the same order. -/
theorem Declaration.references_kept (declaration : Declaration) :
    declaration.kept.references.Sublist declaration.references := by
  cases declaration with
  | typeAlias keyword name equals target => exact List.Sublist.refl _
  | block keyword name opening body closing =>
    cases body with
    | enum values => exact List.Sublist.refl _
    | union options => exact (firsts_sublist _ _).map _
    | struct fields => exact ((firsts_sublist _ _).map _).flatMap _
    | resolver properties =>
      have hkept := (firsts_sublist (fun property => property.name.text) properties).flatMap
        fun property => (property.written (.property name)).references
      show List.Sublist (List.flatMap WrittenNode.references (((firsts _ properties).map
        Signature.kept).map (Signature.written (.property name))))
        ((properties.map (Signature.written (.property name))).flatMap WrittenNode.references)
      rw [List.map_map, List.flatMap_map, List.flatMap_map]
      exact (List.Sublist.flatMap_right _ fun property _ =>
        property.references_kept (.property name)).trans hkept
  | endpoint kind keyword signature =>
    show List.Sublist
      ([signature.kept.written (.endpoint kind)].flatMap WrittenNode.references)
      ([signature.written (.endpoint kind)].flatMap WrittenNode.references)
    rw [List.flatMap_singleton, List.flatMap_singleton]
    exact signature.references_kept (.endpoint kind)

/-- What is kept of a document refers to nothing that the document does not refer to. -/
theorem Document.references_kept_subset (declarations : List Declaration) :
    (kept declarations).flatMap Declaration.references ⊆
      declarations.flatMap Declaration.references := by
  intro reference hreference
  obtain ⟨declaration, hdeclaration, hmem⟩ := List.mem_flatMap.mp hreference
  obtain ⟨written, hwritten, rfl⟩ := exists_of_mem_keptAfter hdeclaration
  exact List.mem_flatMap.mpr ⟨written, hwritten, written.references_kept.subset hmem⟩

/-! ### Names of designations -/

/-- The name of a designation in a source text is the name of a type. -/
theorem TypeReference.ReadFrom.ofWord_terminal {file : Path} {source : String}
    {type : TypeReference} (h : type.ReadFrom (Schema.stream file source).tokens) :
    TokenKind.ofWord type.designation.terminal = .typeName := by
  have hterminal : type.terminal ∈ (Schema.stream file source).tokens :=
    h.consecutive.subset (List.mem_append_right _ (List.mem_singleton_self _))
  have hword := TokenStream.kind_of_isWord hterminal (by rw [h.grammatical.terminal]; rfl)
  rw [h.grammatical.terminal] at hword
  exact hword.symm

namespace TokenStream.Spells

variable {file : Path} {source : String} {document : Document}
  (h : (Schema.stream file source).Spells document)
include h

/-- What a document of a source text refers to is written in the source text. -/
theorem exists_readFrom {reference : Designation}
    (mem : reference ∈ document.declarations.flatMap Declaration.references) :
    ∃ type : TypeReference, type.designation = reference ∧
      type.ReadFrom (Schema.stream file source).tokens := by
  obtain ⟨declaration, hdeclaration, hreference⟩ := List.mem_flatMap.mp mem
  rw [declaration.references_eq] at hreference
  obtain ⟨type, htype, rfl⟩ := List.mem_map.mp hreference
  have hown := (h.grammatical.declarations declaration hdeclaration).readFrom type htype
  rw [← h.tokens]
  exact ⟨type, rfl, (hown.of_member hdeclaration).append_left _⟩

/-- The designations that are kept of a source text name types that no modifier begins. -/
theorem plainName :
    ∀ reference ∈ (Document.kept document.declarations).flatMap Declaration.references,
      PlainName reference.terminal := by
  intro reference hmem
  obtain ⟨type, rfl, htype⟩ := h.exists_readFrom (Document.references_kept_subset _ hmem)
  exact TokenKind.plainName_of_ofWord htype.ofWord_terminal

end TokenStream.Spells

end GraphSchema
