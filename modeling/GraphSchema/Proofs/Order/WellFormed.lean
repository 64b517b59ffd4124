import GraphSchema.Proofs.Acceptance.WellFormed

/-!
# Well-formed documents in any order

Which names are declared, and what is reached from a name, depends on the set of declarations only.
So a document stays well-formed when its declarations are put into another order
(`Document.WellFormed.perm`).
-/

namespace GraphSchema

namespace Document

variable {declarations others : List Declaration}

/-- The type names are the same ones, in another order. -/
theorem typeNames_perm (h : declarations.Perm others) :
    (typeNames declarations).Perm (typeNames others) :=
  (h.filterMap _).map _

theorem endpointNames_perm (h : declarations.Perm others) :
    (endpointNames declarations).Perm (endpointNames others) :=
  (h.filterMap _).map _

/-- Which body a name has is asked of the set of declarations. -/
theorem declaresBody_perm (h : declarations.Perm others) :
    DeclaresBody declarations = DeclaresBody others := by
  funext name body
  unfold DeclaresBody
  simp only [h.mem_iff]

theorem isStruct_perm (h : declarations.Perm others) : IsStruct declarations = IsStruct others := by
  funext name
  rw [IsStruct, declaresBody_perm h, IsStruct]

theorem isResolver_perm (h : declarations.Perm others) :
    IsResolver declarations = IsResolver others := by
  funext name
  rw [IsResolver, declaresBody_perm h, IsResolver]

/-- An alias stands for the same name in any order. -/
theorem aliases_perm (h : declarations.Perm others) : Aliases declarations = Aliases others := by
  have hmono {some more : List Declaration} (hmem : some ⊆ more) {name target : String}
      (halias : Aliases some name target) : Aliases more name target := by
    cases halias with
    | mk mem => exact .mk (hmem mem)
  funext name target
  exact propext ⟨hmono h.subset, hmono h.symm.subset⟩

/-- A struct holds the same structs in any order. -/
theorem contains_perm (h : declarations.Perm others) : Contains declarations = Contains others := by
  funext name held
  rw [Contains, declaresBody_perm h, aliases_perm h, isStruct_perm h, Contains]

/-- A name carries data in any order or in none. -/
theorem carriesData_perm (h : declarations.Perm others) :
    CarriesData declarations = CarriesData others := by
  have hcarries : Carries declarations = Carries others := by
    funext name carried
    rw [Carries, declaresBody_perm h, aliases_perm h, Carries]
  funext name
  rw [CarriesData, hcarries, isResolver_perm h, CarriesData]

/-- A document stays well-formed when its declarations are put into another order. -/
theorem WellFormed.perm {header : Header} (h : declarations.Perm others)
    (wellFormed : WellFormed ⟨header, declarations⟩) : WellFormed ⟨header, others⟩ := by
  obtain ⟨⟨htypes, hprimitives, hendpointNames⟩, hmembers, hknown, haliases, hstructs, hoptions,
    hfields, hparameters, hendpoints⟩ := wellFormed
  dsimp only at *
  rw [declaresBody_perm h, aliases_perm h] at hoptions
  rw [declaresBody_perm h, carriesData_perm h] at hfields
  rw [carriesData_perm h] at hparameters
  refine ⟨⟨(typeNames_perm h).nodup_iff.mp htypes, ?_, (endpointNames_perm h).nodup_iff.mp
    hendpointNames⟩, ?_, ?_, aliases_perm h ▸ haliases, contains_perm h ▸ hstructs, hoptions,
    hfields, ?_, ?_⟩
  · intro name hname
    exact hprimitives name ((typeNames_perm h).mem_iff.mpr hname)
  · intro declaration hdeclaration
    exact hmembers declaration (h.mem_iff.mpr hdeclaration)
  · intro reference hreference
    rcases hknown reference ((h.flatMap_right _).mem_iff.mpr hreference) with hprimitive | hdeclared
    · exact .inl hprimitive
    · exact .inr ((typeNames_perm h).mem_iff.mp hdeclared)
  · intro written hwritten
    exact hparameters written ((h.flatMap_right _).mem_iff.mpr hwritten)
  · intro hnil
    apply hendpoints
    exact List.Perm.eq_nil (hnil ▸ endpointNames_perm h)

end Document

end GraphSchema
