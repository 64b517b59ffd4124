import GraphSchema.Document.Names
import GraphSchema.Proofs.Document.Places
import GraphSchema.Proofs.Grammar.Consumed

/-!
# Where problems show

A problem that shows while a document is read is at a name that was read, or at the first token of
an option of a union.  So it is at the start of a token that was taken (`Reading.problems_places`),
and in front of whatever stops the reading.
-/

namespace GraphSchema

theorem start_mem_starts {row : List Token} {token : Token} (h : token ∈ row) :
    token.start ∈ starts row :=
  List.mem_map_of_mem h

theorem starts_subset {row others : List Token} (h : row ⊆ others) : starts row ⊆ starts others :=
  List.map_subset _ h

/-! ### Problems with names -/

namespace DeclaredNames

/-- The places where names of a declaration stand, and its options. -/
def places : DeclaredNames → List Cursor
  | nothing => []
  | typeAlias name => [name.start]
  | enum name members | struct name members | endpoint name members =>
    name.start :: starts members
  | union name options => name.start :: options.map Designation.position
  | resolver name properties =>
    name.start :: properties.flatMap fun property => property.1.start :: starts property.2

theorem typeName?_mem_places {names : DeclaredNames} {name : Token}
    (h : names.typeName? = some name) : name.start ∈ names.places := by
  cases names <;> cases h <;> exact List.mem_cons_self ..

theorem endpointName?_mem_places {names : DeclaredNames} {name : Token}
    (h : names.endpointName? = some name) : name.start ∈ names.places := by
  cases names <;> cases h
  exact List.mem_cons_self ..

/-- What is reported about a repetition is at the later one. -/
theorem position_mem_of_repeats {α κ : Type} [DecidableEq κ] {key : α → κ} {place : α → Cursor}
    {report : α × α → Problem} {entries : List α} {problem : Problem}
    (h : problem ∈ (repeats key entries).map report)
    (later : ∀ pair, (report pair).position = place pair.2) :
    problem.position ∈ entries.map place := by
  obtain ⟨pair, hpair, rfl⟩ := List.mem_map.mp h
  rw [later]
  exact List.mem_map_of_mem (mem_of_mem_repeats key hpair)

theorem parameterProblems_places {nodeName : String} {parameters : List Token} {problem : Problem}
    (h : problem ∈ parameterProblems nodeName parameters) :
    problem.position ∈ starts parameters :=
  position_mem_of_repeats h fun _ => rfl

/-- A problem with members is at the place of one of them. -/
theorem memberProblems_places {names : DeclaredNames} {problem : Problem}
    (h : problem ∈ names.memberProblems) : problem.position ∈ names.places := by
  cases names with
  | nothing => cases h
  | typeAlias name => cases h
  | enum name values => exact List.mem_cons_of_mem _ (position_mem_of_repeats h fun _ => rfl)
  | union name options => exact List.mem_cons_of_mem _ (position_mem_of_repeats h fun _ => rfl)
  | struct name fields => exact List.mem_cons_of_mem _ (position_mem_of_repeats h fun _ => rfl)
  | resolver name properties =>
    refine List.mem_cons_of_mem _ ?_
    rcases List.mem_append.mp h with h | h
    · have hmem : problem.position ∈ properties.map fun property => property.1.start :=
        position_mem_of_repeats h fun _ => rfl
      obtain ⟨property, hproperty, hplace⟩ := List.mem_map.mp hmem
      exact List.mem_flatMap.mpr ⟨property, hproperty, by rw [hplace]; exact List.mem_cons_self ..⟩
    · obtain ⟨property, hproperty, h⟩ := List.mem_flatMap.mp h
      exact List.mem_flatMap.mpr ⟨property, hproperty,
        List.mem_cons_of_mem _ (parameterProblems_places h)⟩
  | endpoint name parameters => exact List.mem_cons_of_mem _ (parameterProblems_places h)

/-- A problem with the names of types is at one of these names. -/
theorem typeProblems_places {names : List Token} {problem : Problem}
    (h : problem ∈ typeProblems names) : problem.position ∈ starts names := by
  unfold typeProblems at h
  rw [List.partition_eq_filter_filter] at h
  dsimp only at h
  rcases List.mem_append.mp h with h | h
  · obtain ⟨name, hname, rfl⟩ := List.mem_map.mp h
    exact start_mem_starts (List.mem_of_mem_filter hname)
  · exact starts_subset List.filter_sublist.subset (position_mem_of_repeats h fun _ => rfl)

theorem endpointProblems_places {names : List Token} {problem : Problem}
    (h : problem ∈ endpointProblems names) : problem.position ∈ starts names :=
  position_mem_of_repeats h fun _ => rfl

/-- A problem with names is at a place of the names of a declaration. -/
theorem problems_places {names : List DeclaredNames} {problem : Problem}
    (h : problem ∈ problems names) : problem.position ∈ names.flatMap places := by
  rcases List.mem_append.mp h with h | h
  · rcases List.mem_append.mp h with h | h
    · obtain ⟨name, hname, hplace⟩ := List.mem_map.mp (typeProblems_places h)
      obtain ⟨declared, hdeclared, hname⟩ := List.mem_filterMap.mp hname
      exact List.mem_flatMap.mpr ⟨declared, hdeclared, hplace ▸ typeName?_mem_places hname⟩
    · obtain ⟨name, hname, hplace⟩ := List.mem_map.mp (endpointProblems_places h)
      obtain ⟨declared, hdeclared, hname⟩ := List.mem_filterMap.mp hname
      exact List.mem_flatMap.mpr ⟨declared, hdeclared, hplace ▸ endpointName?_mem_places hname⟩
  · obtain ⟨declared, hdeclared, h⟩ := List.mem_flatMap.mp h
    exact List.mem_flatMap.mpr ⟨declared, hdeclared, memberProblems_places h⟩

end DeclaredNames

/-! ### Names and tokens -/

/-- A designation begins with one of its tokens. -/
theorem TypeReference.position_sublist (type : TypeReference) :
    [type.designation.position].Sublist (starts type.tokens) := by
  cases hmodifiers : type.modifiers with
  | nil =>
    have hposition : type.designation.position = type.terminal.start := by
      rw [designation, hmodifiers]
      rfl
    rw [hposition]
    exact start_sublist (List.mem_append_right _ (List.mem_singleton.mpr rfl))
  | cons first others =>
    have hposition : type.designation.position = first.start := by
      rw [designation, hmodifiers]
      rfl
    rw [hposition, tokens, hmodifiers]
    exact start_sublist (List.mem_cons_self ..)

/-- The names of a signature stand at its tokens, in their order. -/
theorem Signature.names_places (signature : Signature) :
    (signature.names.1.start :: starts signature.names.2).Sublist (starts signature.tokens) := by
  have hparameters : starts signature.names.2 =
      signature.parameterList.map fun entry => entry.name.start := List.map_map
  rw [hparameters]
  exact signature.names_sublist

theorem OpenParameters.names_places (listing : OpenParameters) :
    (starts listing.names).Sublist (starts listing.tokens) := by
  obtain ⟨opening, entries, stage⟩ := listing
  refine List.Sublist.cons _ ?_
  rw [names, starts, List.map_append, List.map_append, List.map_map]
  refine List.Sublist.append ?_ ?_
  · exact map_sublist_starts (fun entry => start_sublist (List.mem_cons_self ..)) entries
  · cases stage with
    | name => exact List.Sublist.refl _
    | type name modifiers => exact List.nil_sublist _
    | separator parameter => exact start_sublist (List.mem_cons_self ..)

theorem OpenSignature.names_places (signature : OpenSignature) :
    (signature.names.1.start :: starts signature.names.2).Sublist (starts signature.tokens) := by
  cases signature with
  | named name => exact List.Sublist.refl _
  | parameters name listing => exact listing.names_places.cons_cons _
  | typed name listing modifiers =>
    refine List.Sublist.cons_cons name.start ?_
    cases listing with
    | none => exact List.nil_sublist _
    | some listing =>
      have hentry (entry : TypedName × Token) :
          [entry.1.name.start].Sublist (starts (entry.1.tokens ++ [entry.2])) :=
        start_sublist (List.mem_cons_self ..)
      have hparameters : starts (typed name (some listing) modifiers).names.2 =
          listing.entries.map fun entry => entry.1.name.start := List.map_map
      rw [hparameters, List.map_append]
      exact ((map_sublist_starts hentry listing.entries).cons _).trans
        (List.sublist_append_left _ _)

/-- The names of a body stand behind that of its declaration. -/
theorem Body.names_places (name : Token) (body : Body) :
    (body.names name).places.Sublist (name.start :: starts body.tokens) := by
  cases body with
  | enum values => exact List.Sublist.refl _
  | union options =>
    refine List.Sublist.cons_cons _ ?_
    rw [List.map_map]
    exact map_sublist_starts TypeReference.position_sublist options
  | struct fields =>
    refine List.Sublist.cons_cons _ ?_
    rw [starts, List.map_map]
    exact map_sublist_starts (fun _ => start_sublist (List.mem_cons_self ..)) fields
  | resolver properties =>
    refine List.Sublist.cons_cons _ ?_
    rw [List.flatMap_map]
    exact flatMap_sublist_starts Signature.names_places properties

/-- The names of a body that is cut off stand at the tokens taken so far. -/
theorem OpenBody.names_places (name : Token) (body : OpenBody) :
    (body.names name).places.Sublist (name.start :: starts body.tokens) := by
  cases body with
  | enum values => exact List.Sublist.refl _
  | union options modifiers =>
    refine List.Sublist.cons_cons _ ?_
    rw [List.map_map, tokens, starts, List.map_append]
    exact (map_sublist_starts TypeReference.position_sublist options).trans
      (List.sublist_append_left _ _)
  | struct fields pending =>
    refine List.Sublist.cons_cons _ ?_
    rw [starts, List.map_map, tokens, starts, List.map_append]
    exact (map_sublist_starts (fun _ => start_sublist (List.mem_cons_self ..)) fields).trans
      (List.sublist_append_left _ _)
  | resolver properties pending =>
    refine List.Sublist.cons_cons _ ?_
    rw [List.flatMap_append, List.flatMap_map, tokens, starts, List.map_append]
    refine (flatMap_sublist_starts Signature.names_places properties).append ?_
    cases pending with
    | none => exact List.Sublist.refl _
    | some signature =>
      rw [Option.map_some, Option.toList_some, List.flatMap_singleton]
      exact signature.names_places

theorem Declaration.names_places (declaration : Declaration) :
    declaration.names.places.Sublist (starts declaration.tokens) := by
  cases declaration with
  | typeAlias keyword name equals target => exact start_sublist (by simp [tokens])
  | block keyword name opening body closing =>
    refine (body.names_places name).trans ?_
    exact (((List.sublist_append_left _ _).cons _).cons_cons _).cons _ |>.map _
  | endpoint kind keyword signature => exact signature.names_places.cons _

theorem OpenDeclaration.names_places (declaration : OpenDeclaration) :
    declaration.names.places.Sublist (starts declaration.tokens) := by
  cases declaration with
  | aliasName keyword => exact List.nil_sublist _
  | aliasEquals keyword name => exact List.nil_sublist _
  | aliasTarget keyword name equals => exact List.nil_sublist _
  | blockName kind keyword => exact List.nil_sublist _
  | blockBrace kind keyword name =>
    have hname : ((OpenBody.empty kind).names name).places = [name.start] := by
      cases kind <;> rfl
    rw [names, hname]
    exact start_sublist (by simp [tokens])
  | blockBody keyword name opening body =>
    exact (body.names_places name).trans ((List.sublist_cons_self _ _).cons_cons _ |>.cons _)
  | endpointName kind keyword => exact List.nil_sublist _
  | endpoint kind keyword signature => exact signature.names_places.cons _

/-- The names that are read stand at tokens that were taken. -/
theorem Reading.names_places (reading : Reading) :
    (reading.names.flatMap DeclaredNames.places).Sublist (starts reading.tokens) := by
  cases reading with
  | start => exact List.nil_sublist _
  | headed keyword => exact List.nil_sublist _
  | body header declarations pending =>
    rw [names, List.flatMap_append, List.flatMap_map, tokens, starts, List.map_append,
      List.map_append]
    refine List.Sublist.append ?_ ?_
    · exact (flatMap_sublist_starts Declaration.names_places declarations).trans
        (List.sublist_append_right _ _)
    · cases pending with
      | none => exact List.Sublist.refl _
      | some opened =>
        rw [pending?, Option.map_some, Option.toList_some, List.flatMap_singleton]
        exact opened.names_places

/-- A shortage of members is reported at the name of the declaration. -/
theorem Declaration.shortages_places {declaration : Declaration} {problem : Problem}
    (h : problem ∈ declaration.shortages) : problem.position ∈ starts declaration.tokens := by
  have hname (keyword name opening closing : Token) (body : Body) :
      name.start ∈ starts (block keyword name opening body closing).tokens :=
    start_mem_starts (List.mem_cons_of_mem _ (List.mem_cons_self ..))
  unfold shortages at h
  split at h
  case h_2 =>
    split at h
    · rw [List.mem_singleton.mp h]
      exact hname _ _ _ _ _
    · cases h
  case h_5 => cases h
  all_goals
    rw [List.mem_singleton.mp h]
    exact hname _ _ _ _ _

/-- A problem that shows is at the start of a token that was taken. -/
theorem Reading.problems_places {reading : Reading} {problem : Problem}
    (h : problem ∈ reading.problems) : problem.position ∈ starts reading.tokens := by
  rcases List.mem_append.mp h with h | h
  · exact reading.names_places.subset (DeclaredNames.problems_places h)
  · obtain ⟨declaration, hdeclaration, hshortage⟩ := List.mem_flatMap.mp h
    cases reading with
    | start => cases hdeclaration
    | headed keyword => cases hdeclaration
    | body header declarations pending =>
      refine starts_subset ?_ (Declaration.shortages_places hshortage)
      intro token htoken
      exact List.mem_append_left _ (List.mem_append_right _
        (List.mem_flatMap.mpr ⟨declaration, hdeclaration, htoken⟩))

end GraphSchema
