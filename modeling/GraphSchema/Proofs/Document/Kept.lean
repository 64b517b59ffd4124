import GraphSchema.Proofs.Document.Distinct
import Mathlib.Data.List.Induction

/-!
# What is kept of a document

A declaration is left out if its name is that of a primitive type or was declared before it, also
if it was declared by a declaration that is left out itself (`Declaration.IsNewAfter`).  Of the
members of a declaration, and of the parameters of a list, those are left out whose name was used
before in the same place (`Declaration.kept`).  What is kept of a document is a row of declarations
whose names are distinct in every namespace (`Document.namesDistinct_kept`,
`Document.membersDistinct_kept`), and exactly the names that are not primitive are kept
(`Document.mem_typeNames_kept`).
-/

namespace GraphSchema

/-- Of each name the first parameter. -/
def ParameterListing.kept (listing : ParameterListing) : ParameterListing :=
  { listing with entries := firsts (fun entry => entry.1.name.text) listing.entries }

/-- A property or an endpoint with the parameters that are kept. -/
def Signature.kept (signature : Signature) : Signature :=
  { signature with parameters := signature.parameters.map ParameterListing.kept }

/-- Of each name the first member, and of each designation the first option. -/
def Body.kept : Body → Body
  | enum values => .enum (firsts Token.text values)
  | union options => .union (firsts (fun option => option.designation.canonical) options)
  | struct fields => .struct (firsts (fun field => field.name.text) fields)
  | resolver properties =>
    .resolver ((firsts (fun property => property.name.text) properties).map Signature.kept)

/-- A declaration with the members that are kept. -/
def Declaration.kept : Declaration → Declaration
  | typeAlias keyword name equals target => .typeAlias keyword name equals target
  | block keyword name opening body closing => .block keyword name opening body.kept closing
  | endpoint kind keyword signature => .endpoint kind keyword signature.kept

/-- The name of a declaration is not primitive, and none of the declarations before it has it in
the same namespace. -/
def Declaration.IsNewAfter (before : List Declaration) (declaration : Declaration) : Prop :=
  (∀ name ∈ declaration.typeName?,
    Primitive.ofName? name.text = none ∧ name.text ∉ Document.typeNames before) ∧
  ∀ name ∈ declaration.endpointName?, name.text ∉ Document.endpointNames before

instance (before : List Declaration) (declaration : Declaration) :
    Decidable (declaration.IsNewAfter before) :=
  inferInstanceAs (Decidable (_ ∧ _))

namespace Document

/-- What is kept of declarations that follow others. -/
def keptAfter (before : List Declaration) : List Declaration → List Declaration
  | [] => []
  | declaration :: rest =>
    if declaration.IsNewAfter before then
      declaration.kept :: keptAfter (before ++ [declaration]) rest
    else keptAfter (before ++ [declaration]) rest

/-- What is kept of the declarations of a document. -/
def kept (declarations : List Declaration) : List Declaration :=
  keptAfter [] declarations

end Document

/-! ### Names -/

@[simp]
theorem Declaration.typeName?_kept (declaration : Declaration) :
    declaration.kept.typeName? = declaration.typeName? := by
  cases declaration <;> rfl

@[simp]
theorem Declaration.endpointName?_kept (declaration : Declaration) :
    declaration.kept.endpointName? = declaration.endpointName? := by
  cases declaration <;> rfl

/-- The name of a declaration that is left out is primitive, or it was used before. -/
theorem Declaration.taken_of_not_isNewAfter {before : List Declaration} {declaration : Declaration}
    (h : ¬ declaration.IsNewAfter before) :
    (∃ name, declaration.typeName? = some name ∧ declaration.endpointName? = none ∧
      (Primitive.ofName? name.text = none → name.text ∈ Document.typeNames before)) ∨
    ∃ name, declaration.typeName? = none ∧ declaration.endpointName? = some name ∧
      name.text ∈ Document.endpointNames before := by
  have htype (name : Token) (htypeName : declaration.typeName? = some name)
      (hnone : declaration.endpointName? = none)
      (hprimitive : Primitive.ofName? name.text = none) :
      name.text ∈ Document.typeNames before := by
    by_contra hnew
    refine h ⟨?_, ?_⟩
    · rintro same hsame
      obtain rfl := Option.some.inj (htypeName.symm.trans hsame)
      exact ⟨hprimitive, hnew⟩
    · rintro same hsame
      rw [hnone] at hsame
      cases hsame
  cases declaration with
  | typeAlias keyword name equals target => exact .inl ⟨name, rfl, rfl, htype name rfl rfl⟩
  | block keyword name opening body closing => exact .inl ⟨name, rfl, rfl, htype name rfl rfl⟩
  | endpoint kind keyword signature =>
    refine .inr ⟨signature.name, rfl, rfl, ?_⟩
    by_contra hnew
    refine h ⟨?_, ?_⟩
    · rintro same hsame
      cases hsame
    · rintro same hsame
      obtain rfl := Option.some.inj hsame
      exact hnew

namespace Document

theorem keptAfter_concat (before declarations : List Declaration) (declaration : Declaration) :
    keptAfter before (declarations ++ [declaration]) = keptAfter before declarations ++
      if declaration.IsNewAfter (before ++ declarations) then [declaration.kept] else [] := by
  induction declarations generalizing before with
  | nil =>
    rw [List.nil_append, List.append_nil, keptAfter, keptAfter, keptAfter]
    rfl
  | cons first rest ih =>
    rw [List.cons_append, keptAfter, keptAfter, ih, List.append_assoc, List.singleton_append]
    split <;> rfl

/-- The last declaration is kept if its name is new. -/
theorem kept_concat (declarations : List Declaration) (declaration : Declaration) :
    kept (declarations ++ [declaration]) = kept declarations ++
      if declaration.IsNewAfter declarations then [declaration.kept] else [] :=
  keptAfter_concat [] declarations declaration

theorem typeNames_singleton (declaration : Declaration) :
    typeNames [declaration] = (declaration.typeName?.map Token.text).toList := by
  cases hname : declaration.typeName? <;> simp [typeNames, hname]

theorem endpointNames_singleton (declaration : Declaration) :
    endpointNames [declaration] = (declaration.endpointName?.map Token.text).toList := by
  cases hname : declaration.endpointName? <;> simp [endpointNames, hname]

/-- A name of a type is kept unless it is primitive. -/
theorem mem_typeNames_kept (declarations : List Declaration) (name : String) :
    name ∈ typeNames (kept declarations) ↔
      name ∈ typeNames declarations ∧ Primitive.ofName? name = none := by
  induction declarations using List.reverseRecOn with
  | nil => simp [kept, keptAfter, typeNames]
  | append_singleton declarations declaration ih =>
    rw [kept_concat, typeNames_append, List.mem_append, ih, typeNames_append, List.mem_append,
      typeNames_singleton]
    by_cases hnew : declaration.IsNewAfter declarations
    · -- the declaration is kept, and its name is not primitive
      rw [if_pos hnew, typeNames_singleton, Declaration.typeName?_kept, or_and_right]
      refine or_congr_right ⟨fun hmem => ⟨hmem, ?_⟩, And.left⟩
      obtain ⟨token, htoken, rfl⟩ := Option.map_eq_some_iff.mp (Option.mem_toList.mp hmem)
      exact (hnew.1 token htoken).1
    · rw [if_neg hnew]
      constructor
      · rintro (hold | hnone)
        · exact ⟨.inl hold.1, hold.2⟩
        · cases hnone
      · -- the name was declared before
        rintro ⟨hold | hlast, hprimitive⟩
        · exact .inl ⟨hold, hprimitive⟩
        · refine .inl ⟨?_, hprimitive⟩
          rcases Declaration.taken_of_not_isNewAfter hnew with
            ⟨token, htoken, -, htaken⟩ | ⟨token, hnone, -, -⟩
          · rw [htoken, Option.map_some, Option.toList_some, List.mem_singleton] at hlast
            rw [hlast] at hprimitive ⊢
            exact htaken hprimitive
          · rw [hnone] at hlast
            cases hlast

/-- Every name of an endpoint is kept. -/
theorem mem_endpointNames_kept (declarations : List Declaration) (name : String) :
    name ∈ endpointNames (kept declarations) ↔ name ∈ endpointNames declarations := by
  induction declarations using List.reverseRecOn with
  | nil => simp [kept, keptAfter]
  | append_singleton declarations declaration ih =>
    rw [kept_concat, endpointNames_append, List.mem_append, ih, endpointNames_append,
      List.mem_append, endpointNames_singleton]
    by_cases hnew : declaration.IsNewAfter declarations
    · rw [if_pos hnew, endpointNames_singleton, Declaration.endpointName?_kept]
    · rw [if_neg hnew]
      constructor
      · rintro (hold | hnone)
        · exact .inl hold
        · cases hnone
      · rintro (hold | hlast)
        · exact .inl hold
        · rcases Declaration.taken_of_not_isNewAfter hnew with
            ⟨token, -, hnone, -⟩ | ⟨token, -, htoken, htaken⟩
          · rw [hnone] at hlast
            cases hlast
          · rw [htoken, Option.map_some, Option.toList_some, List.mem_singleton] at hlast
            rw [hlast]
            exact .inl htaken

/-- Names stay distinct if a new one is added, or none. -/
theorem nodup_append_name {names : List String} {name? : Option Token} (h : names.Nodup)
    (new : ∀ name ∈ name?, name.text ∉ names) :
    (names ++ (name?.map Token.text).toList).Nodup := by
  refine List.nodup_append.mpr ⟨h, by cases name? <;> simp, ?_⟩
  rintro name hname other hother rfl
  obtain ⟨token, htoken, rfl⟩ := Option.map_eq_some_iff.mp (Option.mem_toList.mp hother)
  exact new token htoken hname

/-- The names that are kept are distinct in each namespace. -/
theorem namesDistinct_kept (declarations : List Declaration) :
    NamesDistinct (kept declarations) := by
  refine ⟨?_, ?_, ?_⟩
  · induction declarations using List.reverseRecOn with
    | nil => exact .nil
    | append_singleton declarations declaration ih =>
      rw [kept_concat, typeNames_append]
      by_cases hnew : declaration.IsNewAfter declarations
      · rw [if_pos hnew, typeNames_singleton, Declaration.typeName?_kept]
        exact nodup_append_name ih fun name hname hold =>
          (hnew.1 name hname).2 ((mem_typeNames_kept declarations _).mp hold).1
      · rw [if_neg hnew]
        exact List.nodup_append.mpr ⟨ih, .nil, by simp [typeNames]⟩
  · intro name hname
    exact ((mem_typeNames_kept declarations name).mp hname).2
  · induction declarations using List.reverseRecOn with
    | nil => exact .nil
    | append_singleton declarations declaration ih =>
      rw [kept_concat, endpointNames_append]
      by_cases hnew : declaration.IsNewAfter declarations
      · rw [if_pos hnew, endpointNames_singleton, Declaration.endpointName?_kept]
        exact nodup_append_name ih fun name hname hold =>
          hnew.2 name hname ((mem_endpointNames_kept declarations _).mp hold)
      · rw [if_neg hnew]
        exact List.nodup_append.mpr ⟨ih, .nil, by simp [endpointNames]⟩

end Document

/-! ### Members -/

theorem Signature.parameterList_kept (signature : Signature) :
    signature.kept.parameterList =
      firsts (fun parameter => parameter.name.text) signature.parameterList := by
  unfold parameterList kept
  cases signature.parameters with
  | none => rfl
  | some listing =>
    exact (firsts_map (fun parameter : TypedName => parameter.name.text) Prod.fst _).symm

theorem Signature.parametersDistinct_kept (signature : Signature) :
    signature.kept.ParametersDistinct := by
  rw [ParametersDistinct, parameterList_kept]
  exact nodup_firsts _ _

theorem Body.membersDistinct_kept (body : Body) : body.kept.MembersDistinct := by
  cases body with
  | enum values => exact nodup_firsts _ _
  | union options => exact nodup_firsts _ _
  | struct fields => exact nodup_firsts _ _
  | resolver properties =>
    refine ⟨?_, ?_⟩
    · rw [List.map_map]
      exact nodup_firsts _ _
    · intro property hproperty
      obtain ⟨written, -, rfl⟩ := List.mem_map.mp hproperty
      exact written.parametersDistinct_kept

theorem Declaration.membersDistinct_kept (declaration : Declaration) :
    declaration.kept.MembersDistinct := by
  cases declaration with
  | typeAlias keyword name equals target => exact trivial
  | block keyword name opening body closing => exact body.membersDistinct_kept
  | endpoint kind keyword signature => exact signature.parametersDistinct_kept

namespace Document

theorem exists_of_mem_keptAfter {before declarations : List Declaration} {declaration : Declaration}
    (h : declaration ∈ keptAfter before declarations) :
    ∃ written ∈ declarations, declaration = written.kept := by
  induction declarations generalizing before with
  | nil => cases h
  | cons first rest ih =>
    rw [keptAfter] at h
    split at h
    · rcases List.mem_cons.mp h with rfl | h
      · exact ⟨first, List.mem_cons_self .., rfl⟩
      · obtain ⟨written, hwritten, hkept⟩ := ih h
        exact ⟨written, List.mem_cons_of_mem _ hwritten, hkept⟩
    · obtain ⟨written, hwritten, hkept⟩ := ih h
      exact ⟨written, List.mem_cons_of_mem _ hwritten, hkept⟩

/-- What is kept is a declaration with a new name, with the members that are kept. -/
theorem exists_new_of_mem_kept {declarations : List Declaration} {declaration : Declaration}
    (h : declaration ∈ kept declarations) : ∃ front written back,
      declarations = front ++ written :: back ∧ written.IsNewAfter front ∧
        declaration = written.kept := by
  induction declarations using List.reverseRecOn with
  | nil => cases h
  | append_singleton declarations last ih =>
    rw [kept_concat] at h
    rcases List.mem_append.mp h with hold | hlast
    · obtain ⟨front, written, back, rfl, hnew, rfl⟩ := ih hold
      exact ⟨front, written, back ++ [last], by simp, hnew, rfl⟩
    · split at hlast
      case isTrue hnew =>
        exact ⟨declarations, last, [], rfl, hnew, List.mem_singleton.mp hlast⟩
      case isFalse => cases hlast

/-- The members that are kept are distinct. -/
theorem membersDistinct_kept (declarations : List Declaration) :
    ∀ declaration ∈ kept declarations, declaration.MembersDistinct := by
  intro declaration hdeclaration
  obtain ⟨written, -, rfl⟩ := exists_of_mem_keptAfter hdeclaration
  exact written.membersDistinct_kept

end Document

end GraphSchema
