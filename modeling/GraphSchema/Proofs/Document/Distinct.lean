import GraphSchema.Document.Names
import GraphSchema.Proofs.Lookup

/-!
# Names and members of a document

What a document has to satisfy before its references are looked at: the names of its types are
distinct and not those of primitive types, the names of its endpoints are distinct
(`Document.NamesDistinct`), and every declaration has members enough, with distinct names
(`Declaration.Complete`, `Declaration.MembersDistinct`). The problems that show while a document is
read are exactly the violations: `Document.problems_body_eq_nil_iff`.
-/

namespace GraphSchema

/-! ### Conditions -/

/-- The parameters have distinct names. -/
def Signature.ParametersDistinct (signature : Signature) : Prop :=
  (signature.parameterList.map fun parameter => parameter.name.text).Nodup

/-- The members have distinct names, or designations in a union, and so have their parameters. -/
def Body.MembersDistinct : Body → Prop
  | enum values => (values.map Token.text).Nodup
  | union options => (options.map fun option => option.designation.canonical).Nodup
  | struct fields => (fields.map fun field => field.name.text).Nodup
  | resolver properties =>
    (properties.map fun property => property.name.text).Nodup ∧
      ∀ property ∈ properties, property.ParametersDistinct

/-- There are members enough: two options of a union, one member of anything else. -/
def Body.Complete : Body → Prop
  | enum values => values ≠ []
  | union options => 2 ≤ options.length
  | struct fields => fields ≠ []
  | resolver properties => properties ≠ []

/-- The names inside a declaration are distinct. -/
def Declaration.MembersDistinct : Declaration → Prop
  | typeAlias _ _ _ _ => True
  | block _ _ _ body _ => body.MembersDistinct
  | endpoint _ _ signature => signature.ParametersDistinct

/-- A declaration has members enough. -/
def Declaration.Complete : Declaration → Prop
  | block _ _ _ body _ => body.Complete
  | _ => True

/-- The names of the types that are declared. -/
def Document.typeNames (declarations : List Declaration) : List String :=
  (declarations.filterMap Declaration.typeName?).map Token.text

/-- The names of the endpoints that are declared. -/
def Document.endpointNames (declarations : List Declaration) : List String :=
  (declarations.filterMap Declaration.endpointName?).map Token.text

/-- Types have distinct names, which are not those of primitive types, and endpoints have distinct
names. -/
structure Document.NamesDistinct (declarations : List Declaration) : Prop where
  types : (typeNames declarations).Nodup
  primitives : ∀ name ∈ typeNames declarations, Primitive.ofName? name = none
  endpoints : (endpointNames declarations).Nodup

theorem Document.typeNames_append (front back : List Declaration) :
    typeNames (front ++ back) = typeNames front ++ typeNames back := by
  rw [typeNames, List.filterMap_append, List.map_append]
  rfl

theorem Document.endpointNames_append (front back : List Declaration) :
    endpointNames (front ++ back) = endpointNames front ++ endpointNames back := by
  rw [endpointNames, List.filterMap_append, List.map_append]
  rfl

/-- Some of the declarations have distinct names if all of them have. -/
theorem Document.NamesDistinct.of_append {front back : List Declaration}
    (h : NamesDistinct (front ++ back)) : NamesDistinct front := by
  obtain ⟨htypes, hprimitives, hendpoints⟩ := h
  rw [typeNames_append] at htypes hprimitives
  rw [endpointNames_append] at hendpoints
  exact ⟨(List.nodup_append.mp htypes).1,
    fun name hname => hprimitives name (List.mem_append_left _ hname),
    (List.nodup_append.mp hendpoints).1⟩

/-! ### Problems with names -/

namespace DeclaredNames

theorem typeProblems_eq_nil_iff (names : List Token) :
    typeProblems names = [] ↔
      (names.map Token.text).Nodup ∧ ∀ name ∈ names, Primitive.ofName? name.text = none := by
  have hprimitives : names.filter (fun name => (Primitive.ofName? name.text).isSome) = [] ↔
      ∀ name ∈ names, Primitive.ofName? name.text = none := by
    simp
  unfold typeProblems
  rw [List.partition_eq_filter_filter]
  dsimp only
  rw [List.append_eq_nil_iff, List.map_eq_nil_iff, List.map_eq_nil_iff, repeats_eq_nil_iff,
    hprimitives, and_comm]
  -- if no name is primitive, none is left out when repetitions are looked for
  refine and_congr_left ?_
  intro hnone
  have hall : names.filter (not ∘ fun name => (Primitive.ofName? name.text).isSome) = names := by
    rw [List.filter_eq_self]
    intro name hname
    simp [hnone name hname]
  rw [hall]

theorem endpointProblems_eq_nil_iff (names : List Token) :
    endpointProblems names = [] ↔ (names.map Token.text).Nodup := by
  rw [endpointProblems, List.map_eq_nil_iff, repeats_eq_nil_iff]

theorem parameterProblems_eq_nil_iff (nodeName : String) (parameters : List Token) :
    parameterProblems nodeName parameters = [] ↔ (parameters.map Token.text).Nodup := by
  rw [parameterProblems, List.map_eq_nil_iff, repeats_eq_nil_iff]

theorem typeName?_names_body (body : Body) (name : Token) :
    (body.names name).typeName? = some name ∧ (body.names name).endpointName? = none := by
  cases body <;> exact ⟨rfl, rfl⟩

theorem typeName?_names (declaration : Declaration) :
    declaration.names.typeName? = declaration.typeName? := by
  cases declaration with
  | typeAlias keyword name equals target => rfl
  | block keyword name opening body closing => exact (typeName?_names_body body name).1
  | endpoint kind keyword signature => rfl

theorem endpointName?_names (declaration : Declaration) :
    declaration.names.endpointName? = declaration.endpointName? := by
  cases declaration with
  | typeAlias keyword name equals target => rfl
  | block keyword name opening body closing => exact (typeName?_names_body body name).2
  | endpoint kind keyword signature => rfl

/-- No name is repeated inside a declaration if and only if its members are distinct. -/
theorem memberProblems_names_eq_nil_iff (declaration : Declaration) :
    declaration.names.memberProblems = [] ↔ declaration.MembersDistinct := by
  cases declaration with
  | typeAlias keyword name equals target =>
    exact ⟨fun _ => trivial, fun _ => rfl⟩
  | block keyword name opening body closing =>
    cases body with
    | enum values =>
      rw [Declaration.names, Body.names, memberProblems, List.map_eq_nil_iff, repeats_eq_nil_iff]
      rfl
    | union options =>
      rw [Declaration.names, Body.names, memberProblems, List.map_eq_nil_iff, repeats_eq_nil_iff,
        List.map_map]
      rfl
    | struct fields =>
      rw [Declaration.names, Body.names, memberProblems, List.map_eq_nil_iff, repeats_eq_nil_iff,
        List.map_map]
      rfl
    | resolver properties =>
      rw [Declaration.names, Body.names, memberProblems, List.append_eq_nil_iff,
        List.map_eq_nil_iff, repeats_eq_nil_iff, List.map_map, List.flatMap_eq_nil_iff]
      refine and_congr_right ?_
      intro _
      constructor
      · intro h property hproperty
        have hparameters := h property.names (List.mem_map_of_mem hproperty)
        rw [parameterProblems_eq_nil_iff, Signature.names, List.map_map] at hparameters
        exact hparameters
      · intro h names hnames
        obtain ⟨property, hproperty, rfl⟩ := List.mem_map.mp hnames
        rw [parameterProblems_eq_nil_iff, Signature.names, List.map_map]
        exact h property hproperty
  | endpoint kind keyword signature =>
    rw [Declaration.names, memberProblems, parameterProblems_eq_nil_iff, Signature.names,
      List.map_map]
    rfl

end DeclaredNames

theorem Declaration.shortages_eq_nil_iff (declaration : Declaration) :
    declaration.shortages = [] ↔ declaration.Complete := by
  cases declaration with
  | typeAlias keyword name equals target => exact ⟨fun _ => trivial, fun _ => rfl⟩
  | block keyword name opening body closing =>
    cases body with
    | enum values => cases values <;> simp [shortages, Complete, Body.Complete]
    | union options =>
      simp only [shortages, Complete, Body.Complete, ite_eq_right_iff, List.cons_ne_nil, imp_false,
        Nat.not_lt]
    | struct fields => cases fields <;> simp [shortages, Complete, Body.Complete]
    | resolver properties => cases properties <;> simp [shortages, Complete, Body.Complete]
  | endpoint kind keyword signature => exact ⟨fun _ => trivial, fun _ => rfl⟩

namespace Document

theorem typeNames_eq (declarations : List Declaration) :
    (declarations.map Declaration.names).filterMap DeclaredNames.typeName? =
      declarations.filterMap Declaration.typeName? := by
  rw [List.filterMap_map]
  congr 1
  funext declaration
  exact DeclaredNames.typeName?_names declaration

theorem endpointNames_eq (declarations : List Declaration) :
    (declarations.map Declaration.names).filterMap DeclaredNames.endpointName? =
      declarations.filterMap Declaration.endpointName? := by
  rw [List.filterMap_map]
  congr 1
  funext declaration
  exact DeclaredNames.endpointName?_names declaration

/-- Nothing is wrong with a document while it is read if and only if its names are distinct and its
declarations have members enough. -/
theorem problems_body_eq_nil_iff (header : Header) (declarations : List Declaration) :
    (Reading.body header declarations none).problems = [] ↔
      NamesDistinct declarations ∧
        ∀ declaration ∈ declarations, declaration.MembersDistinct ∧ declaration.Complete := by
  have hnames : (Reading.body header declarations none).names =
      declarations.map Declaration.names := by
    rw [Reading.names]
    exact List.append_nil _
  have hdeclarations : (Reading.body header declarations none).declarations = declarations := rfl
  rw [Reading.problems, hnames, hdeclarations, DeclaredNames.problems, typeNames_eq,
    endpointNames_eq, List.append_eq_nil_iff, List.append_eq_nil_iff, List.append_eq_nil_iff,
    DeclaredNames.typeProblems_eq_nil_iff, DeclaredNames.endpointProblems_eq_nil_iff,
    List.flatMap_eq_nil_iff, List.flatMap_eq_nil_iff]
  constructor
  · rintro ⟨⟨⟨⟨htypes, hprimitives⟩, hendpoints⟩, hmembers⟩, hshortages⟩
    refine ⟨⟨htypes, ?_, hendpoints⟩, ?_⟩
    · intro name hname
      obtain ⟨token, htoken, rfl⟩ := List.mem_map.mp hname
      exact hprimitives token htoken
    · intro declaration hdeclaration
      refine ⟨?_, declaration.shortages_eq_nil_iff.mp (hshortages declaration hdeclaration)⟩
      exact (DeclaredNames.memberProblems_names_eq_nil_iff declaration).mp
        (hmembers _ (List.mem_map_of_mem hdeclaration))
  · rintro ⟨⟨htypes, hprimitives, hendpoints⟩, hall⟩
    refine ⟨⟨⟨⟨htypes, ?_⟩, hendpoints⟩, ?_⟩, ?_⟩
    · intro token htoken
      exact hprimitives token.text (List.mem_map_of_mem htoken)
    · intro names hmem
      obtain ⟨declaration, hdeclaration, rfl⟩ := List.mem_map.mp hmem
      exact (DeclaredNames.memberProblems_names_eq_nil_iff declaration).mpr
        (hall declaration hdeclaration).1
    · intro declaration hdeclaration
      exact declaration.shortages_eq_nil_iff.mpr (hall declaration hdeclaration).2

end Document

end GraphSchema
