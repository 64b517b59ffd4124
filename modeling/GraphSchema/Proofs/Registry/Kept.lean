import GraphSchema.Proofs.Document.Kept
import GraphSchema.Proofs.Registry.Linked

/-!
# Recording what is kept

A registry holds what is kept of a document and nothing else, whatever names are used again.  What
is left out changes nothing (`Registry.ofDeclarations_kept`), and the names that are kept are
distinct, so every declaration and every member that is kept is recorded (`Registry.records_kept`).
-/

namespace GraphSchema

/-! ### Members that are left out -/

theorem Signature.draft_kept (signature : Signature) : signature.kept.draft = signature.draft := by
  rw [draft, parameterList_kept, firsts_firsts, draft]
  rfl

theorem Body.drafts_kept (body : Body) : body.kept.drafts = body.drafts := by
  cases body with
  | enum values => rfl
  | union options => rfl
  | struct fields => rw [kept, drafts, firsts_firsts, drafts]
  | resolver properties =>
    have hdraft : Signature.draft ∘ Signature.kept = Signature.draft :=
      funext Signature.draft_kept
    rw [kept, drafts, firsts_map, List.map_map, hdraft, drafts]
    exact congrArg (List.map _) (firsts_firsts (fun property => property.name.text) properties)

/-- The options that are kept are the first of their designations. -/
theorem firsts_canonical_kept (options : List TypeReference) :
    firsts Designation.canonical ((firsts (fun option => option.designation.canonical) options).map
      TypeReference.designation) =
      firsts Designation.canonical (options.map TypeReference.designation) := by
  rw [firsts_map, firsts_firsts, ← firsts_map]

theorem Body.declared_kept (node : Nat) (body : Body) :
    body.kept.declared node = body.declared node := by
  unfold declared
  rw [drafts_kept]
  cases body with
  | enum values =>
    dsimp only [kept]
    rw [firsts_firsts]
  | union options =>
    dsimp only [kept]
    rw [firsts_canonical_kept]
  | struct fields => rfl
  | resolver properties => rfl

theorem Body.references_kept (body : Body) : body.kept.references = body.references := by
  unfold references
  rw [drafts_kept]
  cases body with
  | union options =>
    dsimp only [kept]
    rw [firsts_canonical_kept]
  | enum values => rfl
  | struct fields => rfl
  | resolver properties => rfl

theorem Body.nodeKind_kept (parent : TypeId) (body : Body) :
    body.kept.nodeKind parent = body.nodeKind parent := by
  cases body <;> rfl

namespace Registry

/-- Members that are left out add nothing. -/
theorem add_kept (registry : Registry) (declaration : Declaration) :
    registry.add declaration.kept = registry.add declaration := by
  cases declaration with
  | typeAlias keyword name equals target => rfl
  | block keyword name opening body closing =>
    unfold add
    dsimp only [Declaration.kept]
    simp only [Body.declared_kept, Body.drafts_kept, Body.nodeKind_kept]
    cases body with
    | union options =>
      have hreferences := Body.references_kept (.union options)
      dsimp only [Body.kept] at hreferences ⊢
      rw [hreferences]
    | enum values => rfl
    | struct fields => rfl
    | resolver properties => rfl
  | endpoint kind keyword signature =>
    unfold add
    dsimp only [Declaration.kept]
    rw [Signature.draft_kept]
    rfl

/-! ### Declarations that are left out -/

/-- A declaration whose name is taken adds nothing. -/
theorem add_of_isSome_named? {registry : Registry} {declaration : Declaration} {name : Token}
    (hname : declaration.typeName? = some name)
    (taken : (registry.types.named? name.text).isSome) : registry.add declaration = registry := by
  obtain ⟨type, htype⟩ := Option.isSome_iff_exists.mp taken
  cases declaration with
  | typeAlias keyword token equals target =>
    obtain rfl := Option.some.inj hname
    simp only [add, TypeTable.declare, htype]
  | block keyword token opening body closing =>
    obtain rfl := Option.some.inj hname
    simp only [add, TypeTable.declare, htype]
  | endpoint kind keyword signature => cases hname

theorem add_of_isSome_endpoint? {registry : Registry} {declaration : Declaration} {name : Token}
    (hname : declaration.endpointName? = some name)
    (taken : (registry.endpoint? name.text).isSome) : registry.add declaration = registry := by
  obtain ⟨node, hnode⟩ := Option.isSome_iff_exists.mp taken
  cases declaration with
  | typeAlias keyword token equals target => cases hname
  | block keyword token opening body closing => cases hname
  | endpoint kind keyword signature =>
    obtain rfl := Option.some.inj hname
    simp only [add, hnode]

theorem ofDeclarations_concat (declarations : List Declaration) (declaration : Declaration) :
    ofDeclarations (declarations ++ [declaration]) =
      (ofDeclarations declarations).add declaration := by
  rw [ofDeclarations, List.foldl_append]
  rfl

/-- A registry holds what is kept, and nothing else. -/
theorem ofDeclarations_kept (declarations : List Declaration) :
    ofDeclarations (Document.kept declarations) = ofDeclarations declarations := by
  induction declarations using List.reverseRecOn with
  | nil => rfl
  | append_singleton declarations declaration ih =>
    have hrecords := records_ofDeclarations (Document.kept declarations)
      (Document.namesDistinct_kept declarations) (Document.membersDistinct_kept declarations)
    rw [ih] at hrecords
    rw [Document.kept_concat, ofDeclarations_concat]
    by_cases hnew : declaration.IsNewAfter declarations
    · rw [if_pos hnew, ofDeclarations_concat, ih, add_kept]
    · rw [if_neg hnew, List.append_nil, ih]
      -- the name of the declaration is taken by what is recorded
      rcases Declaration.taken_of_not_isNewAfter hnew with
        ⟨name, hname, -, htaken⟩ | ⟨name, -, hname, htaken⟩
      · refine (add_of_isSome_named? hname ?_).symm
        rw [hrecords.isSome_named?_iff (consistent_ofDeclarations declarations),
          Document.mem_typeNames_kept, Option.isSome_iff_ne_none]
        by_cases hprimitive : Primitive.ofName? name.text = none
        · exact .inr ⟨htaken hprimitive, hprimitive⟩
        · exact .inl hprimitive
      · refine (add_of_isSome_endpoint? hname (hrecords.isSome_endpoint? ?_)).symm
        exact (Document.mem_endpointNames_kept declarations name.text).mpr htaken

/-- What is kept is recorded, and nothing else is. -/
theorem records_kept (declarations : List Declaration) :
    Records (Document.kept declarations) (ofDeclarations declarations) := by
  rw [← ofDeclarations_kept]
  exact records_ofDeclarations (Document.kept declarations)
    (Document.namesDistinct_kept declarations) (Document.membersDistinct_kept declarations)

/-- What is kept stays recorded when references are filled in. -/
theorem records_kept_linked (declarations : List Declaration) :
    Records (Document.kept declarations) (ofDeclarations declarations).linked :=
  (records_kept declarations).linked (consistent_ofDeclarations declarations)

end Registry

end GraphSchema
