import GraphSchema.Proofs.Document.Accepted
import GraphSchema.Proofs.Document.Scopes
import GraphSchema.Proofs.Registry.Kept

/-!
# What is reported about names

In a schema that is read to its end every name that is used again in its scope is reported, once for
each use but the first and with the place of the first, and so is every type that is named like a
primitive one; nothing else is reported with their codes (`Schema.check_redeclared`).  What is wrong
elsewhere makes no difference, nor does it matter whether the declaration around a scope is itself
left out.  A missing endpoint is reported if and only if no declaration is one.
-/

namespace GraphSchema

/-- The diagnostics with one code at some places. -/
def Checked.diagnosticsAt (checked : Checked) (code : ErrorCode) (places : List Cursor) :
    List Diagnostic :=
  checked.diagnostics.filter fun diagnostic =>
    diagnostic.code = code ∧ diagnostic.position ∈ places

/-- The names of types that are the name of one primitive type. -/
def Document.namesLike (declarations : List Declaration) (primitive : Primitive) : List Token :=
  (declarations.filterMap Declaration.typeName?).filter fun name => name.text = primitive.name

/-- Names are reported exactly: in each scope the repetitions of each name, and every type that is
named like a primitive one. -/
structure Checked.ReportsNames (checked : Checked) (declarations : List Declaration) : Prop where
  repeated : ∀ scope ∈ Document.scopes declarations, ∀ name,
    (checked.diagnosticsAt scope.space.code ((scope.usesOf name).map NameUse.position)).Perm
      ((scope.reportsOf name).map Problem.diagnostic)
  primitive : ∀ primitive : Primitive,
    (checked.diagnosticsAt .typeRedecl (starts (Document.namesLike declarations primitive))).Perm
      ((Document.namesLike declarations primitive).map fun name => name.primitiveReport.diagnostic)
  others : ∀ diagnostic ∈ checked.diagnostics, diagnostic.code ∈ ErrorCode.redeclared →
    (∃ scope ∈ Document.scopes declarations, ∃ name,
      diagnostic ∈ (scope.reportsOf name).map Problem.diagnostic) ∨
    ∃ primitive, ∃ name ∈ Document.namesLike declarations primitive,
      diagnostic = name.primitiveReport.diagnostic

/-! ### Names of primitive types -/

theorem Token.isPrimitive_iff {name : Token} :
    name.isPrimitive = true ↔ ∃ primitive : Primitive, name.text = primitive.name := by
  rw [isPrimitive, Primitive.ofName?, List.find?_isSome]
  constructor
  · rintro ⟨primitive, -, hname⟩
    exact ⟨primitive, (beq_iff_eq.mp hname).symm⟩
  · rintro ⟨primitive, hname⟩
    exact ⟨primitive, primitive.mem_all, beq_iff_eq.mpr hname.symm⟩

namespace Document

variable {declarations : List Declaration}

theorem mem_primitiveNames_iff {name : Token} :
    name ∈ primitiveNames declarations ↔ ∃ primitive, name ∈ namesLike declarations primitive := by
  simp only [primitiveNames, namesLike, List.mem_filter, decide_eq_true_eq, Token.isPrimitive_iff,
    exists_and_left]

theorem namesLike_sublist (declarations : List Declaration) (primitive : Primitive) :
    (namesLike declarations primitive).Sublist (primitiveNames declarations) := by
  refine List.monotone_filter_right _ fun name hname => ?_
  exact Token.isPrimitive_iff.mpr ⟨primitive, of_decide_eq_true hname⟩

/-! ### Which use is reported -/

/-- What is reported about names is reported about one name of one scope, or about a name of a
primitive type. -/
theorem mem_nameProblems_iff {problem : Problem} :
    problem ∈ DeclaredNames.problems (declarations.map Declaration.names) ↔
      (∃ name ∈ primitiveNames declarations, problem = name.primitiveReport) ∨
      ∃ scope ∈ scopes declarations, ∃ name, problem ∈ scope.reportsOf name := by
  rw [nameProblems_eq, List.mem_append, List.mem_map, List.mem_flatMap]
  simp only [Scope.mem_repetitions_iff, eq_comm]

/-- A use of a name is known by its place. -/
theorem eq_of_position_eq (distinct : (usePlaces declarations).Nodup) {scope other : Scope}
    (hscope : scope ∈ scopes declarations) (hother : other ∈ scopes declarations)
    {entry again : NameUse} (hentry : entry ∈ scope.uses) (hagain : again ∈ other.uses)
    (hposition : entry.position = again.position) : scope = other ∧ entry = again :=
  eq_of_flatMap_key_eq (List.nodup_append.mp distinct).2.1 hscope hother hentry hagain hposition

/-- The name of a primitive type does not stand where a name of a scope is used. -/
theorem position_ne_start (distinct : (usePlaces declarations).Nodup) {name : Token}
    (hname : name ∈ primitiveNames declarations) {scope : Scope}
    (hscope : scope ∈ scopes declarations) {entry : NameUse} (hentry : entry ∈ scope.uses) :
    entry.position ≠ name.start := by
  intro hposition
  refine (List.nodup_append.mp distinct).2.2 _ (List.mem_map_of_mem hname) _ ?_ hposition.symm
  exact List.mem_flatMap.mpr ⟨scope, hscope, List.mem_map_of_mem hentry⟩

/-- Of all problems with names those are about a name of a scope that have the code of the scope and
are at a use of the name. -/
theorem mem_reportsOf_iff (distinct : (usePlaces declarations).Nodup) {scope : Scope}
    (hscope : scope ∈ scopes declarations) {name : String} {problem : Problem} :
    problem ∈ scope.reportsOf name ↔
      problem ∈ DeclaredNames.problems (declarations.map Declaration.names) ∧
        problem.code = scope.space.code ∧
        problem.position ∈ (scope.usesOf name).map NameUse.position := by
  constructor
  · intro hmem
    obtain ⟨hcode, again, hagain, hposition⟩ := Scope.exists_use_of_mem_reportsOf hmem
    refine ⟨mem_nameProblems_iff.mpr (.inr ⟨scope, hscope, name, hmem⟩), hcode, ?_⟩
    rw [hposition]
    exact List.mem_map_of_mem hagain
  · rintro ⟨hmem, -, hplace⟩
    obtain ⟨entry, hentry, hposition⟩ := List.mem_map.mp hplace
    obtain ⟨huse, hname⟩ := List.mem_filter.mp hentry
    rcases mem_nameProblems_iff.mp hmem with ⟨token, htoken, rfl⟩ | ⟨other, hother, found, hfound⟩
    · exact absurd hposition (position_ne_start distinct htoken hscope huse)
    · -- the problem is about the name that is used there
      obtain ⟨-, again, hagain, hsame⟩ := Scope.exists_use_of_mem_reportsOf hfound
      obtain ⟨hagain, hagainName⟩ := List.mem_filter.mp hagain
      obtain ⟨rfl, rfl⟩ := eq_of_position_eq distinct hscope hother huse hagain
        (hposition.trans hsame)
      have hnames : name = found := by
        rw [← of_decide_eq_true hname, of_decide_eq_true hagainName]
      rwa [hnames]

/-- Of all problems with names those are about the name of a primitive type that have the code for
types and are where a type is declared with the name. -/
theorem mem_primitiveReports_iff (distinct : (usePlaces declarations).Nodup) {primitive : Primitive}
    {problem : Problem} :
    problem ∈ (namesLike declarations primitive).map Token.primitiveReport ↔
      problem ∈ DeclaredNames.problems (declarations.map Declaration.names) ∧
        problem.code = .typeRedecl ∧
        problem.position ∈ starts (namesLike declarations primitive) := by
  constructor
  · intro hmem
    obtain ⟨name, hname, rfl⟩ := List.mem_map.mp hmem
    exact ⟨mem_nameProblems_iff.mpr (.inl ⟨name, (namesLike_sublist _ _).subset hname, rfl⟩), rfl,
      List.mem_map_of_mem hname⟩
  · rintro ⟨hmem, -, hplace⟩
    obtain ⟨name, hname, hposition⟩ := List.mem_map.mp hplace
    have hprimitive := (namesLike_sublist declarations primitive).subset hname
    rcases mem_nameProblems_iff.mp hmem with ⟨token, htoken, rfl⟩ | ⟨other, hother, found, hfound⟩
    · -- two names at one place
      obtain rfl := eq_of_key_eq (List.nodup_append.mp distinct).1 hprimitive htoken hposition
      exact List.mem_map_of_mem hname
    · obtain ⟨-, again, hagain, hsame⟩ := Scope.exists_use_of_mem_reportsOf hfound
      exact absurd (hsame.symm.trans hposition.symm)
        (position_ne_start distinct hprimitive hother (List.mem_filter.mp hagain).1)

end Document

/-! ### Endpoints -/

/-- An endpoint is missing if and only if no declaration is one. -/
theorem Registry.any_isEndpoint_iff (declarations : List Declaration) :
    (ofDeclarations declarations).linked.nodes.any GraphNode.isEndpoint = true ↔
      ∃ declaration ∈ declarations, declaration.endpointName? ≠ none := by
  have hrecords := records_kept_linked declarations
  rw [List.any_eq_true]
  constructor
  · rintro ⟨node, hnode, hendpoint⟩
    have hsome : ((ofDeclarations declarations).linked.endpoint? node.name).isSome :=
      List.find?_isSome.mpr ⟨node, hnode, by simp [hendpoint]⟩
    have hmem : node.name ∈ Document.endpointNames (Document.kept declarations) := by
      by_contra hnew
      rw [hrecords.endpoint?_eq_none hnew] at hsome
      cases hsome
    obtain ⟨token, htoken, -⟩ :=
      List.mem_map.mp ((Document.mem_endpointNames_kept declarations _).mp hmem)
    obtain ⟨declaration, hdeclaration, hname⟩ := List.mem_filterMap.mp htoken
    exact ⟨declaration, hdeclaration, by simp [hname]⟩
  · rintro ⟨declaration, hdeclaration, hendpoint⟩
    obtain ⟨token, htoken⟩ := Option.ne_none_iff_exists'.mp hendpoint
    have hmem : token.text ∈ Document.endpointNames declarations :=
      List.mem_map_of_mem (List.mem_filterMap.mpr ⟨declaration, hdeclaration, htoken⟩)
    have hsome := hrecords.isSome_endpoint?
      ((Document.mem_endpointNames_kept declarations _).mpr hmem)
    obtain ⟨node, hnode, hfound⟩ := List.find?_isSome.mp hsome
    exact ⟨node, hnode, (Bool.and_eq_true_iff.mp hfound).1⟩

/-! ### Diagnostics -/

namespace Schema

variable {file : Path} {source : String} {document : Document}

/-- The diagnostics with the code of a name that is used again are those of the problems with
names. -/
theorem diagnosticsAt_perm (spells : (stream file source).Spells document) {code : ErrorCode}
    (redeclared : code ∈ ErrorCode.redeclared) (places : List Cursor) :
    ((check file source).diagnosticsAt code places).Perm
      (((DeclaredNames.problems (document.declarations.map Declaration.names)).filter
        fun problem => problem.code = code ∧ problem.position ∈ places).map
          Problem.diagnostic) := by
  have hnone {codes : List ErrorCode} {problems : List Problem} (h : CodesAmong codes problems)
      (others : ∀ other ∈ codes, other ∉ ErrorCode.redeclared) :
      problems.filter (fun problem => problem.code = code ∧ problem.position ∈ places) = [] := by
    rw [List.filter_eq_nil_iff]
    intro problem hproblem hselected
    obtain ⟨rfl, -⟩ := of_decide_eq_true hselected
    exact others _ (h problem hproblem) redeclared
  have hperm := (Diagnostic.ofProblems_perm
    ((Reading.body document.header document.declarations none).problems ++
      problemsOf document)).filter
        fun diagnostic => diagnostic.code = code ∧ diagnostic.position ∈ places
  rw [List.filter_map] at hperm
  rw [Checked.diagnosticsAt, diagnostics_of_spells spells]
  refine hperm.trans (.of_eq (congrArg (List.map Problem.diagnostic) ?_))
  show List.filter (fun problem : Problem => problem.code = code ∧ problem.position ∈ places) _ = _
  rw [List.filter_append, Reading.problems, List.filter_append, Reading.names_body,
    hnone (codesAmong_flatMap Declaration.shortages_codes _) (by decide),
    hnone (problemsOf_codes document) (by decide), List.append_nil, List.append_nil]

/-- The diagnostics with one code at some places are those of the problems that have the code and
are at these places. -/
theorem diagnosticsAt_perm_of_mem_iff (spells : (stream file source).Spells document)
    {code : ErrorCode} (redeclared : code ∈ ErrorCode.redeclared) {places : List Cursor}
    {expected : List Problem} (distinct : expected.Nodup)
    (h : ∀ problem, problem ∈ expected ↔
      problem ∈ DeclaredNames.problems (document.declarations.map Declaration.names) ∧
        problem.code = code ∧ problem.position ∈ places) :
    ((check file source).diagnosticsAt code places).Perm (expected.map Problem.diagnostic) := by
  have happart : Apart (DeclaredNames.problems (document.declarations.map Declaration.names)) := by
    refine DeclaredNames.problems_apart ((Document.usePlaces_perm _).nodup_iff.mpr ?_)
    exact Document.nodup_usePlaces spells.ascending.nodup
  refine (diagnosticsAt_perm spells redeclared places).trans (List.Perm.map _ ?_)
  refine (List.perm_ext_iff_of_nodup ((List.Nodup.of_map _ happart).filter _) distinct).mpr ?_
  intro problem
  rw [h, List.mem_filter, decide_eq_true_eq]

/-- The names of a source text that is read to its end are reported exactly. -/
theorem reportsNames (spells : (stream file source).Spells document) :
    (check file source).ReportsNames document.declarations := by
  have hdistinct := Document.nodup_usePlaces spells.ascending.nodup
  refine ⟨?_, ?_, ?_⟩
  · intro scope hscope name
    have hplaces : scope.places.Nodup :=
      (List.nodup_flatMap.mp (List.nodup_append.mp hdistinct).2.1).1 scope hscope
    exact diagnosticsAt_perm_of_mem_iff spells scope.space.code_mem_redeclared
      (Scope.nodup_reportsOf hplaces name)
      fun problem => Document.mem_reportsOf_iff hdistinct hscope
  · intro primitive
    have hnodup : ((Document.namesLike document.declarations primitive).map
        Token.primitiveReport).Nodup := by
      refine List.Nodup.of_map Problem.position ?_
      rw [List.map_map]
      exact (List.nodup_append.mp hdistinct).1.sublist
        ((Document.namesLike_sublist document.declarations primitive).map Token.start)
    have hperm := diagnosticsAt_perm_of_mem_iff spells (by decide) hnodup
      fun problem => Document.mem_primitiveReports_iff hdistinct
    rwa [List.map_map] at hperm
  · intro diagnostic hmem hcode
    rw [diagnostics_of_spells spells] at hmem
    obtain ⟨problem, hproblem, rfl⟩ :=
      List.mem_map.mp ((Diagnostic.ofProblems_perm _).mem_iff.mp hmem)
    rw [Reading.problems, Reading.names_body, List.append_assoc] at hproblem
    rcases List.mem_append.mp hproblem with hproblem | hproblem
    · rcases Document.mem_nameProblems_iff.mp hproblem with
        ⟨name, hname, rfl⟩ | ⟨scope, hscope, name, hname⟩
      · obtain ⟨primitive, hlike⟩ := Document.mem_primitiveNames_iff.mp hname
        exact .inr ⟨primitive, name, hlike, rfl⟩
      · exact .inl ⟨scope, hscope, name, List.mem_map_of_mem hname⟩
    · -- members that are missing and what is wrong with the whole document have other codes
      exfalso
      rcases List.mem_append.mp hproblem with hproblem | hproblem
      · exact absurd hcode ((by decide : ∀ code ∈ ErrorCode.missing, code ∉ ErrorCode.redeclared) _
          (codesAmong_flatMap Declaration.shortages_codes _ _ hproblem))
      · exact absurd hcode ((by decide : ∀ code ∈ ErrorCode.resolved, code ∉ ErrorCode.redeclared) _
          (problemsOf_codes document _ hproblem))

/-- Of all problems of a document only a missing endpoint has its code. -/
theorem filter_problems_noEndpoints (document : Document) :
    ((Reading.body document.header document.declarations none).problems ++
        problemsOf document).filter (fun problem => problem.code == .noEndpoints) =
      (Registry.ofDeclarations document.declarations).linked.endpointProblems document.header := by
  have hpart : (problemParts document).filter (fun part => ErrorCode.noEndpoints ∈ part.1) =
      [([.noEndpoints], (Registry.ofDeclarations document.declarations).linked.endpointProblems
        document.header)] := rfl
  rw [filter_problemParts, hpart, List.flatMap_singleton,
    (Registry.endpointProblems_codes _ _).filter_eq_self]

/-- A missing endpoint is reported if and only if no declaration is one. -/
theorem noEndpoints_mem_iff (spells : (stream file source).Spells document) :
    (∃ diagnostic ∈ (check file source).diagnostics, diagnostic.code = .noEndpoints) ↔
      ∀ declaration ∈ document.declarations, declaration.endpointName? = none := by
  have hperm := filter_diagnostics spells .noEndpoints
  rw [filter_problems_noEndpoints] at hperm
  have hnodes := Registry.any_isEndpoint_iff document.declarations
  have hreported : (∃ diagnostic ∈ (check file source).diagnostics,
      diagnostic.code = .noEndpoints) ↔
      (Registry.ofDeclarations document.declarations).linked.endpointProblems document.header ≠
        [] := by
    have hlength := hperm.length_eq
    rw [List.length_map] at hlength
    rw [← List.length_pos_iff, ← hlength, List.length_pos_iff_exists_mem]
    simp only [List.mem_filter, beq_iff_eq]
  rw [hreported]
  unfold Registry.endpointProblems
  split
  case isTrue hany =>
    obtain ⟨declaration, hdeclaration, hendpoint⟩ := hnodes.mp hany
    exact ⟨fun h => absurd rfl h, fun h => absurd (h declaration hdeclaration) hendpoint⟩
  case isFalse hany =>
    refine ⟨fun _ declaration hdeclaration => ?_, fun _ => List.cons_ne_nil _ _⟩
    by_contra hendpoint
    exact hany (hnodes.mpr ⟨declaration, hdeclaration, hendpoint⟩)

/-- In a schema that is read to its end every use of a name but the first one in its scope is
reported with the place of the first, every type that is named like a primitive one is reported, and
nothing else is reported with their codes.  What is reported about a name that is used again has the
code of its scope, is at the place of the use, and has the place of the first use as the place of
its only note; the note on a primitive type has no place.  A missing endpoint is reported if and
only if no declaration is one. -/
theorem check_redeclared {file : Path} {source : String} (scans : (check file source).fatal = []) :
    (∃ document, (stream file source).Spells document ∧
      (check file source).ReportsNames document.declarations ∧
      ((∃ diagnostic ∈ (check file source).diagnostics, diagnostic.code = .noEndpoints) ↔
        ∀ declaration ∈ document.declarations, declaration.endpointName? = none)) ∧
    (∀ (space : Namespace) (name : String) (position prior : Cursor),
      (space.report name position prior).diagnostic.code = space.code ∧
        (space.report name position prior).diagnostic.position = position ∧
        (space.report name position prior).diagnostic.notes.map Note.position = [some prior]) ∧
    ∀ name : Token, name.primitiveReport.diagnostic.code = .typeRedecl ∧
      name.primitiveReport.diagnostic.position = name.start ∧
      name.primitiveReport.diagnostic.notes.map Note.position = [none] := by
  refine ⟨?_, fun space name position prior => ?_, fun name => ⟨rfl, rfl, rfl⟩⟩
  · obtain ⟨document, hspells⟩ := exists_spells_of_scans scans
    exact ⟨document, hspells, reportsNames hspells, noEndpoints_mem_iff hspells⟩
  · exact ⟨space.report_code name position prior, space.report_position name position prior,
      space.report_notes name position prior⟩

/-- A schema without endpoints: a struct has the name of a primitive type and a field three times,
and an enum with a repeated value has a name that was used before. -/
theorem check_redeclared_thrice :
    (check default "schema s struct Bool \x7b a A a A a A \x7d alias A = Int32 enum A \x7b v v \x7d"
      ).fatal = [] ∧
    ∃ document, (stream default
      "schema s struct Bool \x7b a A a A a A \x7d alias A = Int32 enum A \x7b v v \x7d"
      ).Spells document ∧
      (check default
        "schema s struct Bool \x7b a A a A a A \x7d alias A = Int32 enum A \x7b v v \x7d"
        ).ReportsNames document.declarations := by
  have hread : (Reading.ofStream (stream default
      "schema s struct Bool \x7b a A a A a A \x7d alias A = Int32 enum A \x7b v v \x7d"
      )).2 = none := by
    decide +kernel
  have hscans := fatal_check default
    "schema s struct Bool \x7b a A a A a A \x7d alias A = Int32 enum A \x7b v v \x7d"
  rw [← stream, hread] at hscans
  obtain ⟨⟨document, hspells, hreports, -⟩, -⟩ := check_redeclared hscans
  exact ⟨hscans, document, hspells, hreports⟩

end Schema

end GraphSchema
