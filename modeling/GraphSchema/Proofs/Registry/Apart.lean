import GraphSchema.Proofs.Containment.Completeness
import GraphSchema.Proofs.Document.Apart
import GraphSchema.Proofs.Registry.Members
import GraphSchema.Proofs.Registry.Numbered
import GraphSchema.Proofs.Types.AliasReports

/-!
# Problems of resolved types that are told apart

No two problems of a whole document are at one place with one code (`Schema.problemsOf_apart`), and
each of them is at a token of the document (`Schema.problemsOf_position`).  Most problems belong to
a name or a designation of their own.  A cycle is reported at one of its aliases, or at a field of
one of its structs, and different reports have no alias and no struct in common.
-/

namespace GraphSchema

/-! ### Options of unions -/

/-- The places of the options of a declaration. -/
def Declaration.optionPlaces : Declaration → List Cursor
  | block _ _ _ (.union options) _ => options.map fun option => option.designation.position
  | _ => []

theorem Declaration.optionPlaces_sublist (declaration : Declaration) :
    declaration.optionPlaces.Sublist (starts declaration.tokens) := by
  unfold optionPlaces
  split
  case h_1 keyword name opening options closing =>
    exact (map_sublist_starts TypeReference.position_sublist options).trans
      (body_sublist keyword name opening closing (.union options))
  case h_2 => exact List.nil_sublist _

namespace Registry

variable {registry : Registry} {declarations : List Declaration} {places : List Cursor}

theorem RecordsType.optionPlaces {declaration : Declaration} {type : DeclaredType}
    (h : registry.RecordsType declaration type) :
    (type.options.map fun option => option.designation.position) = declaration.optionPlaces := by
  obtain ⟨id, name, position, body⟩ := type
  cases declaration with
  | typeAlias keyword token equals target =>
    obtain ⟨-, -, aliased, rfl⟩ := h
    rfl
  | block keyword token opening members closing =>
    obtain ⟨-, -, hbody⟩ := h
    cases members with
    | enum values =>
      obtain rfl : body = _ := hbody
      rfl
    | union options =>
      obtain ⟨recorded, rfl, hdesignations⟩ := hbody
      have hplaces := congrArg (List.map Designation.position) hdesignations
      rwa [List.map_map, List.map_map] at hplaces
    | struct fields =>
      obtain ⟨ids, rfl, -⟩ := hbody
      rfl
    | resolver properties =>
      obtain ⟨ids, rfl, -⟩ := hbody
      rfl
  | endpoint kind keyword signature => exact h.elim

/-! ### Where types, graph nodes and parameters stand -/

/-- Types, options, graph nodes and parameters stand at some of the given places, in the order of
the places. -/
structure StandsIn (registry : Registry) (places : List Cursor) : Prop where
  types : (registry.types.declared.map DeclaredType.position).Sublist places
  options : (registry.types.declared.flatMap fun type =>
    type.options.map fun option => option.designation.position).Sublist places
  nodes : (registry.nodes.map GraphNode.position).Sublist places
  parameters : (registry.parameters.map Parameter.position).Sublist places

/-- What is recorded stands at tokens of the declarations. -/
theorem standsIn_linked (declarations : List Declaration) :
    (ofDeclarations declarations).linked.StandsIn
      (starts (declarations.flatMap Declaration.tokens)) := by
  have hrecords := records_kept_linked declarations
  have hconsistent := consistent_linked declarations
  have hstands := Document.standsIn_kept declarations
  refine ⟨?_, ?_, ?_, ?_⟩
  · have hplaces := congrArg (List.map Prod.snd) hrecords.declared_places
    rw [List.map_map, List.map_map] at hplaces
    exact hplaces ▸ hstands.types
  · have hoptions : ((Document.kept declarations).filter Declaration.declaresType).map
          Declaration.optionPlaces =
        (ofDeclarations declarations).linked.types.declared.map fun type =>
          type.options.map fun option => option.designation.position :=
      map_eq_map_of_forall₂ hrecords.types fun declaration type h => h.optionPlaces.symm
    rw [List.flatMap_def, ← hoptions, ← List.flatMap_def]
    exact (List.filter_sublist.flatMap _).trans
      (Document.kept_sublist_starts Declaration.optionPlaces_sublist declarations)
  · have hnodes : ((Document.kept declarations).flatMap Declaration.writtenNodes).map
        (fun written => written.name.start) =
        (ofDeclarations declarations).linked.nodes.map GraphNode.position :=
      map_eq_map_of_forall₂ hrecords.nodes fun written node h => h.position.symm
    exact hnodes ▸ hstands.nodes
  · have hparameters : (Document.parameters (Document.kept declarations)).map
        (fun entry => entry.2.name.start) =
        (ofDeclarations declarations).linked.parameters.map Parameter.position :=
      map_eq_map_of_forall₂ (hrecords.parameter_entries hconsistent) fun entry parameter h => by
        obtain ⟨node, -, -, hparameter⟩ := h
        exact hparameter.position.symm
    exact hparameters ▸ hstands.parameters

/-! ### Problems with one place each -/

theorem undefinedProblems_placed (registry : Registry) :
    PlacedAmong (registry.references.map Designation.terminalPosition)
      registry.undefinedProblems := by
  refine placedAmong_filterMap (fun reference problem hproblem => ?_) _
  split at hproblem
  · cases hproblem
  · obtain rfl := Option.some.inj hproblem
    rfl

theorem unionProblems_placed (registry : Registry) :
    PlacedAmong (registry.types.declared.flatMap fun type =>
      type.options.map fun option => option.designation.position) registry.unionProblems := by
  refine placedAmong_flatMap (fun type : DeclaredType => placedAmong_filterMap ?_ type.options) _
  intro option problem hproblem
  obtain ⟨id, -, hid⟩ := Option.bind_eq_some_iff.mp hproblem
  obtain ⟨target, -, htarget⟩ := Option.bind_eq_some_iff.mp hid
  split at htarget
  · obtain rfl := Option.some.inj htarget
    rfl
  · split at htarget
    · obtain rfl := Option.some.inj htarget
      rfl
    · cases htarget

theorem fieldProblems_placed (registry : Registry) :
    PlacedAmong (registry.nodes.map GraphNode.position)
      (registry.nodes.filterMap registry.fieldProblem?) := by
  refine placedAmong_filterMap (fun node problem hproblem => ?_) _
  rw [Option.mem_def, fieldProblem?] at hproblem
  split at hproblem
  · obtain ⟨-, hproblem⟩ := Option.ite_none_left_eq_some.mp hproblem
    obtain rfl := Option.some.inj hproblem
    rfl
  · cases hproblem

theorem parameterProblems_placed (registry : Registry) :
    PlacedAmong (registry.parameters.map Parameter.position)
      (registry.parameters.filterMap registry.parameterProblem?) := by
  refine placedAmong_filterMap (fun parameter problem hproblem => ?_) _
  rw [Option.mem_def, parameterProblem?] at hproblem
  split at hproblem
  · obtain ⟨-, hproblem⟩ := Option.ite_none_left_eq_some.mp hproblem
    obtain rfl := Option.some.inj hproblem
    rfl
  · cases hproblem

theorem endpointProblems_placed (registry : Registry) (header : Header) :
    PlacedAmong [header.name.start] (registry.endpointProblems header) := by
  unfold endpointProblems
  split
  · exact placedAmong_nil _
  · exact placedAmong_singleton (List.mem_singleton.mpr rfl)

/-! ### Cycles -/

theorem aliasCycleProblem?_position {members : List DeclaredType} {problem : Problem}
    (h : TypeTable.aliasCycleProblem? members = some problem) :
    problem.position ∈ members.map DeclaredType.position := by
  let named : List AliasMember := members.map fun type => ⟨type.name, type.position⟩
  have hperm := List.mergeSort_perm named fun a b => (compare a.name b.name).isLE
  unfold TypeTable.aliasCycleProblem? at h
  dsimp only at h
  split at h
  · cases h
  case h_2 first others hcons =>
    obtain rfl := Option.some.inj h
    have hmem : first ∈ named := hperm.mem_iff.mp (hcons ▸ List.mem_cons_self ..)
    obtain ⟨type, htype, rfl⟩ := List.mem_map.mp hmem
    exact List.mem_map_of_mem htype

/-- The members of all cycles that are reported are distinct aliases. -/
theorem aliasCycles_subperm {table : TypeTable} (h : table.Consistent) :
    List.Subperm table.aliasCycles.flatten table.declared := by
  have hcycles (members : List DeclaredType) (hmem : members ∈ table.aliasCycles) :
      table.IsAliasCycle members := (h.mem_aliasCycles.mp hmem).1
  refine List.subperm_of_subset (List.nodup_flatten.mpr ⟨?_, h.aliasCycles_disjoint⟩) ?_
  · exact fun members hmem => (hcycles members hmem).distinct
  · intro type htype
    obtain ⟨members, hmembers, hmem⟩ := List.mem_flatten.mp htype
    exact List.mem_of_mem_filter ((hcycles members hmembers).aliases hmem)

/-- Every cycle of aliases is reported at an alias of its own. -/
theorem aliasCycleProblems_placed {table : TypeTable} (h : table.Consistent) :
    PlacedAmong (table.declared.map DeclaredType.position) table.aliasCycleProblems := by
  have hmembers : PlacedAmong (table.aliasCycles.flatMap (List.map DeclaredType.position))
      table.aliasCycleProblems := by
    rw [TypeTable.aliasCycleProblems, List.filterMap_eq_flatMap_toList]
    refine placedAmong_flatMap (fun members => ?_) _
    cases hproblem : TypeTable.aliasCycleProblem? members with
    | none => exact placedAmong_nil _
    | some problem => exact placedAmong_singleton (aliasCycleProblem?_position hproblem)
  obtain ⟨row, hperm, hsublist⟩ := aliasCycles_subperm h
  refine hmembers.mono ⟨row.map DeclaredType.position, ?_, hsublist.map _⟩
  rw [List.flatMap_def, ← List.map_flatten]
  exact hperm.map _

/-- A cycle of structs is reported at a field of its first struct. -/
theorem IsReport.exists_field (consistent : registry.Consistent) {links : List StructLink}
    (h : registry.IsReport links) {problem : Problem}
    (hproblem : structCycleProblem? links = some problem) :
    ∃ type ∈ registry.structs, ∃ field ∈ registry.nodes, field.id ∈ type.members ∧
      problem.position = field.position ∧ type.name ∈ links.map StructLink.structName := by
  cases links with
  | nil => cases hproblem
  | cons first others =>
    obtain rfl := Option.some.inj hproblem
    have hchain := (Cycle.chain_coe_cons _ _ _).mp h.linked
    obtain ⟨next, hlinked⟩ : ∃ next, registry.Linked first next := by
      cases others with
      | nil => exact ⟨first, hchain.rel⟩
      | cons second others => exact ⟨second, hchain.rel⟩
    obtain ⟨type, field, target, hcontains, rfl, -⟩ := hlinked
    obtain ⟨id, hid, hfound⟩ := hcontains.member
    obtain ⟨hfield, rfl⟩ := consistent.node?_eq_some_iff.mp hfound
    exact ⟨type, hcontains.holder, field, hfield, hid, rfl, List.mem_cons_self ..⟩

/-- Every cycle of structs is reported at a field of its own. -/
theorem structCycleProblems_placed (consistent : registry.Consistent)
    (parented : registry.Parented) (distinct : (registry.nodes.map GraphNode.position).Nodup) :
    PlacedAmong (registry.nodes.map GraphNode.position) registry.structCycleProblems := by
  obtain ⟨-, -, hsound, hdisjoint, -⟩ := consistent.cyclesReported
  refine List.subperm_of_subset ?_ ?_
  · rw [List.Nodup, List.pairwise_map, structCycleProblems, List.pairwise_filterMap]
    refine hdisjoint.imp_of_mem ?_
    intro links others hlinks hothers hapart problem hproblem second hsecond hsame
    obtain ⟨type, htype, field, hfield, hmember, hposition, hname⟩ :=
      (hsound links hlinks).exists_field consistent hproblem
    obtain ⟨other, hother, node, hnode, hnodeMember, hnodePosition, hotherName⟩ :=
      (hsound others hothers).exists_field consistent hsecond
    -- a field at the same place is the same, so its struct would belong to both cycles
    have hfields : field = node :=
      List.inj_on_of_nodup_map distinct hfield hnode
        (hposition.symm.trans (hsame.trans hnodePosition))
    rw [← hfields] at hnodeMember
    have hstructs := parented.eq_of_mem_members consistent
      (List.mem_of_mem_filter htype) (List.mem_of_mem_filter hother) hmember hnodeMember
    rw [← hstructs] at hotherName
    exact hapart hname hotherName
  · intro position hposition
    obtain ⟨problem, hproblem, rfl⟩ := List.mem_map.mp hposition
    obtain ⟨links, hlinks, hproblem⟩ := List.mem_filterMap.mp hproblem
    obtain ⟨-, -, field, hfield, -, hplace, -⟩ :=
      (hsound links hlinks).exists_field consistent hproblem
    rw [hplace]
    exact List.mem_map_of_mem hfield

/-- Everything that is wrong with resolved types is at names and options that are recorded, or at
the name of the schema. -/
theorem problems_placed (consistent : registry.Consistent) (parented : registry.Parented)
    (stands : registry.StandsIn places) (distinct : places.Nodup) (header : Header)
    {problem : Problem} (h : problem ∈ registry.problems header) :
    problem.position ∈ header.name.start :: places := by
  have hcycles := structCycleProblems_placed consistent parented (distinct.sublist stands.nodes)
  rcases List.mem_append.mp h with h | h
  · refine List.mem_cons_of_mem _ ?_
    rcases List.mem_append.mp h with h | h
    · rcases List.mem_append.mp h with h | h
      · rcases List.mem_append.mp h with h | h
        · exact stands.types.subset ((aliasCycleProblems_placed consistent.types).position_mem h)
        · exact stands.nodes.subset (hcycles.position_mem h)
      · exact stands.options.subset ((unionProblems_placed registry).position_mem h)
    · rcases List.mem_append.mp h with h | h
      · exact stands.nodes.subset ((fieldProblems_placed registry).position_mem h)
      · exact stands.parameters.subset ((parameterProblems_placed registry).position_mem h)
  · rw [List.mem_singleton.mp ((endpointProblems_placed registry header).position_mem h)]
    exact List.mem_cons_self

end Registry

/-! ### Problems of whole documents -/

namespace Schema

variable (document : Document)

theorem undefinedProblems_placed :
    PlacedAmong (starts (document.declarations.flatMap Declaration.tokens))
      (Registry.ofDeclarations document.declarations).undefinedProblems := by
  have hreferences := (Document.standsIn_kept document.declarations).references
  rw [← (Registry.records_kept document.declarations).references] at hreferences
  exact (Registry.undefinedProblems_placed _).mono hreferences.subperm

/-- What is wrong with a whole document is at tokens of the document. -/
theorem problemsOf_position {document : Document} (distinct : (starts document.tokens).Nodup)
    {problem : Problem} (h : problem ∈ problemsOf document) :
    problem.position ∈ starts document.tokens := by
  have hbehind : (starts (document.declarations.flatMap Declaration.tokens)).Sublist
      (starts document.tokens) := (List.sublist_append_right _ _).map _
  rcases List.mem_append.mp h with h | h
  · exact hbehind.subset ((undefinedProblems_placed document).position_mem h)
  · have hmem := Registry.problems_placed (Registry.consistent_linked _)
      (Registry.parented_linked _) (Registry.standsIn_linked document.declarations)
      (distinct.sublist hbehind) document.header h
    rcases List.mem_cons.mp hmem with hname | hmem
    · rw [hname]
      exact start_mem_starts (List.mem_append_left _ (by simp [Header.tokens]))
    · exact hbehind.subset hmem

/-- No two problems of a whole document are at one place with one code. -/
theorem problemsOf_apart {document : Document} (distinct : (starts document.tokens).Nodup) :
    Apart (problemsOf document) := by
  have hbehind := distinct.sublist (List.Sublist.map Token.start (List.sublist_append_right
    document.header.tokens (document.declarations.flatMap Declaration.tokens)))
  have hconsistent := Registry.consistent_linked document.declarations
  have hparented := Registry.parented_linked document.declarations
  have hstands := Registry.standsIn_linked document.declarations
  have hundefined := (undefinedProblems_placed document).apart hbehind
  have hundefinedCodes :=
    Registry.undefinedProblems_codes (Registry.ofDeclarations document.declarations)
  unfold problemsOf
  dsimp only
  generalize (Registry.ofDeclarations document.declarations).linked = registry at *
  have hnodes := hbehind.sublist hstands.nodes
  have hgroups : List.Forall₂ (fun codes problems => CodesAmong codes problems ∧ Apart problems)
      [[.typeUndef], [.aliasRecurs], [.structRecurs], [.unionRecurs, .unionIncludesNone],
        [.structFieldImpure], [.paramImpure], [.noEndpoints]]
      [(Registry.ofDeclarations document.declarations).undefinedProblems,
        registry.types.aliasCycleProblems, registry.structCycleProblems, registry.unionProblems,
        registry.nodes.filterMap registry.fieldProblem?,
        registry.parameters.filterMap registry.parameterProblem?,
        registry.endpointProblems document.header] := by
    refine .cons ⟨hundefinedCodes, hundefined⟩ (.cons ⟨Registry.aliasCycleProblems_codes _, ?_⟩
      (.cons ⟨Registry.structCycleProblems_codes _, ?_⟩ (.cons ⟨Registry.unionProblems_codes _, ?_⟩
      (.cons ⟨Registry.fieldProblems_codes _ _, ?_⟩
      (.cons ⟨Registry.parameterProblems_codes _ _, ?_⟩
      (.cons ⟨Registry.endpointProblems_codes _ _, ?_⟩ .nil))))))
    · exact (Registry.aliasCycleProblems_placed hconsistent.types).apart
        (hbehind.sublist hstands.types)
    · exact (Registry.structCycleProblems_placed hconsistent hparented hnodes).apart hnodes
    · exact (Registry.unionProblems_placed registry).apart (hbehind.sublist hstands.options)
    · exact (Registry.fieldProblems_placed registry).apart hnodes
    · exact (Registry.parameterProblems_placed registry).apart (hbehind.sublist hstands.parameters)
    · exact (Registry.endpointProblems_placed registry document.header).apart
        (List.nodup_singleton _)
  simpa [Registry.problems, Registry.purityProblems] using (apart_flatten hgroups (by decide)).2

end Schema

end GraphSchema
