import GraphSchema.Proofs.Document.Accepted
import GraphSchema.Proofs.Registry.Settled
import GraphSchema.Proofs.Types.PurityEquations

/-!
# What is reported about purity

Fields and parameters carry data only.  Those of the kept fields and parameters are reported whose
type is resolved and reaches a resolver or `None`, each once and no others, in every schema that is
read to its end (`Schema.check_purity`).  This holds whatever else is wrong with the schema: aliases
may stand for each other in a circle, and unions may list each other.
-/

namespace GraphSchema

open Relation

namespace TypeTable

variable {table : TypeTable}

/-- The type of a reference is known, and a resolver or `None` can be reached from it. -/
def ReachesDataless (table : TypeTable) (reference : Designation) : Prop :=
  ∃ id, table.reference? reference = some id ∧
    ∃ last, ReflTransGen table.Uses id last ∧ table.IsDataless last

theorem not_reachesDataless {reference : Designation}
    (unresolved : table.reference? reference = none) : ¬ table.ReachesDataless reference := by
  rintro ⟨id, hresolved, -⟩
  rw [unresolved] at hresolved
  cases hresolved

theorem Consistent.reachesDataless_iff (h : table.Consistent) {reference : Designation}
    {id : TypeId} (resolved : table.reference? reference = some id) :
    table.ReachesDataless reference ↔ ¬ table.isPure id = true := by
  rw [Bool.not_eq_true, h.isPure_eq_false_iff]
  constructor
  · rintro ⟨other, hother, hreaches⟩
    obtain rfl := Option.some.inj (resolved.symm.trans hother)
    exact hreaches
  · exact fun hreaches => ⟨id, resolved, hreaches⟩

open Classical in
/-- A known type is reported if the search finds that it is not pure. -/
theorem Consistent.ite_reachesDataless (h : table.Consistent) {reference : Designation}
    {id : TypeId} (resolved : table.reference? reference = some id) {α : Type} (report : α) :
    (if table.ReachesDataless reference then some report else none) =
      if table.isPure id then none else some report := by
  have hreaches := h.reachesDataless_iff resolved
  by_cases hpure : table.isPure id = true
  · rw [if_pos hpure, if_neg fun hdataless => hreaches.mp hdataless hpure]
  · rw [if_neg hpure, if_pos (hreaches.mpr hpure)]

/-- The type of a reference is spelled like it. -/
theorem Consistent.designation?_of_reference? (h : table.Consistent) {reference : Designation}
    {id : TypeId} (resolved : table.reference? reference = some id) :
    table.designation? id = some reference.canonical := by
  unfold reference? at resolved
  split at resolved
  case h_1 hmodifiers =>
    obtain ⟨type, htype, rfl⟩ := Option.map_eq_some_iff.mp resolved
    obtain ⟨hnamed, hname⟩ := h.named?_eq_some_iff.mp htype
    rw [h.designation?_id (mem_named.mp hnamed).1, hname, Designation.canonical, hmodifiers]
    rfl
  case h_2 =>
    obtain ⟨container, hcontainer, rfl⟩ := Option.map_eq_some_iff.mp resolved
    obtain ⟨hmem, hdesignation⟩ := h.anonymous?_eq_some_iff.mp hcontainer
    rw [← hdesignation]
    exact h.designation?_id (container_mem_types hmem)

end TypeTable

/-! ### Reports -/

section

open Classical in
/-- What is reported about the type of a field. -/
noncomputable def WrittenNode.fieldReport? (types : TypeTable) (written : WrittenNode) :
    Option Problem :=
  match written.place with
  | .field owner =>
    if types.ReachesDataless written.type.designation then
      some (.fieldImpure owner.text written.name.text written.type.designation.canonical
        written.name.start)
    else none
  | _ => none

open Classical in
/-- What is reported about the type of a parameter. -/
noncomputable def WrittenNode.parameterReport? (types : TypeTable)
    (entry : WrittenNode × TypedName) : Option Problem :=
  if types.ReachesDataless entry.2.type.designation then
    some (.parameterImpure entry.1.graphName entry.2.name.text entry.2.type.designation.canonical
      entry.2.name.start)
  else none

end

namespace Registry

variable {registry : Registry} {declarations : List Declaration}

theorem fieldProblems_eq (h : Records declarations registry) (consistent : registry.Consistent)
    (filled : registry.Filled) :
    registry.nodes.filterMap registry.fieldProblem? =
      (declarations.flatMap Declaration.writtenNodes).filterMap
        (WrittenNode.fieldReport? registry.types) := by
  have hnodes := forall₂_imp_of_mem h.nodes
    fun written _ node hnode hrecords => And.intro hnode hrecords
  refine (filterMap_eq_filterMap_of_forall₂ hnodes ?_).symm
  rintro written node ⟨hnode, hrecords⟩
  have hplace := hrecords.place
  unfold WrittenNode.fieldReport? fieldProblem?
  cases hwritten : written.place with
  | field owner =>
    rw [hwritten] at hplace
    obtain ⟨parent, hparent, hname, hkind⟩ := hplace
    have howner : registry.types.designation? parent.id = some owner.text := by
      rw [← hname]
      exact consistent.types.designation?_id (TypeTable.declared_mem_types_iff.mpr hparent)
    rw [hkind, filled.nodes node hnode, hrecords.designation]
    cases hresolved : registry.types.reference? written.type.designation with
    | none => exact if_neg (TypeTable.not_reachesDataless hresolved)
    | some id =>
      dsimp only
      rw [consistent.types.ite_reachesDataless hresolved, howner,
        consistent.types.designation?_of_reference? hresolved, hrecords.name, hrecords.position]
      rfl
  | property owner =>
    rw [hwritten] at hplace
    obtain ⟨parent, -, -, hkind⟩ := hplace
    rw [hkind]
  | endpoint kind =>
    rw [hwritten] at hplace
    have hkind : node.kind = kind.nodeKind := hplace
    rw [hkind]
    cases kind <;> rfl

/-- A parameter is reported under the name of the graph node that has it. -/
theorem parameterProblems_eq (h : Records declarations registry) (consistent : registry.Consistent)
    (filled : registry.Filled) :
    registry.parameters.filterMap registry.parameterProblem? =
      (Document.parameters declarations).filterMap
        (WrittenNode.parameterReport? registry.types) := by
  have hentries := forall₂_imp_of_mem (h.parameter_entries consistent)
    fun entry _ parameter hparameter hrecords => And.intro hparameter hrecords
  refine (filterMap_eq_filterMap_of_forall₂ hentries ?_).symm
  rintro entry parameter ⟨hparameter, node, hnode, hwritten, hrecords⟩
  have htarget : registry.node? parameter.target = some node :=
    consistent.node?_eq_some_iff.mpr ⟨hnode, hrecords.target.symm⟩
  unfold WrittenNode.parameterReport? parameterProblem?
  rw [filled.parameters parameter hparameter, hrecords.designation]
  cases hresolved : registry.types.reference? entry.2.type.designation with
  | none => exact if_neg (TypeTable.not_reachesDataless hresolved)
  | some id =>
    dsimp only
    rw [consistent.types.ite_reachesDataless hresolved, htarget,
      consistent.types.designation?_of_reference? hresolved, hrecords.name, hrecords.position,
      Option.map_some, hwritten.graphName]
    rfl

end Registry

/-! ### Diagnostics -/

/-- Fields and parameters that are impure are reported once each, and no others are. -/
structure Checked.ReportsImpure (checked : Checked) (declarations : List Declaration)
    (types : TypeTable) : Prop where
  fields : (checked.diagnostics.filter fun diagnostic =>
      diagnostic.code == .structFieldImpure).Perm
    (((declarations.flatMap Declaration.writtenNodes).filterMap
      (WrittenNode.fieldReport? types)).map Problem.diagnostic)
  parameters : (checked.diagnostics.filter fun diagnostic => diagnostic.code == .paramImpure).Perm
    (((Document.parameters declarations).filterMap
      (WrittenNode.parameterReport? types)).map Problem.diagnostic)

namespace Schema

/-- Of all problems of a document only those of impure types have their codes. -/
theorem filter_problems_impure (document : Document) {code : ErrorCode}
    (impure : code = .structFieldImpure ∨ code = .paramImpure) :
    ((Reading.body document.header document.declarations none).problems ++
        problemsOf document).filter (fun problem => problem.code == code) =
      (Registry.ofDeclarations document.declarations).linked.purityProblems.filter
        fun problem => problem.code == code := by
  have hpart : (problemParts document).filter (fun part => code ∈ part.1) =
      [([.structFieldImpure, .paramImpure],
        (Registry.ofDeclarations document.declarations).linked.purityProblems)] := by
    rcases impure with rfl | rfl <;> rfl
  rw [filter_problemParts, hpart, List.flatMap_singleton]

/-- The impure fields are the problems with their code. -/
theorem filter_structFieldImpure (registry : Registry) :
    (registry.purityProblems.filter fun problem => problem.code == .structFieldImpure) =
      registry.nodes.filterMap registry.fieldProblem? := by
  have hparameters := (registry.parameterProblems_codes registry.parameters).filter_eq_nil
    (· == .structFieldImpure) (by decide)
  rw [Registry.purityProblems, List.filter_append, (registry.fieldProblems_codes _).filter_eq_self,
    hparameters, List.append_nil]

/-- The impure parameters are the problems with their code. -/
theorem filter_paramImpure (registry : Registry) :
    (registry.purityProblems.filter fun problem => problem.code == .paramImpure) =
      registry.parameters.filterMap registry.parameterProblem? := by
  have hfields := (registry.fieldProblems_codes registry.nodes).filter_eq_nil
    (· == .paramImpure) (by decide)
  rw [Registry.purityProblems, List.filter_append, hfields,
    (registry.parameterProblems_codes _).filter_eq_self, List.nil_append]

/-- A type of a schema that is read to its end is not pure if and only if a resolver or `None` can
be reached from it, and those kept fields and parameters are reported that have such a type. -/
theorem check_purity {file : Path} {source : String} (scans : (check file source).fatal = []) :
    ∃ document, (stream file source).Spells document ∧
      (Registry.ofDeclarations document.declarations).linked.types.PurityDecided ∧
      (∀ reference ∈ (Document.kept document.declarations).flatMap Declaration.references,
        Document.Defines (Document.kept document.declarations) reference.terminal →
        ((Registry.ofDeclarations document.declarations).linked.types.reference?
          reference).isSome) ∧
      (check file source).ReportsImpure (Document.kept document.declarations)
        (Registry.ofDeclarations document.declarations).linked.types := by
  obtain ⟨document, hspells⟩ := exists_spells_of_scans scans
  have hrecords := Registry.records_kept_linked document.declarations
  have hconsistent := Registry.consistent_linked document.declarations
  have hfilled := Registry.filled_linked
    (Registry.consistent_ofDeclarations document.declarations)
  refine ⟨document, hspells, hconsistent.types.purityDecided,
    fun reference hmem => Registry.isSome_reference?_kept hspells.plainNames hmem, ?_, ?_⟩
  · have hreports := filter_diagnostics hspells .structFieldImpure
    rwa [filter_problems_impure document (.inl rfl), filter_structFieldImpure,
      Registry.fieldProblems_eq hrecords hconsistent hfilled] at hreports
  · have hreports := filter_diagnostics hspells .paramImpure
    rwa [filter_problems_impure document (.inr rfl), filter_paramImpure,
      Registry.parameterProblems_eq hrecords hconsistent hfilled] at hreports

/-- A schema that is rejected: an alias and a union refer to each other, and a resolver can be
reached from both. -/
theorem check_purity_circle :
    (check default
      "schema s alias A = U union U \x7b A R\x7d resolver R \x7b p(x A) A\x7d struct S \x7b f A\x7d"
      ).fatal = [] ∧
    ∃ document, (stream default
      "schema s alias A = U union U \x7b A R\x7d resolver R \x7b p(x A) A\x7d struct S \x7b f A\x7d"
      ).Spells document ∧
      (Registry.ofDeclarations document.declarations).linked.types.PurityDecided ∧
      (check default
      "schema s alias A = U union U \x7b A R\x7d resolver R \x7b p(x A) A\x7d struct S \x7b f A\x7d"
      ).ReportsImpure (Document.kept document.declarations)
        (Registry.ofDeclarations document.declarations).linked.types := by
  have hread : (Reading.ofStream (stream default
      "schema s alias A = U union U \x7b A R\x7d resolver R \x7b p(x A) A\x7d struct S \x7b f A\x7d"
      )).2 = none := by
    decide +kernel
  have hscans := fatal_check default
    "schema s alias A = U union U \x7b A R\x7d resolver R \x7b p(x A) A\x7d struct S \x7b f A\x7d"
  rw [← stream, hread] at hscans
  obtain ⟨document, hspells, hdecided, -, hreports⟩ := check_purity hscans
  exact ⟨hscans, document, hspells, hdecided, hreports⟩

end Schema

end GraphSchema
