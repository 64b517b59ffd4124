import GraphSchema.Proofs.Acceptance.Conditions
import GraphSchema.Proofs.Document.Accepted

/-!
# Which source texts are accepted

Nothing is wrong with a document if and only if it is well-formed (`Document.faultless_iff`).  So a
source text is accepted if and only if it is made of the tokens of a well-formed document, and there
is a diagnostic for every other one (`Schema.check_accepts_iff`).
-/

namespace GraphSchema

namespace Registry

/-- Nothing is wrong with resolved types if and only if no rule finds a problem. -/
theorem problems_eq_nil_iff (registry : Registry) (header : Header) :
    registry.problems header = [] ↔
      registry.types.aliasCycleProblems = [] ∧ registry.structCycleProblems = [] ∧
      registry.unionProblems = [] ∧ registry.nodes.filterMap registry.fieldProblem? = [] ∧
      registry.parameters.filterMap registry.parameterProblem? = [] ∧
      registry.endpointProblems header = [] := by
  unfold problems purityProblems
  simp only [List.append_eq_nil_iff, and_assoc]

end Registry

namespace Document

variable {document : Document}

/-- Nothing is undefined if and only if every reference names a type. -/
theorem undefinedProblems_eq_nil_iff {declarations : List Declaration}
    (names : NamesDistinct declarations)
    (members : ∀ declaration ∈ declarations, declaration.MembersDistinct) :
    (Registry.ofDeclarations declarations).undefinedProblems = [] ↔
      ∀ reference ∈ declarations.flatMap Declaration.references,
        (Primitive.ofName? reference.terminal).isSome ∨
          reference.terminal ∈ typeNames declarations := by
  have hrecords := Registry.records_ofDeclarations declarations names members
  rw [Registry.undefinedProblems_eq_nil_iff, hrecords.references]
  refine forall_congr' fun reference => forall_congr' fun _ => ?_
  exact hrecords.isSome_named?_iff (Registry.consistent_ofDeclarations declarations)
    reference.terminal

/-- Nothing is wrong with a document if and only if it is well-formed. -/
theorem faultless_iff (plain : Registry.PlainNames document.declarations) :
    document.Faultless ↔ document.WellFormed := by
  constructor
  · intro h
    obtain ⟨hnames, hmembers⟩ :=
      (problems_body_eq_nil_iff document.header document.declarations).mp h.reading
    obtain ⟨hdefined, hproblems⟩ := List.append_eq_nil_iff.mp h.resolving
    -- only if every reference names a type do the rules see all types
    have hknown := (undefinedProblems_eq_nil_iff hnames fun declaration hmem =>
      (hmembers declaration hmem).1).mp hdefined
    have hresolved := h.resolved plain
    obtain ⟨haliases, hstructs, hunions, hfields, hparameters, hendpoints⟩ :=
      (Registry.problems_eq_nil_iff _ document.header).mp hproblems
    exact ⟨hnames, hmembers, hknown, hresolved.aliasCycleProblems_eq_nil_iff.mp haliases,
      hresolved.structCycleProblems_eq_nil_iff.mp hstructs,
      hresolved.unionProblems_eq_nil_iff.mp hunions,
      hresolved.fieldProblems_eq_nil_iff.mp hfields,
      hresolved.parameterProblems_eq_nil_iff.mp hparameters,
      (hresolved.endpointProblems_eq_nil_iff document.header).mp hendpoints⟩
  · intro h
    have hdistinct : ∀ declaration ∈ document.declarations, declaration.MembersDistinct :=
      fun declaration hmem => (h.members declaration hmem).1
    have hdefined := (undefinedProblems_eq_nil_iff h.names hdistinct).mpr h.known
    have hresolved := Registry.resolved_linked h.names hdistinct plain hdefined
    refine ⟨?_, List.append_eq_nil_iff.mpr ⟨hdefined, ?_⟩⟩
    · exact (problems_body_eq_nil_iff document.header document.declarations).mpr
        ⟨h.names, h.members⟩
    · exact (Registry.problems_eq_nil_iff _ document.header).mpr
        ⟨hresolved.aliasCycleProblems_eq_nil_iff.mpr h.aliases,
          hresolved.structCycleProblems_eq_nil_iff.mpr h.structs,
          hresolved.unionProblems_eq_nil_iff.mpr h.options,
          hresolved.fieldProblems_eq_nil_iff.mpr h.fields,
          hresolved.parameterProblems_eq_nil_iff.mpr h.parameters,
          (hresolved.endpointProblems_eq_nil_iff document.header).mpr h.endpoints⟩

end Document

namespace Schema

/-- A source text is accepted if and only if it lexes, its tokens derive from the grammar, and the
document that they make is well-formed.  There is a diagnostic for every source text that is not
accepted. -/
theorem check_accepts_iff (file : Path) (source : String) :
    ((∃ model, (check file source).model = .ok model) ↔
      (stream file source).Lexes ∧ Derivable (stream file source).kinds ∧
        ∃ document : Document, document.Grammatical ∧
          document.tokens = (stream file source).tokens ∧ document.WellFormed) ∧
    ((∃ model, (check file source).model = .ok model) ∨
      ∃ diagnostics, (check file source).model = .error diagnostics ∧ diagnostics ≠ []) := by
  refine ⟨⟨?_, ?_⟩, ?_⟩
  · rintro ⟨model, hmodel⟩
    obtain ⟨document, hspells, hfaultless, -⟩ := check_eq_ok_iff.mp hmodel
    have hderivable : Derivable (stream file source).kinds :=
      derivable_iff_grammatical.mpr ⟨document, hspells.grammatical, hspells.tokens⟩
    refine ⟨hspells.lexes, hderivable, document, hspells.grammatical, hspells.tokens, ?_⟩
    exact (Document.faultless_iff hspells.plainNames).mp hfaultless
  · rintro ⟨hlexes, -, document, hgrammatical, htokens, hwellFormed⟩
    have hspells : (stream file source).Spells document := ⟨hlexes, hgrammatical, htokens⟩
    have hfaultless := (Document.faultless_iff hspells.plainNames).mpr hwellFormed
    exact ⟨modelOf document, check_eq_ok_iff.mpr ⟨document, hspells, hfaultless, rfl⟩⟩
  · cases hmodel : (check file source).model with
    | ok model => exact .inl ⟨model, rfl⟩
    | error diagnostics => exact .inr ⟨diagnostics, rfl, check_error_ne_nil hmodel⟩

end Schema

end GraphSchema
