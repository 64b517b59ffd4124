import GraphSchema.Proofs.Document.Distinct
import GraphSchema.Proofs.Document.Places
import GraphSchema.Proofs.Grammar.Recognition
import GraphSchema.Proofs.Registry.Resolved
import GraphSchema.Proofs.Token.Tiling

/-!
# Accepted sources

A source text is accepted if it is read to a document with which nothing is wrong, and its model is
then that of the document (`Schema.check_eq_ok_iff`).  The document of an accepted source text has a
resolved registry (`Document.Faultless.resolved`).
-/

namespace GraphSchema

/-- Nothing is wrong with a document, neither while it is read nor after its references are
resolved. -/
structure Document.Faultless (document : Document) : Prop where
  reading : (Reading.body document.header document.declarations none).problems = []
  resolving : Schema.problemsOf document = []

/-- A document is made of the tokens of a stream, which has no lexical error. -/
structure TokenStream.Spells (stream : TokenStream) (document : Document) : Prop where
  lexes : stream.Lexes
  grammatical : document.Grammatical
  tokens : document.tokens = stream.tokens

namespace Schema

variable {file : Path} {source : String} {document : Document} {model : SchemaModel}

theorem outcome_body (document : Document) :
    outcome (.body document.header document.declarations none, none) =
      match (Reading.body document.header document.declarations none).problems ++
        problemsOf document with
      | [] => .ok (modelOf document)
      | found => .error (Diagnostic.ofProblems found) := by
  unfold outcome problems
  dsimp only [Reading.document?, Option.map_some, Option.getD_some]
  generalize (Reading.body document.header document.declarations none).problems ++
    problemsOf document = found
  cases found <;> rfl

/-- The outcome for a document that was read to its end. -/
theorem outcome_body_eq_ok_iff :
    outcome (.body document.header document.declarations none, none) = .ok model ↔
      document.Faultless ∧ model = modelOf document := by
  rw [outcome_body]
  constructor
  · intro h
    split at h
    case h_1 hnone =>
      obtain ⟨hreading, hresolving⟩ := List.append_eq_nil_iff.mp hnone
      exact ⟨⟨hreading, hresolving⟩, (Except.ok.inj h).symm⟩
    case h_2 => cases h
  · rintro ⟨⟨hreading, hresolving⟩, rfl⟩
    rw [hreading, hresolving]
    rfl

/-- What stopped the reading is an error. -/
theorem outcome_fatal (reading : Reading) (problem : Problem) :
    outcome (reading, some problem) =
      .error (Diagnostic.ofProblems (reading.problems ++ [problem])) := by
  unfold outcome problems
  dsimp only
  split
  case h_1 hnone _ => simp at hnone
  case h_2 => rfl

/-- A source text that spells a document is accepted if and only if nothing is wrong with it. -/
theorem check_eq_ok_iff_of_spells (spells : (stream file source).Spells document) :
    (check file source).model = .ok model ↔ document.Faultless ∧ model = modelOf document := by
  have hcheck : (check file source).model = outcome (Reading.ofStream (stream file source)) := rfl
  rw [hcheck, Reading.ofStream_of_grammatical spells.lexes spells.grammatical spells.tokens]
  exact outcome_body_eq_ok_iff

/-- A source text is accepted if and only if its tokens are those of a document with which nothing
is wrong, and its model is that of the document. -/
theorem check_eq_ok_iff :
    (check file source).model = .ok model ↔
      ∃ document, (stream file source).Spells document ∧ document.Faultless ∧
        model = modelOf document := by
  constructor
  · intro h
    have hcheck : (check file source).model = outcome (Reading.ofStream (stream file source)) := rfl
    rcases Reading.ofStream_spec (stream file source) with
      ⟨hlexes, document, hgrammatical, htokens, -⟩ | ⟨front, item, -, reading, problem, hread, -⟩
    · have hspells : (stream file source).Spells document := ⟨hlexes, hgrammatical, htokens⟩
      exact ⟨document, hspells, (check_eq_ok_iff_of_spells hspells).mp h⟩
    · rw [hcheck, hread, outcome_fatal] at h
      cases h
  · rintro ⟨document, hspells, hfaultless⟩
    exact (check_eq_ok_iff_of_spells hspells).mpr hfaultless

/-- A source text that is read without a fatal problem spells a document. -/
theorem exists_spells_of_scans (scans : (check file source).fatal = []) :
    ∃ document, (stream file source).Spells document := by
  rw [fatal_check, ← stream] at scans
  rcases Reading.ofStream_spec (stream file source) with
    ⟨hlexes, document, hgrammatical, htokens, -⟩ | ⟨front, item, -, reading, problem, hread, -⟩
  · exact ⟨document, hlexes, hgrammatical, htokens⟩
  · rw [hread] at scans
    cases scans

/-- A source text that is read to its end has no fatal problem. -/
theorem fatal_eq_nil_of_read (read : (Reading.ofStream (stream file source)).2 = none) :
    (check file source).fatal = [] := by
  rw [fatal_check, ← stream, read]
  rfl

/-- What is read of a source text without a fatal problem is its document. -/
theorem exists_spells_of_read (read : (Reading.ofStream (stream file source)).2 = none) :
    ∃ document, (stream file source).Spells document ∧
      (Reading.ofStream (stream file source)).1.declarations = document.declarations := by
  obtain ⟨document, hspells⟩ := exists_spells_of_scans (fatal_eq_nil_of_read read)
  refine ⟨document, hspells, ?_⟩
  rw [Reading.ofStream_of_grammatical hspells.lexes hspells.grammatical hspells.tokens]
  rfl

/-- The diagnostics of a source text that spells a document are those of its problems. -/
theorem diagnostics_of_spells (spells : (stream file source).Spells document) :
    (check file source).diagnostics = Diagnostic.ofProblems
      ((Reading.body document.header document.declarations none).problems ++
        problemsOf document) := by
  unfold check
  rw [diagnostics_outcome, ← stream,
    Reading.ofStream_of_grammatical spells.lexes spells.grammatical spells.tokens]
  rfl

/-- The diagnostics with one code of a source text that spells a document. -/
theorem filter_diagnostics (spells : (stream file source).Spells document) (code : ErrorCode) :
    ((check file source).diagnostics.filter fun diagnostic => diagnostic.code == code).Perm
      ((((Reading.body document.header document.declarations none).problems ++
        problemsOf document).filter fun problem => problem.code == code).map
          Problem.diagnostic) := by
  rw [diagnostics_of_spells spells]
  have hperm := (Diagnostic.ofProblems_perm
    ((Reading.body document.header document.declarations none).problems ++
      problemsOf document)).filter fun diagnostic => diagnostic.code == code
  rwa [List.filter_map] at hperm

/-- There is a diagnostic for every source text that is not accepted. -/
theorem check_error_ne_nil {diagnostics : List Diagnostic}
    (h : (check file source).model = .error diagnostics) : diagnostics ≠ [] := by
  have hcheck : (check file source).model = outcome (Reading.ofStream (stream file source)) := rfl
  rw [hcheck] at h
  unfold outcome at h
  split at h
  · cases h
  case h_2 hunless =>
    obtain rfl := Except.error.inj h
    intro hnil
    have hproblems := Diagnostic.ofProblems_eq_nil_iff.mp hnil
    rcases Reading.ofStream_spec (stream file source) with
      ⟨-, document, -, -, hread⟩ | ⟨front, item, -, reading, problem, hread, -⟩
    · exact hunless document hproblems (by rw [hread]; rfl)
    · rw [hread] at hproblems
      simp [problems] at hproblems

end Schema

/-- The words of a document of a source text have the kinds that their spelling decides. -/
theorem TokenStream.Spells.words {file : Path} {source : String} {document : Document}
    (h : (Schema.stream file source).Spells document) :
    ∀ token ∈ document.tokens, token.kind.isWord = true → token.kind = .ofWord token.text := by
  intro token htoken hword
  rw [h.tokens] at htoken
  exact TokenStream.kind_of_isWord htoken hword

/-- The names of the types of a document of a source text are plain. -/
theorem TokenStream.Spells.plainNames {file : Path} {source : String} {document : Document}
    (h : (Schema.stream file source).Spells document) :
    Registry.PlainNames document.declarations :=
  plainNames_of_grammatical h.grammatical h.words

/-- The tokens of a document of a source text stand one behind the other. -/
theorem TokenStream.Spells.ascending {file : Path} {source : String} {document : Document}
    (h : (Schema.stream file source).Spells document) :
    Ascending (starts (document.declarations.flatMap Declaration.tokens)) := by
  have hplaced : (Schema.stream file source).Placed file := placed_ofSource file source
  refine List.pairwise_map.mpr (hplaced.ordered.sublist ?_)
  rw [← h.tokens]
  exact List.sublist_append_right _ _

/-- The references of a faultless document are resolved. -/
theorem Document.Faultless.resolved {document : Document} (h : document.Faultless)
    (plain : Registry.PlainNames document.declarations) :
    Registry.Resolved document.declarations
      (Registry.ofDeclarations document.declarations).linked := by
  obtain ⟨hnames, hmembers⟩ :=
    (problems_body_eq_nil_iff document.header document.declarations).mp h.reading
  have hdefined := (List.append_eq_nil_iff.mp h.resolving).1
  exact Registry.resolved_linked hnames
    (fun declaration hmem => (hmembers declaration hmem).1) plain
    hdefined

end GraphSchema
