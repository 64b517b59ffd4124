import GraphSchema.Proofs.Descent.Documents
import GraphSchema.Proofs.Descent.Jobs
import GraphSchema.Proofs.Grammar.Recognition

/-!
# Progress

Every turn of every loop of the descent takes a token or gives a problem, so the descent comes to an
end, after taking each token of the source text once at most, and what it finds is what is read of
the source text (`Schema.ScanEnds`).  The declarations, their members and the jobs they queue are
together no more than the tokens.
-/

namespace GraphSchema

/-- What has been read of a stream consists of tokens at its beginning. -/
theorem Reading.tokens_ofStream_prefix (stream : TokenStream) :
    (ofStream stream).1.tokens <+: stream.tokens := by
  have hkeeps {front : List Token} {reading : Reading} (h : start.reads front = some reading) :
      reading.tokens = front :=
    (reads_keeps h trivial).2
  rcases ofStream_spec stream with ⟨-, document, hgrammatical, htokens, hread⟩ |
    ⟨front, item, hoffence, reading, problem, hread, hfront, -⟩
  · have hreads := (reads_start_eq_iff document stream.tokens).mpr ⟨hgrammatical, htokens⟩
    rw [hread, hkeeps hreads]
  · rw [hread, hkeeps hfront]
    exact hoffence.isPrefix

/-- The jobs of a whole document resolve what its registry refers to. -/
theorem Reading.flatten_jobs_of_document {reading : Reading} {document : Document}
    (h : reading.document? = some document) :
    reading.jobs.flatten = (Registry.ofDeclarations document.declarations).references := by
  obtain rfl := document?_eq_some_iff.mp h
  rw [← Registry.references_eq_jobs, jobs]
  exact congrArg List.flatten (List.append_nil _)

/-- What the descent finds is what has been read: a document without a problem, or the problem that
stopped the reading. -/
def Rule.Finds : Except Problem Document → Reading × Option Problem → Prop
  | .ok found, read => read = (.body found.header found.declarations none, none)
  | .error problem, read => read.2 = some problem

theorem Rule.document_finds {lexer rest : Lexer} {outcome : Except Problem Document}
    (h : document lexer = some (outcome, rest)) :
    Finds outcome (Reading.ofStream lexer.upcoming) := by
  cases outcome with
  | ok found => exact ofStream_of_document h
  | error problem => exact ofStream_of_problem h

namespace Schema

/-- A source text is read in finitely many steps, each of which goes ahead. -/
structure ScanEnds (file : Path) (source : String) : Prop where
  declarations : Rule.Advances Rule.documentTurn Rule.AtEnd
  members : Rule.Advances Rule.memberTurn Rule.AtBrace
  parameters : Rule.Advances Rule.parameterTurn Rule.Never
  designations : Rule.Advances Rule.designationTurn Rule.Never
  scan : ∃ outcome rest taken,
    Rule.document (.ofSource file source) = some (outcome, rest) ∧
    (Lexer.ofSource file source).Passes taken rest ∧ taken <+: (stream file source).tokens ∧
    Rule.Finds outcome (Reading.ofStream (stream file source))
  counts : (Reading.ofStream (stream file source)).1.names.length +
    total DeclaredNames.size (Reading.ofStream (stream file source)).1.names +
    (Reading.ofStream (stream file source)).1.jobs.length ≤ (stream file source).tokens.length
  jobs : ∀ document, (Reading.ofStream (stream file source)).1.document? = some document →
    (Reading.ofStream (stream file source)).1.jobs.flatten =
      (Registry.ofDeclarations document.declarations).references

/-- Reading a source text comes to an end: every turn of every loop takes a token or gives a
problem, and the tokens bound what is declared and queued. -/
theorem scanEnds (file : Path) (source : String) : ScanEnds file source where
  declarations := Rule.documentTurn_advances
  members := Rule.memberTurn_advances
  parameters := Rule.parameterTurn_advances
  designations := Rule.designationTurn_advances
  scan := by
    obtain ⟨outcome, rest, taken, hresult, hpasses, -⟩ :=
      Rule.document_ends (Lexer.ofSource file source)
    have hupcoming : (stream file source).tokens = taken ++ rest.upcoming.tokens :=
      hpasses.upcoming
    exact ⟨outcome, rest, taken, hresult, hpasses, ⟨_, hupcoming.symm⟩,
      Rule.document_finds hresult⟩
  counts := Nat.le_trans (Reading.counts_le _) (Reading.tokens_ofStream_prefix _).length_le
  jobs := fun _ => Reading.flatten_jobs_of_document

end Schema

end GraphSchema
