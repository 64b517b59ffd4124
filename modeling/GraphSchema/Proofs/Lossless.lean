import GraphSchema.Proofs.Fragment.Exact

/-!
# The tree loses nothing

The tree of a source text is exact, and its tokens are those of the source text without its white
space as far as they were understood (`Schema.check_lossless`): all of them if there is no fatal
diagnostic, and otherwise those of the header and the declarations that are complete before the
place of the fatal diagnostic.

What is complete is defined by the grammar, not by the reader: `Understood front row` says that
`row` is the longest beginning of `front` that is a whole document.
-/

namespace GraphSchema

/-- A row of tokens is the longest beginning of another that is a header with declarations; it is
empty if there is none. -/
structure Understood (front row : List Token) : Prop where
  isPrefix : row <+: front
  whole : row = [] ∨ ∃ document : Document, document.Grammatical ∧ document.tokens = row
  longest : ∀ document : Document, document.Grammatical → document.tokens <+: front →
    document.tokens <+: row

/-! ### What is complete -/

namespace Reading

/-- The tokens of what is complete: the header and the declarations. -/
def completed (reading : Reading) : List Token :=
  (reading.header?.map Header.tokens).getD [] ++
    reading.declarations.flatMap Declaration.tokens

theorem completed_prefix_tokens (reading : Reading) : reading.completed <+: reading.tokens := by
  cases reading with
  | start => exact List.prefix_rfl
  | headed keyword => exact List.nil_prefix
  | body header declarations pending => exact List.prefix_append _ _

/-- What is complete stays so. -/
theorem completed_prefix_of_step {reading next : Reading} {token : Token}
    (h : reading.step token = some next) : reading.completed <+: next.completed := by
  cases reading with
  | start | headed keyword => exact List.nil_prefix
  | body header declarations pending =>
    cases pending with
    | none =>
      obtain ⟨opened, -, rfl⟩ := Option.map_eq_some_iff.mp h
      exact List.prefix_rfl
    | some opened =>
      obtain ⟨inner, -, rfl⟩ := Option.map_eq_some_iff.mp h
      cases inner with
      | more next => exact List.prefix_rfl
      | done declaration =>
        exact (List.prefix_append_right_inj _).mpr ((List.prefix_append _ _).flatMap _)

theorem completed_prefix_of_reads {reading next : Reading} {row : List Token}
    (h : reading.reads row = some next) : reading.completed <+: next.completed := by
  induction row generalizing reading with
  | nil =>
    obtain rfl := Option.some.inj h
    exact List.prefix_rfl
  | cons token row ih =>
    obtain ⟨middle, hmiddle, hrest⟩ := Option.bind_eq_some_iff.mp h
    exact (completed_prefix_of_step hmiddle).trans (ih hrest)

/-- After a row of tokens was taken, its longest beginning that is a whole document is complete. -/
theorem understood {reading : Reading} {front : List Token}
    (h : start.reads front = some reading) : Understood front reading.completed := by
  obtain ⟨hgood, htokens⟩ := reads_keeps h trivial
  have htaken := reading.completed_prefix_tokens
  rw [htokens] at htaken
  refine ⟨htaken, ?_, ?_⟩
  · cases reading with
    | start | headed keyword => exact .inl rfl
    | body header declarations pending =>
      exact .inr ⟨⟨header, declarations⟩, ⟨hgood.1, hgood.2.1⟩, rfl⟩
  · -- the reader was between two declarations when it had taken the document
    rintro document hgrammatical ⟨back, rfl⟩
    rw [reads_append, (reads_start_eq_iff document _).mpr ⟨hgrammatical, rfl⟩,
      Option.bind_some] at h
    exact completed_prefix_of_reads h

/-- The tree of a header with declarations spans their tokens. -/
theorem spans_body (file : Path) {source : List Char} {header : Header}
    {declarations : List Declaration} {pending : Option OpenDeclaration}
    (laidOut : LaidOut source (body header declarations pending).completed) :
    ((body header declarations pending).fragment file source).Spans source
      (body header declarations pending).completed := by
  obtain ⟨hheader, hdeclarations⟩ := laidOut.append
  have hparts : Fragment.PartsSpan source
      ([header.fragment source] ++ declarations.map (Declaration.fragment source))
      (header.tokens ++ declarations.flatMap Declaration.tokens) := by
    refine .append (.single (Header.spans hheader)) (.map fun declaration hdeclaration => ?_)
    exact Declaration.spans (hdeclarations.of_mem_flatMap hdeclaration)
  exact hparts.close laidOut (List.cons_ne_nil _ _) .document (.startOf file)

/-- The tree of a reading is exact and has the tokens of what is complete. -/
theorem fragment_exact (file : Path) {source : List Char} {reading : Reading}
    (laidOut : LaidOut source reading.completed) :
    (reading.fragment file source).Exact source ∧
      (reading.fragment file source).tokens = reading.completed := by
  cases reading with
  | start | headed keyword =>
    have htokens := Fragment.tokens_close .document (.startOf file) source []
    exact ⟨Fragment.exact_close_nil .document file source,
      htokens.trans Fragment.tokensOf_nil⟩
  | body header declarations pending =>
    have hspans := spans_body file laidOut
    exact ⟨hspans.exact, hspans.tokens⟩

end Reading

/-! ### Checking a source text -/

namespace Schema

/-- A tree of a source text is exact, and its tokens are those that were understood. -/
structure Lossless (file : Path) (source : String) (tree : Fragment) : Prop where
  kind : tree.kind? = some .document
  exact : tree.Exact source.toList
  spaceless : ∀ token ∈ tree.tokens, token.kind ≠ .space
  whole : (check file source).fatal = [] → tree.tokens = (stream file source).tokens
  partly : ∀ diagnostic ∈ (check file source).fatal, ∃ front item,
    (stream file source).IsOffence front item ∧ diagnostic.position = item.position ∧
      Understood front tree.tokens

/-- The reading of a source text has gone over some of its tokens, and its tree is made of what is
complete of these. -/
theorem exists_read (file : Path) (source : String) :
    ∃ front reading, Reading.start.reads front = some reading ∧
      (Reading.ofStream (stream file source)).1 = reading ∧ front <+: (stream file source).tokens ∧
      (∀ problem ∈ (Reading.ofStream (stream file source)).2, ∃ item,
        (stream file source).IsOffence front item ∧ problem.position = item.position) ∧
      ((Reading.ofStream (stream file source)).2 = none →
        reading.completed = (stream file source).tokens) := by
  rcases Reading.ofStream_spec (stream file source) with
    ⟨-, document, hgrammatical, htokens, hread⟩ | ⟨front, item, hoffence, hfails⟩
  · have hreads := (Reading.reads_start_eq_iff document _).mpr ⟨hgrammatical, htokens⟩
    refine ⟨_, _, hreads, by rw [hread], List.prefix_rfl, ?_, fun _ => htokens⟩
    rw [hread]
    exact fun _ hproblem => absurd hproblem (Option.not_mem_none _)
  · obtain ⟨reading, problem, hread, hreads, hposition⟩ := hfails
    rw [hread]
    refine ⟨front, reading, hreads, rfl, hoffence.isPrefix, ?_, fun hnone => by cases hnone⟩
    intro other hother
    obtain rfl := Option.some.inj hother
    exact ⟨item, hoffence, hposition⟩

/-- The tree of a source text loses nothing of what was understood. -/
theorem check_lossless (file : Path) (source : String) :
    Lossless file source (check file source).fragment := by
  obtain ⟨front, reading, hreads, hread, hfront, hoffence, hwhole⟩ := exists_read file source
  have hfragment : (check file source).fragment = reading.fragment file source.toList := by
    rw [← hread]
    rfl
  have hunderstood := Reading.understood hreads
  have hrow := hunderstood.isPrefix.trans hfront
  obtain ⟨hexact, htokens⟩ := Reading.fragment_exact file
    ((laidOut_stream file source).part hrow.isInfix)
  have hfatal := fatal_check file source
  rw [← stream] at hfatal
  rw [hfragment]
  refine ⟨?_, hexact, ?_, ?_, ?_⟩
  · rfl
  · intro token htoken hspace
    rw [htokens] at htoken
    have hkept := (List.mem_filter.mp (hrow.subset htoken)).2
    rw [hspace] at hkept
    cases hkept
  · intro hnone
    rw [hfatal, List.map_eq_nil_iff, Option.toList_eq_nil_iff] at hnone
    rw [htokens, hwhole hnone]
  · intro diagnostic hdiagnostic
    rw [hfatal] at hdiagnostic
    obtain ⟨problem, hproblem, rfl⟩ := List.mem_map.mp hdiagnostic
    obtain ⟨item, hitem, hposition⟩ := hoffence problem (Option.mem_toList.mp hproblem)
    rw [htokens]
    exact ⟨front, item, hitem, hposition, hunderstood⟩

end Schema

end GraphSchema
