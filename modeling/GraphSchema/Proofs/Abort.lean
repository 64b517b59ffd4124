import GraphSchema.Proofs.Document.Lasting
import GraphSchema.Proofs.Document.Shown
import GraphSchema.Proofs.Grammar.Recognition
import GraphSchema.Proofs.Token.Tiling

/-!
# Checks that are aborted

A fatal problem ends the check of a source text.  It is the only fatal one, and it stands behind
everything else that is reported, which is what showed before (`Checked.Aborts`,
`Schema.check_aborts`).  What is wrong with the whole document is not looked for, and nothing is
lost of what showed at any time while the document was read.
-/

namespace GraphSchema

/-- The check of a stream of tokens ends with a fatal diagnostic, behind what showed before. -/
structure Checked.Aborts (checked : Checked) (stream : TokenStream) (shown : List Diagnostic)
    (last : Diagnostic) : Prop where
  diagnostics : checked.diagnostics = shown ++ [last]
  fatal : checked.fatal = [last]
  codes : ∀ diagnostic ∈ shown, diagnostic.code ∈ ErrorCode.scanned
  behind : ∀ diagnostic ∈ shown, diagnostic.position.index < last.position.index
  /-- What showed when any of the tokens had been read is reported. -/
  kept : ∀ row reading, row <+: stream.tokens → Reading.start.reads row = some reading →
    ∀ problem ∈ reading.problems, problem.diagnostic ∈ shown
  /-- Nothing else is reported. -/
  only : ∃ row reading, row <+: stream.tokens ∧ Reading.start.reads row = some reading ∧
    shown.Perm (reading.problems.map Problem.diagnostic)

/-- Tokens in front of the item at which a stream leaves the grammar stand before it. -/
theorem TokenStream.Placed.index_lt {file : Path} {stream : TokenStream} (h : stream.Placed file)
    {front : List Token} {item : StreamItem} (offence : stream.IsOffence front item) :
    item.position.file = file ∧ ∀ token ∈ front,
      token.start.file = file ∧ token.start.index < item.position.index := by
  cases offence with
  | @token front back leaf place viable refused =>
    have hordered := h.ordered
    rw [place] at hordered
    have hmem (token : Token) (htoken : token ∈ front) : token ∈ stream.tokens := by
      rw [place]
      exact List.mem_append_left _ htoken
    refine ⟨(h.inside leaf (by simp [place])).1, fun token htoken => ⟨?_, ?_⟩⟩
    · exact (h.inside token (hmem token htoken)).1
    · exact (List.pairwise_append.mp hordered).2.2 token htoken leaf (List.mem_cons_self ..)
  | ending viable refused => exact ⟨h.ending, h.inside⟩

namespace Schema

/-- A source text with a fatal diagnostic is checked up to the place of that diagnostic. -/
theorem check_aborts {file : Path} {source : String} {diagnostic : Diagnostic}
    (mem : diagnostic ∈ (check file source).diagnostics)
    (fatal : diagnostic.code.isFatal = true) :
    ∃ shown last, (check file source).Aborts (stream file source) shown last := by
  have hfatal := fatal_check file source
  rw [← stream] at hfatal
  rcases Reading.ofStream_spec (stream file source) with
    ⟨-, document, -, -, hread⟩ | ⟨front, item, hoffence, reading, problem, hread, hfront, hposition⟩
  · -- a document that is read to its end has no fatal diagnostic
    have hmem : diagnostic ∈ (check file source).fatal := List.mem_filter.mpr ⟨mem, fatal⟩
    rw [hfatal, hread] at hmem
    cases hmem
  · rw [hread] at hfatal
    have hplaced : (stream file source).Placed file := TokenStream.placed_ofSource file source
    obtain ⟨hfile, hbefore⟩ := hplaced.index_lt hoffence
    have htokens : reading.tokens = front := (Reading.reads_keeps hfront trivial).2
    have hplaces (shown : Problem) (hshown : shown ∈ reading.problems) :
        shown.position.file = problem.position.file ∧
          shown.position.index < problem.position.index := by
      obtain ⟨token, htoken, hstart⟩ := List.mem_map.mp (Reading.problems_places hshown)
      rw [htokens] at htoken
      rw [← hstart, hposition, hfile]
      exact hbefore token htoken
    have hdiagnostics : (check file source).diagnostics =
        Diagnostic.sorted (reading.problems.map Problem.diagnostic ++ [problem.diagnostic]) := by
      unfold check
      rw [diagnostics_outcome, ← stream, hread, problems, Diagnostic.ofProblems, List.map_append]
      rfl
    have hbehind : ∀ diagnostic ∈ reading.problems.map Problem.diagnostic,
        compare diagnostic problem.diagnostic = .lt := by
      intro diagnostic hmem
      obtain ⟨other, hother, rfl⟩ := List.mem_map.mp hmem
      obtain ⟨hsame, hindex⟩ := hplaces other hother
      exact Diagnostic.compare_eq_lt (Cursor.compare_eq_lt hsame hindex)
    obtain ⟨shown, hsorted, hperm⟩ := Diagnostic.sorted_concat hbehind
    rw [hsorted] at hdiagnostics
    refine ⟨shown, problem.diagnostic, hdiagnostics, hfatal, ?_, ?_, ?_,
      front, reading, hoffence.isPrefix, hfront, hperm⟩
    · intro diagnostic hmem
      obtain ⟨other, hother, rfl⟩ := List.mem_map.mp (hperm.mem_iff.mp hmem)
      exact reading.problems_codes other hother
    · intro diagnostic hmem
      obtain ⟨other, hother, rfl⟩ := List.mem_map.mp (hperm.mem_iff.mp hmem)
      exact (hplaces other hother).2
    · intro row earlier hrow hearlier other hother
      -- the reading went on from there to the offence
      have hviable := (Reading.reads_start_isSome_iff row).mp (by rw [hearlier]; rfl)
      obtain ⟨back, rfl⟩ := hoffence.isPrefix_of_viable hrow hviable
      rw [Reading.reads_append, hearlier, Option.bind_some] at hfront
      exact hperm.mem_iff.mpr (List.mem_map_of_mem (Reading.problems_lasting hfront hother))

/-- An enum with a repeated value, and behind it a struct without a name. -/
theorem check_aborts_unnamed : ∃ diagnostic,
    diagnostic ∈ (check default "schema s enum E \x7b a a \x7d struct \x7b").diagnostics ∧
    diagnostic.code.isFatal = true ∧
    ∃ shown last, (check default "schema s enum E \x7b a a \x7d struct \x7b").Aborts
      (stream default "schema s enum E \x7b a a \x7d struct \x7b") shown last := by
  have hsome : (Reading.ofStream
      (stream default "schema s enum E \x7b a a \x7d struct \x7b")).2.isSome = true := by
    decide +kernel
  obtain ⟨problem, hproblem⟩ := Option.isSome_iff_exists.mp hsome
  have hfatal := fatal_check default "schema s enum E \x7b a a \x7d struct \x7b"
  rw [← stream, hproblem] at hfatal
  have hmem : problem.diagnostic ∈
      (check default "schema s enum E \x7b a a \x7d struct \x7b").fatal := by
    rw [hfatal]
    exact List.mem_singleton.mpr rfl
  obtain ⟨hreported, hcode⟩ := List.mem_filter.mp hmem
  exact ⟨problem.diagnostic, hreported, hcode, check_aborts hreported hcode⟩

end Schema

end GraphSchema
