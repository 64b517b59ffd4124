import GraphSchema.Proofs.Validate.Wide

/-!
# What can be shown of a schema

The diagnostics of a schema can be shown if none of their places is too far to the right, and the
command has a result then, whatever is wrong with the schema (`SchemaFile.check_shown`).  A line
that is long enough leaves no room: there are short texts of which nothing can be shown
(`SchemaFile.check_unshown`).
-/

namespace GraphSchema

namespace SchemaFile

/-- No place of a diagnostic of the schema is too far to the right to be shown. -/
def IsNarrow (file : SchemaFile) : Prop :=
  ∀ diagnostic ∈ (Schema.check file.path file.source).diagnostics,
    ∀ place ∈ diagnostic.positions, place.column ≤ Snippet.widest + 1

/-- What is known of the room that the diagnostics of a schema take.  The numbers of lines always
have room, and a diagnostic has if none of its places is too far to the right; this is so for all of
them if no line of the text is longer than the widest one.  The command has a result if and only if
it is so for all diagnostics of the schema, provided that the other schemas that are selected can be
shown. -/
structure Shown (file : SchemaFile) : Prop where
  numbers : ∀ diagnostic ∈ (Schema.check file.path file.source).diagnostics,
    ∀ place ∈ diagnostic.positions, ∀ snippet, Snippet.of? file.source place = some snippet →
      snippet.gutter ≤ 10 ∧ snippet.offset = place.column - 1
  columns : ∀ diagnostic ∈ (Schema.check file.path file.source).diagnostics,
    diagnostic.fits file.source = true ↔
      ∀ place ∈ diagnostic.positions, place.column ≤ Snippet.widest + 1
  lines : (∀ line ∈ Text.lines file.source.toList, line.length ≤ Snippet.widest) →
    ∀ diagnostic ∈ (Schema.check file.path file.source).diagnostics,
      diagnostic.fits file.source = true
  command : ∀ (tree : FileTree) (root : Path) (extensions : List String) (json : Bool)
    (paths : List Path) (files : List SchemaFile), tree.WellNamed → tree.WalksThrough root paths →
      tree.Readable root extensions paths → tree.Selects root extensions paths files →
      file ∈ files → (∀ other ∈ files, other ≠ file → other.Fits) →
        ((tree.validate root extensions json paths).isSome = true ↔ file.IsNarrow)

variable {file : SchemaFile}

/-- There is room for the diagnostics of a short schema if and only if it is narrow. -/
theorem fits_iff_isNarrow (short : Schema.IsShort file.source) : file.Fits ↔ file.IsNarrow := by
  rw [fits_iff_diagnostics]
  refine forall₂_congr fun diagnostic mem => ?_
  exact Schema.fits_iff short mem

theorem isShort_blanks {count : Nat} (h : count + 1 < 2 ^ 32 - 1) :
    Schema.IsShort (blanksAndMark count) := by
  have hblanks (count : Nat) : Text.byteLength (List.replicate count ' ') = count := by
    induction count with
    | zero => rfl
    | succ count ih =>
      have hsize : ' '.utf8Size = 1 := by decide
      rw [List.replicate_succ, Text.byteLength, ih, hsize, Nat.add_comm]
  have hmark : Text.byteLength ['!'] = 1 := by decide
  rw [Schema.IsShort, blanksAndMark, String.toList_ofList, Text.byteLength_append, hblanks, hmark]
  exact h

/-- The diagnostics of a short schema can be shown if they are not too far to the right. -/
theorem check_shown (short : Schema.IsShort file.source) : file.Shown where
  numbers diagnostic mem place shown snippet hsnippet := by
    obtain ⟨rest, hcomes, -⟩ :=
      Schema.comesTo_of_mem_positions (Schema.diagnostics_positions mem shown)
    exact ⟨Snippet.gutter_le hsnippet hcomes.standsIn short, (Snippet.of?_eq_some hsnippet).2⟩
  columns diagnostic mem := Schema.fits_iff short mem
  lines narrow diagnostic mem :=
    (Schema.fits_iff short mem).mpr fun place shown => Schema.column_le narrow mem shown
  command tree root extensions json paths files wellNamed through readable selects mem others := by
    rw [← fits_iff_isNarrow short, ← Option.ne_none_iff_isSome, Ne,
      selects.no_result_iff wellNamed through readable]
    constructor
    · intro hall
      by_contra hwide
      exact hall ⟨file, mem, hwide⟩
    · rintro hfits ⟨other, hother, hwide⟩
      by_cases hsame : other = file
      · exact hwide (hsame ▸ hfits)
      · exact hwide (others other hother hsame)

/-- The last column that can be shown. -/
theorem check_shown_last : Schema.IsShort (blanksAndMark 65535) ∧
    (SchemaFile.mk ⟨"/r/a.gdef"⟩ (blanksAndMark 65535)).Shown ∧
    (∃ diagnostic, (Schema.check ⟨"/r/a.gdef"⟩ (blanksAndMark 65535)).diagnostics = [diagnostic] ∧
      diagnostic.fits (blanksAndMark 65535) = true) ∧
    ((FileTree.wide 65535).validate ⟨"/r"⟩ ["gdef"] false [⟨"a.gdef"⟩]).isSome = true := by
  have hshort : Schema.IsShort (blanksAndMark 65535) := isShort_blanks (by decide)
  have hshown : (SchemaFile.mk ⟨"/r/a.gdef"⟩ (blanksAndMark 65535)).Shown := check_shown hshort
  obtain ⟨diagnostic, hdiagnostics, hpositions⟩ := Schema.check_blanks ⟨"/r/a.gdef"⟩ 65535
  have hcolumns : ∀ place ∈ diagnostic.positions, place.column ≤ Snippet.widest + 1 := by
    rw [hpositions]
    exact List.forall_mem_singleton.mpr (Nat.le_refl _)
  refine ⟨hshort, hshown, ⟨diagnostic, hdiagnostics, ?_⟩, ?_⟩
  · refine (hshown.columns diagnostic ?_).mpr hcolumns
    rw [hdiagnostics]
    exact List.mem_singleton.mpr rfl
  · refine (hshown.command _ _ _ _ _ _ (FileTree.wellNamed_wide _) (FileTree.walksThrough_wide _)
      (FileTree.readable_wide _) (FileTree.selects_wide _) (List.mem_singleton.mpr rfl) ?_).mpr ?_
    · exact List.forall_mem_singleton.mpr fun hother => absurd rfl hother
    · rw [IsNarrow, hdiagnostics]
      exact List.forall_mem_singleton.mpr hcolumns

/-- A place in the next column cannot be shown, and there is no summary. -/
theorem check_unshown : Schema.IsShort (blanksAndMark 65536) ∧
    ∃ diagnostic, (Schema.check default (blanksAndMark 65536)).diagnostics = [diagnostic] ∧
      (∃ snippet, Snippet.of? (blanksAndMark 65536) diagnostic.position = some snippet ∧
        Snippet.widest < snippet.offset) ∧
      diagnostic.fits (blanksAndMark 65536) = false ∧
      FileReport.summary? false 0 [report ⟨default, blanksAndMark 65536⟩] = none := by
  have hshort : Schema.IsShort (blanksAndMark 65536) := isShort_blanks (by decide)
  have hwide : ¬ (SchemaFile.mk default (blanksAndMark 65536)).Fits :=
    not_fits_blanks default (by decide)
  obtain ⟨diagnostic, hdiagnostics, hpositions⟩ := Schema.check_blanks default 65536
  have hmem : diagnostic ∈ (Schema.check default (blanksAndMark 65536)).diagnostics := by
    rw [hdiagnostics]
    exact List.mem_singleton.mpr rfl
  have hposition : diagnostic.position = ⟨65536, 1, 65537, default⟩ := (List.cons.inj hpositions).1
  refine ⟨hshort, diagnostic, hdiagnostics, ?_, ?_, ?_⟩
  · have hshown : diagnostic.position ∈ diagnostic.positions := List.mem_cons_self
    rcases Schema.snippet?_of_mem hmem hshown with ⟨snippet, before, behind, hsnippet, -⟩ |
      ⟨-, hcolumn⟩
    · refine ⟨snippet, hsnippet, ?_⟩
      rw [(Snippet.of?_eq_some hsnippet).2, hposition]
      decide
    · rw [hposition] at hcolumn
      cases hcolumn
  · rw [fits_iff_diagnostics, hdiagnostics] at hwide
    rw [Bool.eq_false_iff]
    exact fun hfits => hwide (List.forall_mem_singleton.mpr hfits)
  · exact summary?_eq_none_iff.mpr ⟨_, List.mem_singleton.mpr rfl, hwide⟩

end SchemaFile

end GraphSchema
