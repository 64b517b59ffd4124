import GraphSchema.Proofs.Room
import GraphSchema.Proofs.Validate.Verdict

/-!
# A place too far to the right

Blanks in front of a character that starts no token put the error in a column as large as one likes
(`Schema.check_blanks`).  Where there is no room for the caret under it, the command has no result.
-/

namespace GraphSchema

/-- A number of blanks, and a character that starts no token. -/
def blanksAndMark (count : Nat) : String :=
  String.ofList (List.replicate count ' ' ++ ['!'])

variable {count : Nat}

theorem splitSpace_blanks (count : Nat) :
    splitSpace (List.replicate count ' ' ++ ['!']) = (List.replicate count ' ', ['!']) := by
  induction count with
  | zero => rfl
  | succ count ih => simp [List.replicate_succ, splitSpace, ih]

theorem Cursor.after_blanks (cursor : Cursor) (count : Nat) :
    cursor.after (List.replicate count ' ') =
      ⟨cursor.index + count, cursor.line, cursor.column + count, cursor.file⟩ := by
  induction count generalizing cursor with
  | zero => rfl
  | succ count ih =>
    have hstep : cursor.step ' ' =
        ⟨cursor.index + 1, cursor.line, cursor.column + 1, cursor.file⟩ := rfl
    rw [List.replicate_succ, Cursor.after_cons, ih, hstep]
    simp only [Cursor.mk.injEq, and_true, true_and]
    omega

theorem ofText_blanks (cursor : Cursor) (count : Nat) :
    (TokenStream.ofText cursor (List.replicate count ' ' ++ ['!'])).meaningful =
      ⟨[], .error ⟨.unexpectedCharacter '!', cursor.after (List.replicate count ' ')⟩⟩ := by
  have hmark (cursor : Cursor) : TokenStream.ofText cursor ['!'] =
      ⟨[], .error ⟨.unexpectedCharacter '!', cursor⟩⟩ := by
    unfold TokenStream.ofText
    rfl
  cases count with
  | zero =>
    rw [List.replicate_zero, List.nil_append, hmark]
    rfl
  | succ count =>
    have hsplit := splitSpace_blanks (count + 1)
    rw [List.replicate_succ, List.cons_append] at hsplit ⊢
    have hfront : Lexer.front (' ' :: (List.replicate count ' ' ++ ['!'])) =
        .token .space (' ' :: List.replicate count ' ') ['!'] := by
      unfold Lexer.front
      simp [hsplit, symbolKind?, isWordStart]
    unfold TokenStream.ofText
    split
    case h_1 heq => cases hfront.symm.trans heq
    case h_2 heq => cases hfront.symm.trans heq
    case h_3 heq =>
      obtain ⟨rfl, rfl, rfl⟩ := Lexer.Front.token.inj (hfront.symm.trans heq)
      dsimp only
      rw [hmark]
      rfl

/-- The error is in the column behind the blanks. -/
theorem Schema.check_blanks (file : Path) (count : Nat) :
    ∃ diagnostic, (Schema.check file (blanksAndMark count)).diagnostics = [diagnostic] ∧
      diagnostic.positions = [⟨count, 1, count + 1, file⟩] := by
  have hstream : (TokenStream.ofSource file (blanksAndMark count)).meaningful =
      ⟨[], .error ⟨.unexpectedCharacter '!', count, 1, count + 1, file⟩⟩ := by
    unfold TokenStream.ofSource blanksAndMark
    rw [String.toList_ofList, ofText_blanks, Cursor.after_blanks]
    simp [Cursor.startOf, Nat.add_comm]
  have hcheck : (Schema.check file (blanksAndMark count)).diagnostics =
      Diagnostic.ofProblems
        [.lexical ⟨.unexpectedCharacter '!', count, 1, count + 1, file⟩] := by
    unfold Schema.check
    rw [hstream]
    rfl
  rw [Diagnostic.ofProblems, Diagnostic.sorted, List.map_singleton, List.mergeSort_singleton]
    at hcheck
  exact ⟨_, hcheck, rfl⟩

/-- There is room for the snippets of a schema if there is for those of each diagnostic. -/
theorem SchemaFile.fits_iff_diagnostics (file : SchemaFile) : file.Fits ↔
    ∀ diagnostic ∈ (Schema.check file.path file.source).diagnostics,
      diagnostic.fits file.source = true := by
  unfold Fits diagnostics? Checked.diagnostics
  cases (Schema.check file.path file.source).model with
  | ok model => simp
  | error diagnostics => simp

/-- There is no room for its snippet if there are too many blanks. -/
theorem SchemaFile.not_fits_blanks (path : Path) (wide : Snippet.widest < count) :
    ¬ (SchemaFile.mk path (blanksAndMark count)).Fits := by
  obtain ⟨diagnostic, hdiagnostics, hpositions⟩ := Schema.check_blanks path count
  have hmem : diagnostic ∈ (Schema.check path (blanksAndMark count)).diagnostics := by
    rw [hdiagnostics]
    exact List.mem_singleton.mpr rfl
  have hshown : (⟨count, 1, count + 1, path⟩ : Cursor) ∈ diagnostic.positions := by
    rw [hpositions]
    exact List.mem_singleton.mpr rfl
  intro hfits
  have hfit := (fits_iff_diagnostics _).mp hfits diagnostic hmem
  have hcolumn : count + 1 ≤ Snippet.widest + 1 := Schema.column_le_of_fits hmem hfit hshown
  exact absurd wide (not_lt.mpr (Nat.le_of_succ_le_succ hcolumn))

namespace FileTree

/-- A directory with one file, whose schema is rejected. -/
def wide (count : Nat) : FileTree :=
  .directory [("a.gdef", .file (blanksAndMark count).toUTF8)]

theorem wellNamed_wide (count : Nat) : (wide count).WellNamed := by
  have hname : Path.IsEntryName "a.gdef" := by decide
  exact .directory (List.nodup_singleton _) (List.forall_mem_cons.mpr ⟨hname, nofun⟩)
    (List.forall_mem_cons.mpr ⟨.file, nofun⟩)

theorem lookup_wide (count : Nat) :
    (wide count).lookup ⟨"a.gdef"⟩ = .ok (.file (blanksAndMark count).toUTF8, ["a.gdef"]) := rfl

theorem walksThrough_wide (count : Nat) : (wide count).WalksThrough ⟨"/r"⟩ [⟨"a.gdef"⟩] := by
  intro path hpath found _
  obtain rfl := List.mem_singleton.mp hpath
  exact ⟨_, rfl⟩

/-- The file is selected, and nothing else. -/
theorem selects_wide (count : Nat) : (wide count).Selects ⟨"/r"⟩ ["gdef"] [⟨"a.gdef"⟩]
    [⟨⟨"/r/a.gdef"⟩, blanksAndMark count⟩] := by
  have hwalk : (wide count).Walks ⟨"/r"⟩ ⟨"a.gdef"⟩
      (.file ⟨⟨"a.gdef"⟩, ⟨"/r/a.gdef"⟩⟩) := .file (lookup_wide count)
  have hfiles : ([Reached.file ⟨⟨"a.gdef"⟩, ⟨"/r/a.gdef"⟩⟩].flatMap Reached.files).filter
      (fun file => Extension.selects (Extension.normalized ["gdef"]) file.reached) =
        [⟨⟨"a.gdef"⟩, ⟨"/r/a.gdef"⟩⟩] := by
    decide +kernel
  refine ⟨⟨_, .matching (.cons hwalk .nil) hfiles (List.cons_ne_nil _ _), .refl _⟩, ?_⟩
  exact List.forall_mem_cons.mpr ⟨⟨["a.gdef"], _, List.cons_ne_nil _ _, rfl,
    .entry List.mem_cons_self .here, fromUTF8?_toUTF8 _⟩, nofun⟩

theorem readable_wide (count : Nat) : (wide count).Readable ⟨"/r"⟩ ["gdef"] [⟨"a.gdef"⟩] := by
  obtain ⟨locations, hchosen, hpaths⟩ := (selects_wide count).chosen
  refine readable_of_chooses hchosen fun location hlocation => ?_
  obtain rfl := List.mem_singleton.mp (hpaths.mem_iff.mpr hlocation)
  have htext : (wide count).text? ⟨"/r"⟩ ⟨"/r/a.gdef"⟩ = some (blanksAndMark count) :=
    fromUTF8?_toUTF8 _
  rw [htext, Option.isSome_some]

/-- A rejected schema may leave the command without a result. -/
theorem validate_wide : (wide 65536).Selects ⟨"/r"⟩ ["gdef"] [⟨"a.gdef"⟩]
      [⟨⟨"/r/a.gdef"⟩, blanksAndMark 65536⟩] ∧
    ¬ (SchemaFile.mk ⟨"/r/a.gdef"⟩ (blanksAndMark 65536)).IsAccepted ∧
    (wide 65536).validate ⟨"/r"⟩ ["gdef"] false [⟨"a.gdef"⟩] = none := by
  have hwide : ¬ (SchemaFile.mk ⟨"/r/a.gdef"⟩ (blanksAndMark 65536)).Fits :=
    SchemaFile.not_fits_blanks _ (by decide)
  refine ⟨selects_wide _, fun haccepted => hwide haccepted.fits, ?_⟩
  exact (validate_eq_none_iff (wellNamed_wide _) (walksThrough_wide _) (readable_wide _)).mpr
    ⟨_, selects_wide _, _, List.mem_singleton.mpr rfl, hwide⟩

end FileTree

end GraphSchema
