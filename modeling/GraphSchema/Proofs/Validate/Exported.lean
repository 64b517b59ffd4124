import GraphSchema.Proofs.Validate.Verdict

/-!
# Exports of the selected schemas

If the command is asked for JSON, it shows the exports of all schemas, in the order of the paths of
their files, provided that all of them are accepted.  One that is rejected keeps the exports of the
others from being shown (`FileTree.Runs.shows_exports`).
-/

namespace GraphSchema

namespace SchemaFile

/-- A summary that is not a success shows no exports. -/
theorem stdout_of_rejected {files : List SchemaFile} {json : Bool} {skipped : Nat}
    {result : CommandResult} (rejected : ∃ file ∈ files, ¬ file.IsAccepted)
    (h : FileReport.summary? json skipped (files.map report) = some result) :
    result.stdout = none := by
  unfold FileReport.summary? at h
  split at h
  · rw [summary_rejected rejected] at h
    obtain rfl := Option.some.inj h
    rfl
  · cases h

end SchemaFile

namespace FileTree

variable {tree : FileTree} {root : Path} {extensions : List String} {paths : List Path}
  {files : List SchemaFile} {outcome : Option CommandResult}

/-- Every run that is asked for JSON shows the exports of all selected schemas in the order of their
paths if they are all accepted, and no exports otherwise. -/
theorem Runs.shows_exports (wellNamed : tree.WellNamed) (through : tree.WalksThrough root paths)
    (readable : tree.Readable root extensions paths)
    (selected : tree.Selects root extensions paths files) (ordered : SchemaFile.InOrder files)
    (run : tree.Runs root extensions true paths outcome) :
    ((∀ file ∈ files, file.IsAccepted) →
      outcome = some ⟨true, some ("\n".intercalate (SchemaFile.exports files)), none⟩) ∧
    ((∃ file ∈ files, ¬ file.IsAccepted) →
      ∀ result, outcome = some result → result.stdout = none) := by
  obtain ⟨skipped, hvalidate⟩ := selected.validate_eq wellNamed through readable true ordered
  rw [run.eq_validate wellNamed through readable, hvalidate]
  refine ⟨fun haccepted => ?_, fun hrejected result => SchemaFile.stdout_of_rejected hrejected⟩
  obtain ⟨text, hsummary, htext⟩ := SchemaFile.summary_accepted true skipped haccepted
  rw [SchemaFile.summary?_of_fits fun file hfile => (haccepted file hfile).fits, hsummary,
    htext rfl]

/-! ### A directory with both -/

/-- The files of the directory in the order of their paths. -/
def mixedFiles : List SchemaFile :=
  [⟨⟨"/r/a.gdef"⟩, "schema t query q Bool"⟩, ⟨⟨"/r/b.gdef"⟩, "schema t query q Nope"⟩]

theorem selects_mixed : mixed.Selects ⟨"/r"⟩ ["gdef"] [⟨"."⟩] mixedFiles := by
  refine ⟨⟨_, chooses_mixed, .swap _ _ _⟩, List.forall_mem_cons.mpr ⟨?_, ?_⟩⟩
  · exact ⟨["a.gdef"], _, List.cons_ne_nil _ _, rfl,
      .entry (List.mem_cons_of_mem _ List.mem_cons_self) .here, fromUTF8?_toUTF8 _⟩
  · refine List.forall_mem_cons.mpr ⟨?_, nofun⟩
    exact ⟨["b.gdef"], _, List.cons_ne_nil _ _, rfl, .entry List.mem_cons_self .here,
      fromUTF8?_toUTF8 _⟩

theorem inOrder_mixed : SchemaFile.InOrder mixedFiles := by
  unfold SchemaFile.InOrder mixedFiles
  decide +kernel

/-- A directory with an accepted and a rejected file: one rejection is enough for nothing to be
exported. -/
theorem Runs.shows_exports_mixed :
    mixed.WellNamed ∧ mixed.WalksThrough ⟨"/r"⟩ [⟨"."⟩] ∧
      mixed.Readable ⟨"/r"⟩ ["gdef"] [⟨"."⟩] ∧
      mixed.Selects ⟨"/r"⟩ ["gdef"] [⟨"."⟩] mixedFiles ∧ SchemaFile.InOrder mixedFiles ∧
      mixed.Runs ⟨"/r"⟩ ["gdef"] true [⟨"."⟩] (mixed.validate ⟨"/r"⟩ ["gdef"] true [⟨"."⟩]) ∧
      ((∃ file ∈ mixedFiles, ¬ file.IsAccepted) → ∀ result,
        mixed.validate ⟨"/r"⟩ ["gdef"] true [⟨"."⟩] = some result → result.stdout = none) :=
  have hrun := runs_validate wellNamed_mixed walksThrough_mixed readable_mixed
  ⟨wellNamed_mixed, walksThrough_mixed, readable_mixed, selects_mixed, inOrder_mixed, hrun,
    (Runs.shows_exports wellNamed_mixed walksThrough_mixed readable_mixed selects_mixed
      inOrder_mixed hrun).2⟩

/-- The first of them is accepted; the second one is not, and there is room for its snippets. -/
theorem checked_mixed :
    (∃ model, (Schema.check ⟨"/r/a.gdef"⟩ "schema t query q Bool").model = .ok model) ∧
      ∃ diagnostics, (SchemaFile.mk ⟨"/r/b.gdef"⟩ "schema t query q Nope").diagnostics? =
        some diagnostics ∧ diagnostics.all (Diagnostic.fits "schema t query q Nope") = true := by
  have haccepted :
      (Schema.check ⟨"/r/a.gdef"⟩ "schema t query q Bool").model.toOption.isSome = true := by
    decide +kernel
  have hrejected : (SchemaFile.mk ⟨"/r/b.gdef"⟩ "schema t query q Nope").diagnostics?.map
      (fun diagnostics => diagnostics.all (Diagnostic.fits "schema t query q Nope")) =
        some true := by
    decide +kernel
  refine ⟨?_, Option.map_eq_some_iff.mp hrejected⟩
  cases hcheck : (Schema.check ⟨"/r/a.gdef"⟩ "schema t query q Bool").model with
  | ok model => exact ⟨model, rfl⟩
  | error diagnostics =>
    rw [hcheck] at haccepted
    cases haccepted

/-- The export of the schema that is accepted is not shown. -/
theorem mixed_exports_dropped :
    mixed.Selects ⟨"/r"⟩ ["gdef"] [⟨"."⟩] mixedFiles ∧ SchemaFile.InOrder mixedFiles ∧
      SchemaFile.exports mixedFiles ≠ [] ∧
      ∃ result, mixed.validate ⟨"/r"⟩ ["gdef"] true [⟨"."⟩] = some result ∧
        result.stdout = none := by
  obtain ⟨⟨model, hmodel⟩, diagnostics, hdiagnostics, hroom⟩ := checked_mixed
  have hrejected : ∃ file ∈ mixedFiles, ¬ file.IsAccepted := by
    refine ⟨_, List.mem_cons_of_mem _ List.mem_cons_self, fun h => ?_⟩
    rw [SchemaFile.isAccepted_iff, hdiagnostics] at h
    cases h
  have hfits : ∀ file ∈ mixedFiles, file.Fits := by
    refine List.forall_mem_cons.mpr
      ⟨SchemaFile.IsAccepted.fits ⟨model, hmodel⟩, List.forall_mem_cons.mpr ⟨?_, nofun⟩⟩
    intro others hothers
    obtain rfl := Option.some.inj (hdiagnostics.symm.trans hothers)
    exact hroom
  obtain ⟨skipped, hvalidate⟩ := selects_mixed.validate_eq wellNamed_mixed
    walksThrough_mixed readable_mixed true inOrder_mixed
  refine ⟨selects_mixed, inOrder_mixed, ?_,
    FileReport.summary true skipped (mixedFiles.map SchemaFile.report), ?_, ?_⟩
  · rw [SchemaFile.exports, mixedFiles, List.filterMap_cons, hmodel]
    exact List.cons_ne_nil _ _
  · exact hvalidate.trans (SchemaFile.summary?_of_fits hfits)
  · rw [SchemaFile.summary_rejected hrejected]

end FileTree

end GraphSchema
