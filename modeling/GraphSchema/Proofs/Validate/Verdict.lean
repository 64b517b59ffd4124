import GraphSchema.Proofs.Validate.Runs

/-!
# The verdict on the selected files

The files that are selected, with their texts, are the same in all runs but for their order
(`FileTree.Selects`), and in the order of their paths the outcome follows from them
(`FileTree.Selects.validate_eq`): the command succeeds if all schemas are accepted; otherwise it
shows the details of those that are rejected, if there is room for them.
-/

namespace GraphSchema

/-- A file with its text. -/
structure SchemaFile where
  path : Path
  source : String

namespace SchemaFile

/-- What is reported on the file. -/
def report (file : SchemaFile) : FileReport :=
  .of file.path file.source

/-- What is wrong with the schema, if it is rejected. -/
def diagnostics? (file : SchemaFile) : Option (List Diagnostic) :=
  match (Schema.check file.path file.source).model with
  | .ok _ => none
  | .error diagnostics => some diagnostics

/-- The schema is accepted. -/
def IsAccepted (file : SchemaFile) : Prop :=
  ∃ model, (Schema.check file.path file.source).model = .ok model

/-- If the schema is rejected, there is room for every snippet of its diagnostics. -/
def Fits (file : SchemaFile) : Prop :=
  ∀ diagnostics, file.diagnostics? = some diagnostics →
    diagnostics.all (Diagnostic.fits file.source) = true

/-- The files stand in the order of their paths. -/
def InOrder (files : List SchemaFile) : Prop :=
  files.Pairwise fun a b => (compare a.path b.path).isLE = true

/-- The texts and diagnostics of the schemas that are rejected. -/
def rejections (files : List SchemaFile) : List (String × List Diagnostic) :=
  files.filterMap fun file => file.diagnostics?.map fun diagnostics => (file.source, diagnostics)

/-- What is shown if schemas are rejected: the details of each of them, and how many they are among
all files, with how many diagnostics. -/
def rejectionText (files : List SchemaFile) : String :=
  "\n".intercalate ((rejections files).map fun (source, diagnostics) =>
    Diagnostic.detailedAll source diagnostics) ++ "\n" ++
  s!"{failureMark} {(rejections files).length} of " ++ counted files.length "schema" ++
  " failed validation with " ++
  counted (total (fun rejection => rejection.2.length) (rejections files)) "diagnostic" ++ "."

/-- The exports of the schemas that are accepted. -/
def exports (files : List SchemaFile) : List String :=
  files.filterMap fun file =>
    (Schema.check file.path file.source).model.toOption.map fun model => model.json.pretty

variable {files : List SchemaFile} {json : Bool} {skipped : Nat}

theorem isAccepted_iff (file : SchemaFile) : file.IsAccepted ↔ file.diagnostics? = none := by
  unfold diagnostics? IsAccepted
  cases (Schema.check file.path file.source).model with
  | ok model => simp
  | error diagnostics => simp

/-! ### Summaries -/

theorem fits_report_iff (file : SchemaFile) : file.report.fits = true ↔ file.Fits := by
  unfold report Fits diagnostics? FileReport.of
  cases (Schema.check file.path file.source).model with
  | ok model => simp [FileReport.fits]
  | error diagnostics => simp [FileReport.fits]

theorem rejected?_reports (files : List SchemaFile) :
    (files.map report).filterMap FileReport.rejected? = rejections files := by
  rw [List.filterMap_map, rejections]
  refine List.filterMap_congr fun file _ => ?_
  show file.report.rejected? = _
  unfold report diagnostics? FileReport.of
  cases (Schema.check file.path file.source).model <;> rfl

theorem model?_reports (files : List SchemaFile) :
    ((files.map report).filterMap FileReport.model?).map (fun model => model.json.pretty) =
      exports files := by
  rw [List.filterMap_map, List.map_filterMap, exports]
  refine List.filterMap_congr fun file _ => ?_
  show (file.report.model?).map _ = _
  unfold report FileReport.of
  cases (Schema.check file.path file.source).model <;> rfl

theorem rejections_eq_nil_iff :
    rejections files = [] ↔ ∀ file ∈ files, file.IsAccepted := by
  rw [rejections, List.filterMap_eq_nil_iff]
  simp only [Option.map_eq_none_iff, isAccepted_iff]

/-- The summary shows a success if all schemas are accepted. -/
theorem summary_accepted (json : Bool) (skipped : Nat)
    (accepted : ∀ file ∈ files, file.IsAccepted) :
    ∃ text, FileReport.summary json skipped (files.map report) = ⟨true, some text, none⟩ ∧
      (json = true → text = "\n".intercalate (exports files)) := by
  unfold FileReport.summary
  rw [rejected?_reports, rejections_eq_nil_iff.mpr accepted]
  dsimp only
  rw [model?_reports]
  cases json with
  | true => exact ⟨_, rfl, fun _ => rfl⟩
  | false => exact ⟨_, rfl, nofun⟩

/-- The summary shows what is wrong if some schema is rejected. -/
theorem summary_rejected (rejected : ∃ file ∈ files, ¬ file.IsAccepted) :
    FileReport.summary json skipped (files.map report) =
      ⟨false, none, some (rejectionText files)⟩ := by
  have hsome : rejections files ≠ [] := by
    intro hnil
    obtain ⟨file, hfile, hnot⟩ := rejected
    exact hnot (rejections_eq_nil_iff.mp hnil file hfile)
  unfold FileReport.summary
  rw [rejected?_reports]
  split
  case h_1 hnil => exact absurd hnil hsome
  case h_2 => rw [List.length_map, rejectionText]

theorem summary?_eq_none_iff :
    FileReport.summary? json skipped (files.map report) = none ↔ ∃ file ∈ files, ¬ file.Fits := by
  unfold FileReport.summary?
  rw [List.all_map]
  simp [fits_report_iff]

theorem summary?_of_fits (fit : ∀ file ∈ files, file.Fits) :
    FileReport.summary? json skipped (files.map report) =
      some (FileReport.summary json skipped (files.map report)) := by
  unfold FileReport.summary?
  rw [if_pos]
  rw [List.all_map, List.all_eq_true]
  exact fun file hfile => (fits_report_iff file).mpr (fit file hfile)

/-- A schema that is accepted has nothing to be shown. -/
theorem IsAccepted.fits {file : SchemaFile} (h : file.IsAccepted) : file.Fits := by
  rw [isAccepted_iff] at h
  intro diagnostics hsome
  cases h.symm.trans hsome

/-- The summary is a success if and only if all schemas are accepted. -/
theorem summary?_success_iff :
    (∃ result, FileReport.summary? json skipped (files.map report) = some result ∧
      result.success = true) ↔ ∀ file ∈ files, file.IsAccepted := by
  constructor
  · rintro ⟨result, hresult, hsuccess⟩
    by_contra hnot
    have hrejected : ∃ file ∈ files, ¬ file.IsAccepted := by simpa using hnot
    unfold FileReport.summary? at hresult
    split at hresult
    · rw [summary_rejected hrejected] at hresult
      obtain rfl := Option.some.inj hresult
      cases hsuccess
    · cases hresult
  · intro haccepted
    obtain ⟨text, htext, -⟩ := summary_accepted json skipped haccepted
    rw [summary?_of_fits fun file hfile => (haccepted file hfile).fits, htext]
    exact ⟨_, rfl, rfl⟩

end SchemaFile

/-! ### Selected files -/

namespace FileTree

/-- A file of the tree whose root has the path `root`: its path leads to it, and its text is that of
its bytes. -/
def Holds (tree : FileTree) (root : Path) (file : SchemaFile) : Prop :=
  ∃ names bytes, names ≠ [] ∧ file.path = root.descend names ∧ tree.Leads names (.file bytes) ∧
    String.fromUTF8? bytes = some file.source

/-- The files that are selected, with their texts, in any order. -/
structure Selects (tree : FileTree) (root : Path) (extensions : List String) (paths : List Path)
    (files : List SchemaFile) : Prop where
  chosen : ∃ locations, tree.Chooses root extensions paths locations ∧
    (files.map SchemaFile.path).Perm locations
  held : ∀ file ∈ files, tree.Holds root file

variable {tree : FileTree} {root : Path} {extensions : List String} {json : Bool}
  {paths locations : List Path} {files : List SchemaFile}

theorem Holds.text? {file : SchemaFile} (wellNamed : tree.WellNamed) (h : tree.Holds root file)
    (readable : (tree.text? root file.path).isSome = true) :
    tree.text? root file.path = some file.source := by
  obtain ⟨names, bytes, hnonempty, hpath, hleads, hsource⟩ := h
  obtain ⟨source, htext⟩ := Option.isSome_iff_exists.mp readable
  rw [hpath] at htext ⊢
  rw [htext, ← wellNamed.fromUTF8?_of_text? hleads hnonempty htext, hsource]

/-- If the selected files can be read, they are files of the tree with their texts. -/
theorem Chooses.exists_files (wellNamed : tree.WellNamed)
    (h : tree.Chooses root extensions paths locations)
    (readable : ∀ location ∈ locations, (tree.text? root location).isSome = true) :
    ∃ files : List SchemaFile, files.map SchemaFile.path = locations ∧
      ∀ file ∈ files, tree.Holds root file := by
  refine ⟨locations.map fun location => ⟨location, (tree.text? root location).getD ""⟩, ?_, ?_⟩
  · rw [List.map_map]
    exact List.map_id _
  · intro file hfile
    obtain ⟨location, hlocation, rfl⟩ := List.mem_map.mp hfile
    obtain ⟨names, bytes, hnonempty, rfl, hleads⟩ := h.leads hlocation
    obtain ⟨source, htext⟩ := Option.isSome_iff_exists.mp (readable _ hlocation)
    refine ⟨names, bytes, hnonempty, rfl, hleads, ?_⟩
    rw [wellNamed.fromUTF8?_of_text? hleads hnonempty htext, htext, Option.getD_some]

theorem exists_inOrder (h : tree.Selects root extensions paths files) :
    ∃ ordered, tree.Selects root extensions paths ordered ∧ SchemaFile.InOrder ordered ∧
      ordered.Perm files := by
  have hperm := List.mergeSort_perm files fun a b => (compare a.path b.path).isLE
  obtain ⟨locations, hchosen, hlocations⟩ := h.chosen
  exact ⟨_, ⟨⟨locations, hchosen, (hperm.map _).trans hlocations⟩,
    fun file hfile => h.held file (hperm.mem_iff.mp hfile)⟩,
    pairwise_mergeSort_key SchemaFile.path files, hperm⟩

namespace Selects

variable (wellNamed : tree.WellNamed) (through : tree.WalksThrough root paths)
  (readable : tree.Readable root extensions paths)

theorem exists_of_selects (h : tree.Selects root extensions paths files) :
    ∀ path ∈ paths, ∃ found, tree.lookup path = .ok found := by
  obtain ⟨locations, hchosen, -⟩ := h.chosen
  obtain ⟨found, hwalks⟩ := hchosen.exists_walks
  exact exists_of_walks hwalks

theorem nonempty (h : tree.Selects root extensions paths files) : files ≠ [] := by
  obtain ⟨locations, hchosen, hperm⟩ := h.chosen
  rintro rfl
  exact hchosen.nonempty hperm.symm.eq_nil

include wellNamed readable in
/-- The reports on the selected files are those on their locations. -/
theorem map_report (h : tree.Selects root extensions paths files) :
    files.map SchemaFile.report = (files.map SchemaFile.path).map (tree.report root) := by
  obtain ⟨locations, hchosen, hperm⟩ := h.chosen
  rw [List.map_map]
  refine List.map_congr_left fun file hfile => ?_
  have htext := (h.held file hfile).text? wellNamed
    (readable locations hchosen _ (hperm.mem_iff.mp (List.mem_map_of_mem hfile)))
  show FileReport.of file.path file.source = FileReport.of file.path _
  rw [htext, Option.getD_some]

include wellNamed through readable in
/-- The outcome follows from the selected files in the order of their paths. -/
theorem validate_eq (json : Bool) (h : tree.Selects root extensions paths files)
    (ordered : SchemaFile.InOrder files) :
    ∃ skipped, tree.validate root extensions json paths =
      FileReport.summary? json skipped (files.map SchemaFile.report) := by
  obtain ⟨locations, hchosen, hperm⟩ := h.chosen
  obtain ⟨found, hfound, hwalks⟩ := exists_walkAll wellNamed through h.exists_of_selects
  obtain ⟨selection, hselection, hpaths⟩ := hchosen.selected hwalks
  have hown := chooses_of_selected hwalks hselection
  have hreports := reports_eq (readable _ hown)
  have hsorted : FileReport.sorted (files.map SchemaFile.report) = files.map SchemaFile.report := by
    refine List.mergeSort_of_pairwise (List.pairwise_map.mpr (ordered.imp fun {a b} hle => ?_))
    rwa [SchemaFile.report, SchemaFile.report, path_of, path_of]
  -- the reports arrive in another order, and sorting brings them into this one
  refine ⟨selection.skipped, ?_⟩
  rw [validate_summed hfound hselection hreports, ← hsorted]
  refine congrArg _ (hown.sorted_eq wellNamed (.refl _) ?_)
  rw [h.map_report wellNamed readable]
  exact (hperm.trans hpaths.symm).map _

include wellNamed through readable in
/-- There is no result if and only if some selected file does not fit. -/
theorem no_result_iff (h : tree.Selects root extensions paths files) :
    tree.validate root extensions json paths = none ↔ ∃ file ∈ files, ¬ file.Fits := by
  obtain ⟨ordered, hordered, hpairwise, hperm⟩ := exists_inOrder h
  obtain ⟨skipped, hvalidate⟩ := hordered.validate_eq wellNamed through readable json hpairwise
  rw [hvalidate, SchemaFile.summary?_eq_none_iff]
  simp only [hperm.mem_iff]

end Selects

/-- Either files are selected, or the command fails without having checked any. -/
theorem selects_or_failure (wellNamed : tree.WellNamed) (through : tree.WalksThrough root paths)
    (readable : tree.Readable root extensions paths) :
    (∃ files, tree.Selects root extensions paths files) ∨
      (∀ files, ¬ tree.Selects root extensions paths files) ∧
        ∃ failure : ValidateFailure,
          tree.validate root extensions json paths = some failure.result := by
  rcases exist_or_missing tree paths with hall | ⟨front, path, back, reason, rfl, hfront, hmissing⟩
  · obtain ⟨found, hfound, hwalks⟩ := exists_walkAll wellNamed through hall
    cases hselection : Selection.of (Extension.normalized extensions) found with
    | error failure =>
      refine .inr ⟨fun files h => ?_, failure, validate_unselected hfound hselection⟩
      obtain ⟨locations, hchosen, -⟩ := h.chosen
      obtain ⟨selection, hselected, -⟩ := hchosen.selected hwalks
      cases hselection.symm.trans hselected
    | ok selection =>
      have hchosen := chooses_of_selected hwalks hselection
      obtain ⟨files, hpaths, hheld⟩ := hchosen.exists_files wellNamed (readable _ hchosen)
      exact .inl ⟨files, ⟨⟨_, hchosen, .of_eq hpaths⟩, hheld⟩⟩
  · refine .inr ⟨fun files h => ?_, _, validate_unwalked (walkAll_error
      (fun other hother => through other (List.mem_append_left _ hother)) hfront hmissing)⟩
    -- the path that leads nowhere is not walked
    obtain ⟨found, hfound⟩ := h.exists_of_selects path
      (List.mem_append_right _ List.mem_cons_self)
    cases hmissing.symm.trans hfound

/-! ### A directory -/

/-- A directory with a schema that is accepted and one that is rejected. -/
def mixed : FileTree :=
  .directory [("b.gdef", .file "schema t query q Nope".toUTF8),
    ("a.gdef", .file "schema t query q Bool".toUTF8)]

theorem fromUTF8?_toUTF8 (text : String) : String.fromUTF8? text.toUTF8 = some text := by
  unfold String.fromUTF8?
  rw [String.toUTF8_eq_toByteArray, dif_pos text.isValidUTF8]
  rfl

theorem wellNamed_mixed : mixed.WellNamed :=
  .directory (by decide)
    (List.forall_mem_cons.mpr
      ⟨by decide +kernel, List.forall_mem_cons.mpr ⟨by decide +kernel, nofun⟩⟩)
    (List.forall_mem_cons.mpr ⟨.file, List.forall_mem_cons.mpr ⟨.file, nofun⟩⟩)

theorem walksThrough_mixed : mixed.WalksThrough ⟨"/r"⟩ [⟨"."⟩] := by
  intro path hpath found _
  obtain rfl := List.mem_singleton.mp hpath
  exact ⟨_, rfl⟩

/-- Both files are selected. -/
theorem chooses_mixed :
    mixed.Chooses ⟨"/r"⟩ ["gdef"] [⟨"."⟩] [⟨"/r/b.gdef"⟩, ⟨"/r/a.gdef"⟩] := by
  let files : List FoundFile := [⟨⟨"./b.gdef"⟩, ⟨"/r/b.gdef"⟩⟩, ⟨⟨"./a.gdef"⟩, ⟨"/r/a.gdef"⟩⟩]
  have hwalk : mixed.walk ⟨"/r"⟩ ⟨"."⟩ = .ok (.directory files) := rfl
  have hfiles : ([Reached.directory files].flatMap Reached.files).filter
      (fun file => Extension.selects (Extension.normalized ["gdef"]) file.reached) = files := by
    decide +kernel
  exact .matching (.cons (walks_of_walk wellNamed_mixed hwalk) .nil) hfiles (List.cons_ne_nil _ _)

theorem readable_mixed : mixed.Readable ⟨"/r"⟩ ["gdef"] [⟨"."⟩] := by
  have htext (text : String) : (String.fromUTF8? text.toUTF8).isSome = true := by
    rw [fromUTF8?_toUTF8, Option.isSome_some]
  exact readable_of_chooses chooses_mixed (List.forall_mem_cons.mpr ⟨htext "schema t query q Nope",
    List.forall_mem_cons.mpr ⟨htext "schema t query q Bool", nofun⟩⟩)

/-! ### Verdicts -/

/-- The verdict of the command is exact.  All runs come to it.  It is a success if and only if every
path leads somewhere, some file is selected, and all schemas that are selected are accepted.  If
some are rejected, it shows their details in the order of their paths and how many they are; only
where there is no room for one of their snippets the command ends without any result. -/
structure Verdict (tree : FileTree) (root : Path) (extensions : List String) (json : Bool)
    (paths : List Path) (outcome : Option CommandResult) : Prop where
  scheduled : ∀ other, tree.Runs root extensions json paths other ↔ other = outcome
  succeeds : (∃ result, outcome = some result ∧ result.success = true) ↔
    (∀ path ∈ paths, ∃ found, tree.lookup path = .ok found) ∧
      ∃ files, tree.Selects root extensions paths files ∧ files ≠ [] ∧
        ∀ file ∈ files, file.IsAccepted
  rejects : ∀ files, tree.Selects root extensions paths files → SchemaFile.InOrder files →
    (∃ file ∈ files, ¬ file.IsAccepted) → (∀ file ∈ files, file.Fits) →
      outcome = some ⟨false, none, some (SchemaFile.rejectionText files)⟩
  fits : outcome = none ↔
    ∃ files, tree.Selects root extensions paths files ∧ ∃ file ∈ files, ¬ file.Fits

/-- The command succeeds if and only if files are selected and all of them are accepted. -/
theorem validate_succeeds_iff (wellNamed : tree.WellNamed)
    (through : tree.WalksThrough root paths) (readable : tree.Readable root extensions paths) :
    (∃ result, tree.validate root extensions json paths = some result ∧ result.success = true) ↔
      ∃ files, tree.Selects root extensions paths files ∧ ∀ file ∈ files, file.IsAccepted := by
  constructor
  · rintro ⟨result, hresult, hsuccess⟩
    rcases selects_or_failure wellNamed through readable with ⟨files, hfiles⟩ | ⟨-, hnone⟩
    · obtain ⟨ordered, hordered, hpairwise, -⟩ := exists_inOrder hfiles
      obtain ⟨skipped, hvalidate⟩ := hordered.validate_eq wellNamed through readable json hpairwise
      rw [hvalidate] at hresult
      exact ⟨ordered, hordered, SchemaFile.summary?_success_iff.mp ⟨result, hresult, hsuccess⟩⟩
    · obtain ⟨failure, hfailure⟩ := hnone
      obtain rfl := Option.some.inj (hfailure.symm.trans hresult)
      cases hsuccess
  · rintro ⟨files, hfiles, haccepted⟩
    obtain ⟨ordered, hordered, hpairwise, hperm⟩ := exists_inOrder hfiles
    obtain ⟨skipped, hvalidate⟩ := hordered.validate_eq wellNamed through readable json hpairwise
    rw [hvalidate]
    exact SchemaFile.summary?_success_iff.mpr fun file hfile =>
      haccepted file (hperm.mem_iff.mp hfile)

/-- The command ends without a result if and only if some selected file does not fit. -/
theorem validate_eq_none_iff (wellNamed : tree.WellNamed)
    (through : tree.WalksThrough root paths) (readable : tree.Readable root extensions paths) :
    tree.validate root extensions json paths = none ↔
      ∃ files, tree.Selects root extensions paths files ∧ ∃ file ∈ files, ¬ file.Fits := by
  constructor
  · intro hnone
    rcases selects_or_failure wellNamed through readable with ⟨files, hfiles⟩ | ⟨-, hfailed⟩
    · exact ⟨files, hfiles, (hfiles.no_result_iff wellNamed through readable).mp hnone⟩
    · obtain ⟨failure, hfailure⟩ := hfailed
      cases hfailure.symm.trans hnone
  · rintro ⟨files, hfiles, hwide⟩
    exact (hfiles.no_result_iff wellNamed through readable).mpr hwide

/-- All runs come to one verdict, which is exact. -/
theorem validate_verdict (wellNamed : tree.WellNamed) (through : tree.WalksThrough root paths)
    (readable : tree.Readable root extensions paths) :
    tree.Verdict root extensions json paths (tree.validate root extensions json paths) where
  scheduled other := runs_iff wellNamed through readable
  succeeds := by
    rw [validate_succeeds_iff wellNamed through readable]
    constructor
    · rintro ⟨files, hfiles, haccepted⟩
      exact ⟨hfiles.exists_of_selects, files, hfiles, hfiles.nonempty, haccepted⟩
    · rintro ⟨-, files, hfiles, -, haccepted⟩
      exact ⟨files, hfiles, haccepted⟩
  rejects files hfiles hordered hrejected hfits := by
    obtain ⟨skipped, hvalidate⟩ := hfiles.validate_eq wellNamed through readable json hordered
    rw [hvalidate, SchemaFile.summary?_of_fits hfits, SchemaFile.summary_rejected hrejected]
  fits := validate_eq_none_iff wellNamed through readable

/-- A directory with an accepted and a rejected file has a verdict. -/
theorem validate_verdict_mixed :
    mixed.WellNamed ∧ mixed.WalksThrough ⟨"/r"⟩ [⟨"."⟩] ∧
      mixed.Readable ⟨"/r"⟩ ["gdef"] [⟨"."⟩] ∧
      mixed.Verdict ⟨"/r"⟩ ["gdef"] false [⟨"."⟩]
        (mixed.validate ⟨"/r"⟩ ["gdef"] false [⟨"."⟩]) :=
  ⟨wellNamed_mixed, walksThrough_mixed, readable_mixed,
    validate_verdict wellNamed_mixed walksThrough_mixed readable_mixed⟩

end FileTree

end GraphSchema
