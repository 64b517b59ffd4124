import GraphSchema.Proofs.Sorting
import GraphSchema.Proofs.Validate.Selecting

/-!
# Runs of the command

A walk may come to the files of a directory in any order, and the files that are selected may be
checked in any order (`FileTree.Runs`).  The reports are put in the order of their paths, in which
different files have different places, so all runs have the same outcome, which is that of
`FileTree.validate` (`FileTree.runs_iff`).
-/

namespace GraphSchema.FileTree

/-- What the command may come to.  The first path that leads nowhere ends it; otherwise the files
are found by walks and selected, their reports arrive in any order, and the first file whose text
cannot be read ends it, too. -/
inductive Runs (tree : FileTree) (root : Path) (extensions : List String) (json : Bool)
    (paths : List Path) : Option CommandResult → Prop where
  | unwalked {front back : List Path} {path : Path} {reason : PathError} :
      paths = front ++ path :: back → (∀ before ∈ front, ∃ found, tree.lookup before = .ok found) →
      tree.lookup path = .error reason →
      Runs tree root extensions json paths
        (some (ValidateFailure.walk path path reason.message).result)
  | unselected {found : List Reached} {failure : ValidateFailure} :
      List.Forall₂ (tree.Walks root) paths found →
      Selection.of (Extension.normalized extensions) found = .error failure →
      Runs tree root extensions json paths (some failure.result)
  | unread {found : List Reached} {selection : Selection} {path : Path} :
      List.Forall₂ (tree.Walks root) paths found →
      Selection.of (Extension.normalized extensions) found = .ok selection →
      path ∈ selection.paths → tree.text? root path = none →
      Runs tree root extensions json paths
        (some (ValidateFailure.unreadable path notText).result)
  | summed {found : List Reached} {selection : Selection} {reports arrived : List FileReport} :
      List.Forall₂ (tree.Walks root) paths found →
      Selection.of (Extension.normalized extensions) found = .ok selection →
      tree.reports root selection.paths = .ok reports → arrived.Perm reports →
      Runs tree root extensions json paths
        (FileReport.summary? json selection.skipped (FileReport.sorted arrived))

variable {tree : FileTree} {root : Path} {extensions : List String} {json : Bool}
  {paths locations : List Path}

/-! ### Walks -/

/-- No walk from a path that leads somewhere ends early. -/
def WalksThrough (tree : FileTree) (root : Path) (paths : List Path) : Prop :=
  ∀ path ∈ paths, ∀ found, tree.lookup path = .ok found →
    ∃ reached, tree.walk root path = .ok reached

theorem walkAll_nil : tree.walkAll root [] = .ok [] := rfl

theorem walkAll_cons (path : Path) (paths : List Path) :
    tree.walkAll root (path :: paths) =
      match tree.walk root path with
      | .error error => .error (.walk path error.place error.reason.message)
      | .ok reached => (reached :: ·) <$> tree.walkAll root paths := by
  rw [walkAll, walkAll, List.mapM_cons]
  cases tree.walk root path with
  | error error => rfl
  | ok reached => rfl

/-- The walks from paths that lead somewhere come to what lies there. -/
theorem exists_walkAll (wellNamed : tree.WellNamed) (through : tree.WalksThrough root paths)
    (exist : ∀ path ∈ paths, ∃ found, tree.lookup path = .ok found) :
    ∃ found, tree.walkAll root paths = .ok found ∧ List.Forall₂ (tree.Walks root) paths found := by
  induction paths with
  | nil => exact ⟨[], walkAll_nil, .nil⟩
  | cons path paths ih =>
    obtain ⟨inner, hinner⟩ := exist path List.mem_cons_self
    obtain ⟨reached, hreached⟩ := through path List.mem_cons_self inner hinner
    obtain ⟨found, hfound, hwalks⟩ :=
      ih (fun other hother => through other (List.mem_cons_of_mem _ hother))
        fun other hother => exist other (List.mem_cons_of_mem _ hother)
    refine ⟨reached :: found, ?_, .cons (walks_of_walk wellNamed hreached) hwalks⟩
    rw [walkAll_cons, hreached, hfound]
    rfl

/-- The first path that leads nowhere ends the walks. -/
theorem walkAll_error {front back : List Path} {path : Path} {reason : PathError}
    (through : tree.WalksThrough root front)
    (exist : ∀ before ∈ front, ∃ found, tree.lookup before = .ok found)
    (missing : tree.lookup path = .error reason) :
    tree.walkAll root (front ++ path :: back) = .error (.walk path path reason.message) := by
  induction front with
  | nil =>
    have hwalk : tree.walk root path = .error ⟨path, reason⟩ := by
      rw [walk, missing]
    rw [List.nil_append, walkAll_cons, hwalk]
  | cons before front ih =>
    obtain ⟨inner, hinner⟩ := exist before List.mem_cons_self
    obtain ⟨reached, hreached⟩ := through before List.mem_cons_self inner hinner
    rw [List.cons_append, walkAll_cons, hreached,
      ih (fun other hother => through other (List.mem_cons_of_mem _ hother))
        fun other hother => exist other (List.mem_cons_of_mem _ hother)]
    rfl

/-- Either all paths lead somewhere, or there is a first one that does not. -/
theorem exist_or_missing (tree : FileTree) (paths : List Path) :
    (∀ path ∈ paths, ∃ found, tree.lookup path = .ok found) ∨
      ∃ front path back reason, paths = front ++ path :: back ∧
        (∀ before ∈ front, ∃ found, tree.lookup before = .ok found) ∧
        tree.lookup path = .error reason := by
  induction paths with
  | nil => exact .inl fun path hpath => absurd hpath List.not_mem_nil
  | cons path paths ih =>
    cases hlookup : tree.lookup path with
    | error reason =>
      exact .inr ⟨[], path, paths, reason, rfl, fun _ h => absurd h List.not_mem_nil, hlookup⟩
    | ok found =>
      rcases ih with hall | ⟨front, other, back, reason, rfl, hfront, hother⟩
      · exact .inl (List.forall_mem_cons.mpr ⟨⟨found, hlookup⟩, hall⟩)
      · exact .inr ⟨path :: front, other, back, reason, rfl,
          List.forall_mem_cons.mpr ⟨⟨found, hlookup⟩, hfront⟩, hother⟩

/-! ### Reports -/

/-- The report on the file at a location. -/
def report (tree : FileTree) (root location : Path) : FileReport :=
  .of location ((tree.text? root location).getD "")

theorem path_of (path : Path) (source : String) : (FileReport.of path source).path = path := by
  unfold FileReport.of
  split <;> rfl

/-- Every file that can be read has a report. -/
theorem reports_eq (readable : ∀ location ∈ locations, (tree.text? root location).isSome = true) :
    tree.reports root locations = .ok (locations.map (tree.report root)) := by
  induction locations with
  | nil => rfl
  | cons location locations ih =>
    have hrest := ih fun other hother => readable other (List.mem_cons_of_mem _ hother)
    obtain ⟨source, hsource⟩ := Option.isSome_iff_exists.mp (readable location List.mem_cons_self)
    unfold reports at hrest ⊢
    rw [List.mapM_cons, hrest, hsource, List.map_cons, report, hsource]
    rfl

/-- Selected files whose locations compare as equal are the same. -/
theorem Chooses.eq_of_compare (wellNamed : tree.WellNamed)
    (h : tree.Chooses root extensions paths locations) {location other : Path}
    (mem : location ∈ locations) (mem' : other ∈ locations)
    (same : compare location other = .eq) : location = other := by
  obtain ⟨names, bytes, hnonempty, rfl, hleads⟩ := h.leads mem
  obtain ⟨others, _, hother, rfl, hotherLeads⟩ := h.leads mem'
  rw [Path.descend_injective hnonempty hother (wellNamed.of_leads hleads).2
    (wellNamed.of_leads hotherLeads).2 same]

/-- Reports on the selected files are in one order once they are sorted, however they arrived. -/
theorem Chooses.sorted_eq (wellNamed : tree.WellNamed)
    (h : tree.Chooses root extensions paths locations) {arrived others : List FileReport}
    (ha : arrived.Perm (locations.map (tree.report root)))
    (hb : others.Perm (locations.map (tree.report root))) :
    FileReport.sorted arrived = FileReport.sorted others := by
  have hfirst := (List.mergeSort_perm arrived
    fun a b => (compare a.path b.path).isLE).trans ha
  have hsecond := (List.mergeSort_perm others
    fun a b => (compare a.path b.path).isLE).trans hb
  -- two sorted rows of the same reports are equal if the order tells all of them apart
  refine List.Perm.eq_of_pairwise ?_ (pairwise_mergeSort_key FileReport.path arrived)
    (pairwise_mergeSort_key FileReport.path others) (hfirst.trans hsecond.symm)
  intro a b hmem hmem' hle hge
  obtain ⟨location, hlocation, rfl⟩ := List.mem_map.mp (hfirst.mem_iff.mp hmem)
  obtain ⟨other, hother, rfl⟩ := List.mem_map.mp (hsecond.mem_iff.mp hmem')
  -- no two of them have the same place in the order
  have hsame := Std.OrientedCmp.isLE_antisymm hle hge
  rw [report, report, path_of, path_of] at hsame
  rw [h.eq_of_compare wellNamed hlocation hother hsame]

/-! ### Runs -/

/-- All files that are selected can be read. -/
def Readable (tree : FileTree) (root : Path) (extensions : List String) (paths : List Path) :
    Prop :=
  ∀ locations, tree.Chooses root extensions paths locations →
    ∀ location ∈ locations, (tree.text? root location).isSome = true

theorem readable_of_chooses (h : tree.Chooses root extensions paths locations)
    (readable : ∀ location ∈ locations, (tree.text? root location).isSome = true) :
    tree.Readable root extensions paths :=
  fun _ hother location hlocation => readable location ((h.perm hother).mem_iff.mpr hlocation)

theorem validate_unwalked {failure : ValidateFailure}
    (h : tree.walkAll root paths = .error failure) :
    tree.validate root extensions json paths = some failure.result := by
  rw [validate, h]
  rfl

theorem validate_unselected {found : List Reached} {failure : ValidateFailure}
    (walked : tree.walkAll root paths = .ok found)
    (h : Selection.of (Extension.normalized extensions) found = .error failure) :
    tree.validate root extensions json paths = some failure.result := by
  simp only [validate, walked, h, bind, Except.bind]

theorem validate_summed {found : List Reached} {selection : Selection}
    {reports : List FileReport} (walked : tree.walkAll root paths = .ok found)
    (h : Selection.of (Extension.normalized extensions) found = .ok selection)
    (reported : tree.reports root selection.paths = .ok reports) :
    tree.validate root extensions json paths =
      FileReport.summary? json selection.skipped (FileReport.sorted reports) := by
  simp only [validate, walked, h, reported, bind, Except.bind, pure, Except.pure]

/-- The command comes to one of its runs. -/
theorem runs_validate (wellNamed : tree.WellNamed) (through : tree.WalksThrough root paths)
    (readable : tree.Readable root extensions paths) :
    tree.Runs root extensions json paths (tree.validate root extensions json paths) := by
  rcases exist_or_missing tree paths with hall | ⟨front, path, back, reason, rfl, hfront, hmissing⟩
  · obtain ⟨found, hfound, hwalks⟩ := exists_walkAll wellNamed through hall
    cases hselection : Selection.of (Extension.normalized extensions) found with
    | error failure =>
      rw [validate_unselected hfound hselection]
      exact .unselected hwalks hselection
    | ok selection =>
      have hreports := reports_eq (readable _ (chooses_of_selected hwalks hselection))
      rw [validate_summed hfound hselection hreports]
      exact .summed hwalks hselection hreports (.refl _)
  · rw [validate_unwalked (walkAll_error
      (fun other hother => through other (List.mem_append_left _ hother)) hfront hmissing)]
    exact .unwalked rfl hfront hmissing

theorem exists_of_walks {found : List Reached}
    (h : List.Forall₂ (tree.Walks root) paths found) :
    ∀ path ∈ paths, ∃ found, tree.lookup path = .ok found := by
  intro path hpath
  obtain ⟨reached, -, hwalk⟩ := exists_right_of_forall₂ h hpath
  exact hwalk.exists_lookup

/-- All runs come to what the command comes to. -/
theorem Runs.eq_validate (wellNamed : tree.WellNamed) (through : tree.WalksThrough root paths)
    (readable : tree.Readable root extensions paths) {outcome : Option CommandResult}
    (h : tree.Runs root extensions json paths outcome) :
    outcome = tree.validate root extensions json paths := by
  cases h with
  | unwalked hpaths hfront hmissing =>
    obtain rfl := hpaths
    exact (validate_unwalked (walkAll_error
      (fun other hother => through other (List.mem_append_left _ hother)) hfront hmissing)).symm
  | unselected hwalks hselection =>
    obtain ⟨found, hfound, hown⟩ := exists_walkAll wellNamed through (exists_of_walks hwalks)
    -- the walks of this run and those of the command select alike
    rcases Selection.of_reordered (reordered_of_walks hwalks hown) with
      ⟨failure, hfailure, hother⟩ | ⟨selection, other, hselected, -⟩
    · obtain rfl := Except.error.inj (hselection.symm.trans hfailure)
      exact (validate_unselected hfound hother).symm
    · cases hselection.symm.trans hselected
  | unread hwalks hselection hpath hnone =>
    -- no such file is selected
    have hsome := readable _ (chooses_of_selected hwalks hselection) _ hpath
    rw [hnone] at hsome
    cases hsome
  | summed hwalks hselection hreports hperm =>
    obtain ⟨found, hfound, hown⟩ := exists_walkAll wellNamed through (exists_of_walks hwalks)
    have hchosen := chooses_of_selected hwalks hselection
    rcases Selection.of_reordered (reordered_of_walks hwalks hown) with
      ⟨failure, hfailure, -⟩ | ⟨selection, other, hselected, hother, hpaths, hskipped⟩
    · cases hselection.symm.trans hfailure
    · obtain rfl := Except.ok.inj (hselection.symm.trans hselected)
      have hown := reports_eq (readable _ (chooses_of_selected hown hother))
      have hall := reports_eq (readable _ hchosen)
      obtain rfl := Except.ok.inj (hall.symm.trans hreports)
      rw [validate_summed hfound hother hown, hskipped,
        hchosen.sorted_eq wellNamed hperm (hpaths.symm.map _)]

/-- The runs of the command are those that come to what it comes to. -/
theorem runs_iff (wellNamed : tree.WellNamed) (through : tree.WalksThrough root paths)
    (readable : tree.Readable root extensions paths) {outcome : Option CommandResult} :
    tree.Runs root extensions json paths outcome ↔
      outcome = tree.validate root extensions json paths := by
  refine ⟨fun h => h.eq_validate wellNamed through readable, ?_⟩
  rintro rfl
  exact runs_validate wellNamed through readable

end GraphSchema.FileTree
