import GraphSchema.Proofs.Pointwise
import GraphSchema.Proofs.Validate.Trees

/-!
# Files that are selected

Walks from the same paths come to the same files, in different orders (`FileTree.Walks.reordered`).
So the files that are selected among them are the same too (`Selection.of_reordered`): those whose
extension is one of the given ones, or else the only file that was named (`FileTree.Chooses`).
-/

namespace GraphSchema

/-! ### Orders of a walk -/

/-- The same place, with the files under it in another order. -/
inductive Reached.Reordered : Reached → Reached → Prop where
  | file (found : FoundFile) : Reordered (.file found) (.file found)
  | directory {files others : List FoundFile} : files.Perm others →
      Reordered (.directory files) (.directory others)

theorem Reached.Reordered.files {a b : Reached} (h : a.Reordered b) : a.files.Perm b.files := by
  cases h with
  | file found => exact .refl _
  | directory perm => exact perm

namespace FileTree

variable {tree : FileTree} {root path : Path} {extensions : List String} {paths : List Path}

theorem Lists.perm {rows others : List (List String)} (h : tree.Lists rows)
    (hothers : tree.Lists others) : rows.Perm others :=
  (List.perm_ext_iff_of_nodup h.distinct hothers.distinct).mpr fun names =>
    (h.mem_iff names).trans (hothers.mem_iff names).symm

/-- Two walks from a path differ in the order of the files only. -/
theorem Walks.reordered {a b : Reached} (ha : tree.Walks root path a)
    (hb : tree.Walks root path b) : a.Reordered b := by
  cases ha with
  | file hlookup =>
    cases hb with
    | file hother =>
      obtain ⟨-, rfl⟩ := Prod.mk.inj (Except.ok.inj (hlookup.symm.trans hother))
      exact .file _
    | directory hother _ => cases hlookup.symm.trans hother
  | directory hlookup hrows =>
    cases hb with
    | file hother => cases hlookup.symm.trans hother
    | directory hother hothers =>
      obtain ⟨hentries, rfl⟩ := Prod.mk.inj (Except.ok.inj (hlookup.symm.trans hother))
      rw [FileTree.directory.inj hentries] at hrows
      exact .directory ((hrows.perm hothers).map _)

theorem Walks.exists_lookup {reached : Reached} (h : tree.Walks root path reached) :
    ∃ found, tree.lookup path = .ok found := by
  cases h with
  | file hlookup => exact ⟨_, hlookup⟩
  | directory hlookup _ => exact ⟨_, hlookup⟩

/-- Every file that a walk finds lies in the tree, at its location. -/
theorem Walks.leads {reached : Reached} (h : tree.Walks root path reached) {file : FoundFile}
    (mem : file ∈ reached.files) : ∃ names bytes, names ≠ [] ∧
      file.location = root.descend names ∧ tree.Leads names (.file bytes) := by
  have hnonempty {names : List String} {bytes : ByteArray} {found : FileTree × List String}
      (hlookup : tree.lookup path = .ok found) (hleads : tree.Leads names (.file bytes)) :
      names ≠ [] := by
    obtain ⟨-, entries, rfl⟩ := leads_of_lookup hlookup
    rintro rfl
    cases hleads
  cases h with
  | @file bytes names hlookup =>
    obtain rfl := List.mem_singleton.mp mem
    obtain ⟨hleads, -⟩ := leads_of_lookup hlookup
    exact ⟨names, bytes, hnonempty hlookup hleads, rfl, hleads⟩
  | @directory entries names rows hlookup hrows =>
    obtain ⟨row, hrow, rfl⟩ := List.mem_map.mp mem
    obtain ⟨hleads, -⟩ := leads_of_lookup hlookup
    obtain ⟨bytes, hrest⟩ := (hrows.mem_iff row).mp hrow
    have hwhole := hleads.append hrest
    exact ⟨names ++ row, bytes, hnonempty hlookup hwhole, (Path.descend_append ..).symm, hwhole⟩

/-! ### Selections -/

/-- The locations of the files that are selected: those whose extension is one of the given ones, as
often as a path reaches them, or the only path, if there are none and it is that of a file. -/
inductive Chooses (tree : FileTree) (root : Path) (extensions : List String) (paths : List Path) :
    List Path → Prop where
  | matching {found : List Reached} {files : List FoundFile} :
      List.Forall₂ (tree.Walks root) paths found →
      (found.flatMap Reached.files).filter
        (fun file => Extension.selects (Extension.normalized extensions) file.reached) = files →
      files ≠ [] → Chooses tree root extensions paths (files.map FoundFile.location)
  | named {path : Path} {only : FoundFile} : paths = [path] →
      tree.Walks root path (.file only) →
      Extension.selects (Extension.normalized extensions) only.reached = false →
      Chooses tree root extensions paths [only.location]

end FileTree

namespace Selection

variable {extensions : List String} {found others : List Reached}

/-- Files with one of the extensions are selected, and the others are passed over. -/
theorem of_matching {files : List FoundFile}
    (h : (found.flatMap Reached.files).filter
      (fun file => Extension.selects extensions file.reached) = files) (nonempty : files ≠ []) :
    Selection.of extensions found = .ok ⟨files.map FoundFile.location,
      ((found.flatMap Reached.files).filter
        fun file => !Extension.selects extensions file.reached).length⟩ := by
  simp only [Selection.of, List.partition_eq_filter_filter, h]
  split
  case h_1 => exact absurd rfl nonempty
  case h_2 => exact absurd rfl nonempty
  case h_3 => rfl

/-- Without such a file, the only file that was named is selected, if there is one. -/
theorem of_unmatched
    (h : (found.flatMap Reached.files).filter
      (fun file => Extension.selects extensions file.reached) = []) :
    (∃ only, found = [.file only] ∧ Selection.of extensions found = .ok ⟨[only.location], 0⟩) ∨
      (∀ only, found ≠ [.file only]) ∧ Selection.of extensions found = .error .noFiles := by
  simp only [Selection.of, List.partition_eq_filter_filter, h]
  split
  case h_1 only _ => exact .inl ⟨only, rfl, rfl⟩
  case h_2 hnot => exact .inr ⟨fun only hfound => hnot only hfound, rfl⟩
  case h_3 hnot _ => exact (hnot rfl).elim

theorem filter_reordered (h : List.Forall₂ Reached.Reordered found others)
    (select : FoundFile → Bool) :
    ((found.flatMap Reached.files).filter select).Perm
      ((others.flatMap Reached.files).filter select) := by
  refine List.Perm.filter _ ?_
  induction h with
  | nil => exact .refl _
  | cons first _ ih => exact first.files.append ih

theorem eq_of_reordered {only : FoundFile}
    (h : List.Forall₂ Reached.Reordered [.file only] others) : others = [.file only] := by
  cases h with
  | cons first rest =>
    cases first
    cases rest
    rfl

/-- The selection does not depend on the order of the walks, but for the order of the files. -/
theorem of_reordered (h : List.Forall₂ Reached.Reordered found others) :
    (∃ failure, Selection.of extensions found = .error failure ∧
      Selection.of extensions others = .error failure) ∨
    ∃ selection other, Selection.of extensions found = .ok selection ∧
      Selection.of extensions others = .ok other ∧ selection.paths.Perm other.paths ∧
      selection.skipped = other.skipped := by
  -- the same files match in both, so it is decided in the same way
  have hmatching := filter_reordered h fun file => Extension.selects extensions file.reached
  have hskipped := filter_reordered h fun file => !Extension.selects extensions file.reached
  cases hfiles : (found.flatMap Reached.files).filter
      fun file => Extension.selects extensions file.reached with
  | nil =>
    rw [hfiles] at hmatching
    have hothers := hmatching.symm.eq_nil
    rcases of_unmatched hfiles with ⟨only, rfl, hfound⟩ | ⟨hnot, hfound⟩
    · obtain rfl := eq_of_reordered h
      exact .inr ⟨_, _, hfound, hfound, .refl _, rfl⟩
    · rcases of_unmatched hothers with ⟨only, rfl, -⟩ | ⟨-, hother⟩
      · -- the other walks came to one file, so these did
        have hsymm : List.Forall₂ Reached.Reordered [.file only] found :=
          h.flip.imp fun a b hab => by
            cases hab with
            | file => exact .file _
            | directory perm => exact .directory perm.symm
        exact absurd (eq_of_reordered hsymm) (hnot only)
      · exact .inl ⟨_, hfound, hother⟩
  | cons file files =>
    rw [hfiles] at hmatching
    have hnonempty : (others.flatMap Reached.files).filter
        (fun file => Extension.selects extensions file.reached) ≠ [] := by
      intro hnil
      rw [hnil] at hmatching
      exact absurd hmatching.eq_nil (List.cons_ne_nil _ _)
    exact .inr ⟨_, _, of_matching hfiles (List.cons_ne_nil _ _), of_matching rfl hnonempty,
      hmatching.map _, hskipped.length_eq⟩

end Selection

namespace FileTree

variable {tree : FileTree} {root : Path} {extensions : List String} {paths locations : List Path}
  {found others : List Reached}

theorem reordered_of_walks (h : List.Forall₂ (tree.Walks root) paths found)
    (hothers : List.Forall₂ (tree.Walks root) paths others) :
    List.Forall₂ Reached.Reordered found others := by
  induction h generalizing others with
  | nil =>
    cases hothers
    exact .nil
  | cons first _ ih =>
    cases hothers with
    | cons other rest => exact .cons (first.reordered other) (ih rest)

/-- What is selected after the walks is among the choices that there are. -/
theorem chooses_of_selected {selection : Selection}
    (walks : List.Forall₂ (tree.Walks root) paths found)
    (h : Selection.of (Extension.normalized extensions) found = .ok selection) :
    tree.Chooses root extensions paths selection.paths := by
  cases hfiles : (found.flatMap Reached.files).filter
      fun file => Extension.selects (Extension.normalized extensions) file.reached with
  | nil =>
    rcases Selection.of_unmatched hfiles with ⟨only, rfl, hfound⟩ | ⟨-, hfound⟩
    · obtain rfl := Except.ok.inj (hfound.symm.trans h)
      cases walks with
      | cons walk rest =>
        cases rest
        refine .named rfl walk ?_
        simpa [Reached.files] using hfiles
    · cases hfound.symm.trans h
  | cons file files =>
    have hfound := Selection.of_matching hfiles (List.cons_ne_nil _ _)
    obtain rfl := Except.ok.inj (hfound.symm.trans h)
    exact .matching walks hfiles (List.cons_ne_nil _ _)

/-- Whatever can be chosen is selected after any walks, in some order. -/
theorem Chooses.selected (h : tree.Chooses root extensions paths locations)
    (walks : List.Forall₂ (tree.Walks root) paths found) :
    ∃ selection, Selection.of (Extension.normalized extensions) found = .ok selection ∧
      selection.paths.Perm locations := by
  have hselected : ∃ others selection, List.Forall₂ (tree.Walks root) paths others ∧
      Selection.of (Extension.normalized extensions) others = .ok selection ∧
      selection.paths = locations := by
    cases h with
    | matching hwalks hfiles hnonempty =>
      exact ⟨_, _, hwalks, Selection.of_matching hfiles hnonempty, rfl⟩
    | @named path only hpaths hwalk hselects =>
      obtain rfl := hpaths
      have hnone : ([Reached.file only].flatMap Reached.files).filter
          (fun file => Extension.selects (Extension.normalized extensions) file.reached) = [] := by
        simpa [Reached.files] using hselects
      rcases Selection.of_unmatched hnone with ⟨other, hother, hfound⟩ | ⟨hnot, -⟩
      · obtain rfl := Reached.file.inj (List.cons.inj hother).1
        exact ⟨_, _, .cons hwalk .nil, hfound, rfl⟩
      · exact absurd rfl (hnot only)
  -- these walks and those of the choice differ in their order only
  obtain ⟨others, selection, hwalks, hof, rfl⟩ := hselected
  rcases Selection.of_reordered (reordered_of_walks walks hwalks) with
    ⟨failure, -, hfailure⟩ | ⟨selected, other, hfound, hother, hperm, -⟩
  · cases hof.symm.trans hfailure
  · obtain rfl := Except.ok.inj (hof.symm.trans hother)
    exact ⟨selected, hfound, hperm⟩

theorem Chooses.exists_walks (h : tree.Chooses root extensions paths locations) :
    ∃ found, List.Forall₂ (tree.Walks root) paths found := by
  cases h with
  | matching hwalks _ _ => exact ⟨_, hwalks⟩
  | named hpaths hwalk _ =>
    obtain rfl := hpaths
    exact ⟨_, .cons hwalk .nil⟩

/-- The choices differ in the order of the files only. -/
theorem Chooses.perm {others : List Path} (h : tree.Chooses root extensions paths locations)
    (h' : tree.Chooses root extensions paths others) : locations.Perm others := by
  obtain ⟨found, hwalks⟩ := h.exists_walks
  obtain ⟨selection, hselection, hperm⟩ := h.selected hwalks
  obtain ⟨other, hother, hperm'⟩ := h'.selected hwalks
  obtain rfl := Except.ok.inj (hselection.symm.trans hother)
  exact hperm.symm.trans hperm'

theorem Chooses.nonempty (h : tree.Chooses root extensions paths locations) :
    locations ≠ [] := by
  cases h with
  | matching _ _ hnonempty => exact fun hnil => hnonempty (List.map_eq_nil_iff.mp hnil)
  | named _ _ _ => exact List.cons_ne_nil _ _

/-- Every selected file lies in the tree, at its location. -/
theorem Chooses.leads (h : tree.Chooses root extensions paths locations) {location : Path}
    (mem : location ∈ locations) : ∃ names bytes, names ≠ [] ∧ location = root.descend names ∧
      tree.Leads names (.file bytes) := by
  cases h with
  | @matching found files hwalks hfiles _ =>
    obtain ⟨file, hfile, rfl⟩ := List.mem_map.mp mem
    rw [← hfiles] at hfile
    obtain ⟨reached, hreached, hmem⟩ := List.mem_flatMap.mp (List.mem_filter.mp hfile).1
    obtain ⟨path, -, hwalk⟩ := exists_left_of_forall₂ hwalks hreached
    exact hwalk.leads hmem
  | named _ hwalk _ =>
    obtain rfl := List.mem_singleton.mp mem
    exact hwalk.leads List.mem_cons_self

end FileTree

end GraphSchema
