import GraphSchema.Proofs.Validate.Paths
import GraphSchema.Validate.Report

/-!
# What lies in a file tree

A row of names leads from a directory to what lies under it (`FileTree.Leads`).  In a tree in which
no directory has two entries of one name (`FileTree.WellNamed`), a row leads to one place, and
following it in the tree finds that place.  What a path leads to lies in the tree
(`FileTree.leads_of_lookup`), a walk finds each file once (`FileTree.walks_of_walk`), and the text
at the path of a file is that of its bytes (`FileTree.fromUTF8?_of_text?`).
-/

namespace GraphSchema

namespace FileTree

/-! ### Rows of names -/

/-- A row of names leads from a tree to one under it. -/
inductive Leads : FileTree → List String → FileTree → Prop where
  | here {tree : FileTree} : Leads tree [] tree
  | entry {entries : List (String × FileTree)} {name : String} {inner found : FileTree}
      {names : List String} : (name, inner) ∈ entries → Leads inner names found →
      Leads (.directory entries) (name :: names) found

/-- The entries of every directory in the tree have names of entries, and no two of them have the
same one. -/
inductive WellNamed : FileTree → Prop where
  | file {bytes : ByteArray} : WellNamed (.file bytes)
  | directory {entries : List (String × FileTree)} (distinct : (entries.map Prod.fst).Nodup)
      (names : ∀ entry ∈ entries, Path.IsEntryName entry.1)
      (inner : ∀ entry ∈ entries, WellNamed entry.2) : WellNamed (.directory entries)

/-- The rows of names that lead to the files of a tree, in any order, each of them once. -/
structure Lists (tree : FileTree) (rows : List (List String)) : Prop where
  distinct : rows.Nodup
  mem_iff : ∀ names, names ∈ rows ↔ ∃ bytes, tree.Leads names (.file bytes)

variable {tree found : FileTree} {names : List String}

theorem Leads.append {middle : FileTree} {others : List String} (h : tree.Leads names middle)
    (rest : middle.Leads others found) : tree.Leads (names ++ others) found := by
  induction h with
  | here => exact rest
  | entry mem _ ih => exact .entry mem (ih rest)

theorem WellNamed.of_leads (h : tree.WellNamed) (leads : tree.Leads names found) :
    found.WellNamed ∧ ∀ name ∈ names, Path.IsEntryName name := by
  induction leads with
  | here => exact ⟨h, fun name hname => absurd hname List.not_mem_nil⟩
  | entry mem _ ih =>
    cases h with
    | directory _ hnames hinner =>
      obtain ⟨hfound, hrest⟩ := ih (hinner _ mem)
      exact ⟨hfound, List.forall_mem_cons.mpr ⟨hnames _ mem, hrest⟩⟩

/-- A directory has one entry of a name, and it is found. -/
theorem WellNamed.find_entry {entries : List (String × FileTree)}
    (h : (FileTree.directory entries).WellNamed) {name : String} {inner : FileTree}
    (mem : (name, inner) ∈ entries) :
    FileTree.entry? (.directory entries) name = some inner := by
  cases h with
  | directory hdistinct _ _ =>
    have hfound : (entries.find? fun entry => entry.1 == name) = some (name, inner) :=
      (find?_key_eq_some_iff hdistinct).mpr ⟨mem, rfl⟩
    show (entries.find? fun entry => entry.1 == name).map Prod.snd = some inner
    rw [hfound, Option.map_some]

/-! ### Following names -/

/-- Following a row of names from a tree finds what it leads to. -/
theorem WellNamed.follow (h : tree.WellNamed) (leads : tree.Leads names found)
    (above : List (FileTree × String)) :
    tree.follow above (names.map String.toList) =
      .ok (found, (above.map Prod.snd).reverse ++ names) := by
  -- by induction on the names, with the directories that have been passed
  induction leads generalizing above with
  | here => simp [FileTree.follow]
  | @entry entries name inner found names mem _ ih =>
    have hname := (h.of_leads (.entry mem .here)).2 name List.mem_cons_self
    have hinner := (h.of_leads (.entry mem .here)).1
    rw [List.map_cons]
    unfold FileTree.follow
    simp only [if_neg (not_or.mpr ⟨hname.nonempty, hname.current⟩), if_neg hname.parent,
      String.ofList_toList, h.find_entry mem]
    simp [ih hinner]

/-- The outer directories of a place: each holds the next one, or the place, as an entry. -/
inductive Above (tree : FileTree) : List (FileTree × String) → FileTree → Prop where
  | nil : Above tree [] tree
  | cons {above : List (FileTree × String)} {entries : List (String × FileTree)} {name : String}
      {inner : FileTree} : Above tree above (.directory entries) → (name, inner) ∈ entries →
      Above tree ((.directory entries, name) :: above) inner

theorem Above.leads {above : List (FileTree × String)} (h : tree.Above above found) :
    tree.Leads (above.map Prod.snd).reverse found := by
  induction h with
  | nil => exact .here
  | cons _ mem ih =>
    rw [List.map_cons, List.reverse_cons]
    exact ih.append (.entry mem .here)

/-- What segments lead to lies in the tree, and the names that come with it lead there. -/
theorem Above.follow {above : List (FileTree × String)} {inner : FileTree}
    (h : tree.Above above inner) {segments : List (List Char)}
    (follows : inner.follow above segments = .ok (found, names)) : tree.Leads names found := by
  induction segments generalizing above inner with
  | nil =>
    obtain ⟨rfl, rfl⟩ := Prod.mk.inj (Except.ok.inj follows)
    exact h.leads
  | cons segment segments ih =>
    cases inner with
    | file bytes => cases follows
    | directory entries =>
      unfold FileTree.follow at follows
      dsimp only at follows
      split at follows
      · exact ih h follows
      · split at follows
        · -- the outer directory, if there is one
          cases h with
          | nil => cases follows
          | cons houter _ => exact ih houter follows
        · split at follows
          case h_1 => cases follows
          case h_2 next hnext =>
            obtain ⟨entry, hentry, rfl⟩ := Option.map_eq_some_iff.mp hnext
            have hname : entry.1 = String.ofList segment := by
              simpa using List.find?_some hentry
            refine ih (.cons h ?_) follows
            rw [← hname]
            exact List.mem_of_find?_eq_some hentry

/-- What a path leads to lies in the tree, which is a directory. -/
theorem leads_of_lookup {path : Path} (h : tree.lookup path = .ok (found, names)) :
    tree.Leads names found ∧ ∃ entries, tree = .directory entries := by
  have hfollow {segments : List (List Char)} (nonempty : segments ≠ [])
      (follows : tree.follow [] segments = .ok (found, names)) :
      tree.Leads names found ∧ ∃ entries, tree = .directory entries := by
    refine ⟨Above.nil.follow follows, ?_⟩
    cases segments with
    | nil => exact absurd rfl nonempty
    | cons segment segments =>
      cases tree with
      | file bytes => cases follows
      | directory entries => exact ⟨entries, rfl⟩
  unfold lookup at h
  split at h
  case h_1 => cases h
  case h_2 =>
    split at h
    case h_1 => cases h
    case h_2 => exact hfollow (Text.segments_ne_nil _ _) h

/-! ### Texts -/

/-- The text at the path of a file is the text of its bytes. -/
theorem WellNamed.fromUTF8?_of_text? (h : tree.WellNamed) {root : Path} {bytes : ByteArray}
    {source : String} (leads : tree.Leads names (.file bytes)) (nonempty : names ≠ [])
    (text : tree.text? root (root.descend names) = some source) :
    String.fromUTF8? bytes = some source := by
  have hnames := (h.of_leads leads).2
  unfold text? at text
  rw [Path.under?_descend nonempty hnames, Option.bind_eq_bind, Option.bind_some] at text
  have hsegments : Text.segments '/' (['/'].intercalate (names.map String.toList)) =
      names.map String.toList := Path.segments_names nonempty hnames
  have hlookup : tree.lookup ⟨String.ofList (['/'].intercalate (names.map String.toList))⟩ =
      .ok (.file bytes, names) ∨
      ∃ reason, tree.lookup ⟨String.ofList (['/'].intercalate (names.map String.toList))⟩ =
        .error reason := by
    unfold lookup
    split
    case h_1 reason _ => exact .inr ⟨reason, rfl⟩
    case h_2 =>
      left
      rw [String.toList_ofList, hsegments]
      split
      case h_1 heq =>
        cases names with
        | nil => exact absurd rfl nonempty
        | cons name names =>
          exact absurd (List.cons.inj heq).1 (hnames name List.mem_cons_self).nonempty
      case h_2 => exact h.follow leads []
  rcases hlookup with hlookup | ⟨reason, hlookup⟩
  · rw [hlookup] at text
    exact text
  · rw [hlookup] at text
    cases text

end FileTree

/-! ### Walks -/

/-- The file to which a row of names leads, under a path that leads to a location. -/
def FoundFile.below (path location : Path) (names : List String) : FoundFile :=
  ⟨path.descend names, location.descend names⟩

namespace FileTree

variable {tree : FileTree}

/-- What a walk from a path may come to: the file at the path, or the files under it, each once and
in any order. -/
inductive Walks (tree : FileTree) (root path : Path) : Reached → Prop where
  | file {bytes : ByteArray} {names : List String} :
      tree.lookup path = .ok (.file bytes, names) →
      Walks tree root path (.file (.below path (root.descend names) []))
  | directory {entries : List (String × FileTree)} {names : List String}
      {rows : List (List String)} : tree.lookup path = .ok (.directory entries, names) →
      (FileTree.directory entries).Lists rows →
      Walks tree root path (.directory (rows.map (.below path (root.descend names))))

theorem lists_file (bytes : ByteArray) : (FileTree.file bytes).Lists [[]] := by
  refine ⟨List.nodup_singleton _, fun names => ?_⟩
  rw [List.mem_singleton]
  constructor
  · rintro rfl
    exact ⟨bytes, .here⟩
  · rintro ⟨_, hleads⟩
    cases hleads
    rfl

theorem lists_nil : (FileTree.directory []).Lists [] := by
  refine ⟨List.nodup_nil, fun names => ⟨fun hmem => absurd hmem List.not_mem_nil, ?_⟩⟩
  rintro ⟨bytes, hleads⟩
  cases hleads with
  | entry mem _ => cases mem

/-- The files of a directory are those of its first entry and those of the others. -/
theorem Lists.cons {name : String} {inner : FileTree} {entries : List (String × FileTree)}
    {rows others : List (List String)} (h : inner.Lists rows)
    (rest : (FileTree.directory entries).Lists others) (new : name ∉ entries.map Prod.fst) :
    (FileTree.directory ((name, inner) :: entries)).Lists (rows.map (name :: ·) ++ others) := by
  refine ⟨List.nodup_append.mpr ⟨?_, rest.distinct, ?_⟩, fun names => ?_⟩
  · exact h.distinct.map fun row other same => (List.cons.inj same).2
  · rintro row hrow other hother rfl
    obtain ⟨tail, -, rfl⟩ := List.mem_map.mp hrow
    obtain ⟨bytes, hleads⟩ := (rest.mem_iff _).mp hother
    cases hleads with
    | entry mem _ => exact new (List.mem_map_of_mem mem)
  · rw [List.mem_append, List.mem_map, rest.mem_iff]
    constructor
    · rintro (⟨row, hrow, rfl⟩ | ⟨bytes, hleads⟩)
      · obtain ⟨bytes, hleads⟩ := (h.mem_iff row).mp hrow
        exact ⟨bytes, .entry List.mem_cons_self hleads⟩
      · cases hleads with
        | entry mem hinner => exact ⟨bytes, .entry (List.mem_cons_of_mem _ mem) hinner⟩
    · rintro ⟨bytes, hleads⟩
      cases hleads with
      | entry mem hinner =>
        rcases List.mem_cons.mp mem with heq | mem
        · obtain ⟨rfl, rfl⟩ := Prod.mk.inj heq
          exact .inl ⟨_, (h.mem_iff _).mpr ⟨bytes, hinner⟩, rfl⟩
        · exact .inr ⟨bytes, .entry mem hinner⟩

mutual

/-- The files that a walk comes to in a tree are listed by the rows of names that lead to them. -/
theorem exists_lists (tree : FileTree) (wellNamed : tree.WellNamed) (path location : Path)
    (found : List FoundFile) (h : tree.files path location = .ok found) :
    ∃ rows, tree.Lists rows ∧ found = rows.map (.below path location) := by
  cases tree with
  | file bytes =>
    obtain rfl := Except.ok.inj h
    exact ⟨[[]], lists_file bytes, rfl⟩
  | directory entries =>
    rw [files] at h
    split at h
    case h_1 => cases h
    case h_2 => exact exists_lists_entries entries wellNamed path location found h

theorem exists_lists_entries (entries : List (String × FileTree))
    (wellNamed : (FileTree.directory entries).WellNamed) (path location : Path)
    (found : List FoundFile) (h : entriesFiles path location entries = .ok found) :
    ∃ rows, (FileTree.directory entries).Lists rows ∧
      found = rows.map (.below path location) := by
  cases entries with
  | nil =>
    obtain rfl := Except.ok.inj h
    exact ⟨[], lists_nil, rfl⟩
  | cons entry entries =>
    obtain ⟨name, inner⟩ := entry
    cases wellNamed with
    | directory hdistinct hnames hinner =>
      obtain ⟨hnew, hrest⟩ := List.nodup_cons.mp hdistinct
      rw [entriesFiles] at h
      cases hfirst : inner.files (path.join name) (location.join name) with
      | error failure =>
        rw [hfirst] at h
        cases h
      | ok first =>
        cases hothers : entriesFiles path location entries with
        | error failure =>
          rw [hfirst, hothers] at h
          cases h
        | ok others =>
          rw [hfirst, hothers] at h
          obtain rfl := Except.ok.inj h
          obtain ⟨rows, hrows, rfl⟩ :=
            exists_lists inner (hinner _ List.mem_cons_self) _ _ first hfirst
          obtain ⟨otherRows, hotherRows, rfl⟩ := exists_lists_entries entries
            (.directory hrest (fun entry hentry => hnames entry (List.mem_cons_of_mem _ hentry))
              fun entry hentry => hinner entry (List.mem_cons_of_mem _ hentry)) _ _ others hothers
          -- rows through this entry begin with its name, which no other entry has
          refine ⟨rows.map (name :: ·) ++ otherRows, hrows.cons hotherRows hnew, ?_⟩
          rw [List.map_append, List.map_map]
          rfl

end

/-- The walk in a tree is one of the walks that there may be. -/
theorem walks_of_walk (wellNamed : tree.WellNamed) {root path : Path} {reached : Reached}
    (h : tree.walk root path = .ok reached) : tree.Walks root path reached := by
  unfold walk at h
  split at h
  case h_1 => cases h
  case h_2 inner names hlookup =>
    dsimp only at h
    split at h
    case h_1 bytes =>
      obtain rfl := Except.ok.inj h
      exact .file hlookup
    case h_2 entries =>
      obtain ⟨hleads, -⟩ := leads_of_lookup hlookup
      -- the files below carry both their paths, as they are reached and where they lie
      cases hfiles : (FileTree.directory entries).files path (root.descend names) with
      | error failure =>
        unfold Path.descend at hfiles
        rw [hfiles] at h
        cases h
      | ok files =>
        obtain ⟨rows, hrows, hfound⟩ :=
          exists_lists _ (wellNamed.of_leads hleads).1 _ _ files hfiles
        unfold Path.descend at hfiles
        rw [hfiles] at h
        obtain rfl := Except.ok.inj h
        rw [hfound]
        exact .directory hlookup hrows

end FileTree

end GraphSchema
