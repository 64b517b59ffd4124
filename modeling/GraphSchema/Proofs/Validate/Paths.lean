import GraphSchema.Proofs.Sorting

/-!
# Paths of entries

A row of names leads from a directory to an entry at any depth; the path of the entry is that of the
directory with the names behind it (`Path.toList_descend`).  The segments of such a path end in the
names, so the names can be read off its components (`Path.exists_components`).  Hence two entries
whose paths compare as equal are one entry (`Path.descend_injective`).
-/

namespace GraphSchema

/-! ### Segments -/

namespace Text

variable {separator : Char}

/-- A text without the separator is one segment. -/
theorem segments_of_not_mem {text : List Char} (h : separator ∉ text) :
    segments separator text = [text] := by
  induction text with
  | nil => rfl
  | cons c text ih =>
    obtain ⟨hc, htext⟩ := List.ne_and_not_mem_of_not_mem_cons h
    rw [segments, if_neg (Ne.symm hc), ih htext]

/-- The segments in front of a separator come before those behind it. -/
theorem segments_append (front back : List Char) :
    segments separator (front ++ separator :: back) =
      segments separator front ++ segments separator back := by
  induction front with
  | nil => simp [segments]
  | cons c front ih =>
    rw [List.cons_append, segments, segments, ih]
    by_cases hc : c = separator
    · rw [if_pos hc, if_pos hc, List.cons_append]
    · rw [if_neg hc, if_neg hc]
      -- the character belongs to the first segment
      cases hfront : segments separator front with
      | nil => exact absurd hfront (segments_ne_nil separator front)
      | cons segment others => rfl

/-- Words with separators between them have the words as segments. -/
theorem segments_intercalate {words : List (List Char)} (nonempty : words ≠ [])
    (h : ∀ word ∈ words, separator ∉ word) :
    segments separator ([separator].intercalate words) = words := by
  induction words with
  | nil => exact absurd rfl nonempty
  | cons word words ih =>
    have hword := segments_of_not_mem (h word List.mem_cons_self)
    cases words with
    | nil => rw [List.intercalate_singleton, hword]
    | cons next words =>
      rw [List.intercalate_cons_cons, List.append_assoc, List.singleton_append, segments_append,
        hword, ih (List.cons_ne_nil _ _) fun other hother =>
          h other (List.mem_cons_of_mem _ hother)]
      rfl

end Text

/-! ### Comparing components -/

instance : Std.LawfulEqOrd PathComponent where
  eq_of_compare {a b} h := by
    have hcompare : (compare a.rank b.rank).then (compare a.label b.label) = .eq := h
    obtain ⟨hrank, hlabel⟩ := Ordering.then_eq_eq.mp hcompare
    have hrank := Std.LawfulEqCmp.eq_of_compare hrank
    have hlabel := Std.LawfulEqCmp.eq_of_compare hlabel
    cases a <;> cases b <;> simp_all [PathComponent.rank, PathComponent.label]
  compare_self := Std.ReflCmp.compare_self

namespace Path

/-- Paths compare as equal if and only if they have the same components. -/
theorem compare_eq_eq_iff {a b : Path} : compare a b = .eq ↔ a.components = b.components := by
  show compare a.components b.components = .eq ↔ _
  exact Std.LawfulEqCmp.compare_eq_iff_eq

/-! ### Names under a directory -/

/-- What the name of an entry of a directory may be. -/
structure IsEntryName (name : String) : Prop where
  nonempty : name.toList ≠ []
  slash : '/' ∉ name.toList
  current : name.toList ≠ ['.']
  parent : name.toList ≠ ['.', '.']

instance (name : String) : Decidable (IsEntryName name) :=
  decidable_of_iff (name.toList ≠ [] ∧ '/' ∉ name.toList ∧ name.toList ≠ ['.'] ∧
      name.toList ≠ ['.', '.'])
    ⟨fun ⟨nonempty, slash, current, parent⟩ => ⟨nonempty, slash, current, parent⟩,
      fun h => ⟨h.nonempty, h.slash, h.current, h.parent⟩⟩

/-- The path of the entry to which a row of names leads from a directory. -/
def descend (directory : Path) (names : List String) : Path :=
  names.foldl join directory

variable {directory : Path} {names others : List String}

theorem descend_append (directory : Path) (names others : List String) :
    directory.descend (names ++ others) = (directory.descend names).descend others :=
  List.foldl_append

/-- There is a slash in front of the names of entries, unless there is nothing. -/
theorem front_cases (directory : Path) :
    directory.front.toList = [] ∨ ∃ before, directory.front.toList = before ++ ['/'] := by
  unfold front
  split
  case isTrue h =>
    rcases Bool.or_eq_true_iff.mp h with hempty | hlast
    · left
      rw [String.isEmpty_iff.mp hempty]
      rfl
    · right
      have hslash : '/' ∈ directory.text.toList.getLast? := of_decide_eq_true hlast
      exact ⟨_, (List.dropLast_append_getLast? _ hslash).symm⟩
  case isFalse => exact .inr ⟨directory.text.toList, String.toList_append⟩

/-- A slash separates the name of a directory from what is in it. -/
theorem front_join (directory : Path) {name : String} (h : IsEntryName name) :
    (directory.join name).front.toList = directory.front.toList ++ name.toList ++ ['/'] := by
  have htext : (directory.join name).text.toList = directory.front.toList ++ name.toList :=
    String.toList_append
  have hlast : (directory.join name).text.toList.getLast? = name.toList.getLast? := by
    rw [htext, List.getLast?_append_of_ne_nil _ h.nonempty]
  have hslash : (directory.join name).text.toList.getLast? ≠ some '/' := by
    rw [hlast]
    exact fun hmem => h.slash (List.mem_of_getLast? hmem)
  have hempty : (directory.join name).text ≠ "" := by
    intro hnil
    rw [hnil] at htext
    exact h.nonempty (List.append_eq_nil_iff.mp htext.symm).2
  rw [front, if_neg (by simp [hslash, hempty]), String.toList_append, htext]
  rfl

/-- The path of an entry is that of the directory with the names behind it. -/
theorem toList_descend (nonempty : names ≠ []) (h : ∀ name ∈ names, IsEntryName name) :
    (directory.descend names).text.toList =
      directory.front.toList ++ ['/'].intercalate (names.map String.toList) := by
  induction names generalizing directory with
  | nil => exact absurd rfl nonempty
  | cons name names ih =>
    cases names with
    | nil => simp [descend, join]
    | cons next names =>
      show ((directory.join name).descend (next :: names)).text.toList = _
      rw [ih (List.cons_ne_nil _ _) fun other hother => h other (List.mem_cons_of_mem _ hother),
        front_join _ (h name List.mem_cons_self), List.map_cons, List.map_cons,
        List.map_cons, List.intercalate_cons_cons]
      simp

theorem under?_descend (nonempty : names ≠ []) (h : ∀ name ∈ names, IsEntryName name) :
    directory.under? (directory.descend names) =
      some ⟨String.ofList (['/'].intercalate (names.map String.toList))⟩ := by
  unfold under?
  rw [toList_descend nonempty h]
  simp

/-- Names are the segments of the text in which they are joined. -/
theorem segments_names (nonempty : names ≠ []) (h : ∀ name ∈ names, IsEntryName name) :
    Text.segments '/' (['/'].intercalate (names.map String.toList)) =
      names.map String.toList := by
  refine Text.segments_intercalate (by simpa using nonempty) fun word hword => ?_
  obtain ⟨name, hname, rfl⟩ := List.mem_map.mp hword
  exact (h name hname).slash

theorem component?_name {name : String} (h : IsEntryName name) :
    component? name.toList = some (.name name) := by
  rw [component?, if_neg (not_or.mpr ⟨h.nonempty, h.current⟩), if_neg h.parent,
    String.ofList_toList]

theorem filterMap_component? (h : ∀ name ∈ names, IsEntryName name) :
    (names.map String.toList).filterMap component? = names.map .name := by
  rw [List.filterMap_map, ← List.filterMap_eq_map]
  exact List.filterMap_congr fun name hname => component?_name (h name hname)

/-- What the first of some segments stands for does not depend on those behind the others. -/
theorem exists_components_of_segments (first : List Char) (others : List (List Char)) :
    ∃ base : List PathComponent, ∀ (path : Path) (rest : List (List Char)), rest ≠ [] →
      Text.segments '/' path.text.toList = first :: (others ++ rest) →
      path.components = base ++ rest.filterMap component? := by
  by_cases hroot : first = []
  · refine ⟨.root :: others.filterMap component?, fun path rest nonempty hsegments => ?_⟩
    rw [components, hsegments, hroot]
    cases hrest : others ++ rest with
    | nil => exact absurd (List.append_eq_nil_iff.mp hrest).2 nonempty
    | cons segment segments =>
      show PathComponent.root :: (segment :: segments).filterMap component? = _
      rw [← hrest, List.filterMap_append, List.cons_append]
  · by_cases hcurrent : first = ['.']
    · refine ⟨.current :: others.filterMap component?, fun path rest _ hsegments => ?_⟩
      rw [components, hsegments, hcurrent]
      show PathComponent.current :: (others ++ rest).filterMap component? = _
      rw [List.filterMap_append, List.cons_append]
    · refine ⟨(first :: others).filterMap component?, fun path rest _ hsegments => ?_⟩
      rw [components, hsegments]
      split
      case h_1 => exact absurd ‹_› (List.cons_ne_nil _ _)
      case h_2 heq => exact absurd (List.cons.inj heq).1 hroot
      case h_3 heq => exact absurd (List.cons.inj heq).1 hroot
      case h_4 heq => exact absurd (List.cons.inj heq).1 hcurrent
      case h_5 => rw [← List.cons_append, List.filterMap_append]

/-- The components of the path of an entry are those of the directory and the names. -/
theorem exists_components (directory : Path) : ∃ base : List PathComponent, ∀ names : List String,
    names ≠ [] → (∀ name ∈ names, IsEntryName name) →
      (directory.descend names).components = base ++ names.map .name := by
  rcases directory.front_cases with hfront | ⟨before, hfront⟩
  · refine ⟨[], fun names nonempty h => ?_⟩
    rw [components, toList_descend nonempty h, hfront, List.nil_append, segments_names nonempty h]
    have hcomponents := filterMap_component? h
    cases names with
    | nil => exact absurd rfl nonempty
    | cons name names =>
      have hname := h name List.mem_cons_self
      -- the first name is neither empty nor a dot
      rw [List.map_cons] at hcomponents ⊢
      split
      case h_1 => exact absurd ‹_› (List.cons_ne_nil _ _)
      case h_2 hsegments => exact absurd (List.cons.inj hsegments).1 hname.nonempty
      case h_3 hsegments => exact absurd (List.cons.inj hsegments).1 hname.nonempty
      case h_4 hsegments => exact absurd (List.cons.inj hsegments).1 hname.current
      case h_5 => rw [hcomponents, List.nil_append]
  · obtain ⟨first, others, hbefore⟩ :=
      List.exists_cons_of_ne_nil (Text.segments_ne_nil '/' before)
    obtain ⟨base, hbase⟩ := exists_components_of_segments first others
    refine ⟨base, fun names nonempty h => ?_⟩
    have hsegments : Text.segments '/' (directory.descend names).text.toList =
        first :: (others ++ names.map String.toList) := by
      rw [toList_descend nonempty h, hfront, List.append_assoc, List.singleton_append,
        Text.segments_append, segments_names nonempty h, hbefore, List.cons_append]
    rw [hbase _ _ (mt List.map_eq_nil_iff.mp nonempty) hsegments, filterMap_component? h]

/-- Rows of names that lead to paths which compare as equal are the same. -/
theorem descend_injective (nonempty : names ≠ []) (othersNonempty : others ≠ [])
    (h : ∀ name ∈ names, IsEntryName name) (hothers : ∀ name ∈ others, IsEntryName name)
    (same : compare (directory.descend names) (directory.descend others) = .eq) :
    names = others := by
  obtain ⟨base, hbase⟩ := directory.exists_components
  rw [compare_eq_eq_iff, hbase names nonempty h, hbase others othersNonempty hothers] at same
  refine List.map_injective_iff.mpr ?_ (List.append_cancel_left same)
  exact fun name other hname => PathComponent.name.inj hname

end Path

end GraphSchema
