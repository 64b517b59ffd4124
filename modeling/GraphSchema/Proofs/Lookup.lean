import GraphSchema.Distinct
import Mathlib.Data.List.Induction
import Mathlib.Data.List.Nodup
import Mathlib.Data.List.Pairwise

/-!
# Looking up by a key

If the keys of the entries of a list are distinct, looking up a key finds the entry with that key.
The first entry that satisfies a condition splits the list (`exists_first`), and so does a row of
entries that are selected one after the other (`exists_segment`).  The keys are distinct if and only
if nothing is repeated, in which case all entries are the first of their key.
-/

namespace GraphSchema

section

variable {α κ : Type}

/-- Looking up a key finds the entry with that key. -/
theorem find?_key_eq_some_iff [BEq κ] [LawfulBEq κ] {key : α → κ} {entries : List α}
    (distinct : (entries.map key).Nodup) {sought : κ} {entry : α} :
    entries.find? (fun other => key other == sought) = some entry ↔
      entry ∈ entries ∧ key entry = sought := by
  constructor
  · intro h
    exact ⟨List.mem_of_find?_eq_some h, by simpa using List.find?_some h⟩
  · rintro ⟨hmem, rfl⟩
    induction entries with
    | nil => cases hmem
    | cons first rest ih =>
      obtain ⟨hfirst, hrest⟩ := List.nodup_cons.mp distinct
      by_cases hkey : key first = key entry
      · -- the key is found at once, and no other entry has it
        rcases List.mem_cons.mp hmem with rfl | hmem
        · exact List.find?_cons_of_pos (beq_self_eq_true _)
        · exact absurd (List.mem_map.mpr ⟨entry, hmem, hkey.symm⟩) hfirst
      · rcases List.mem_cons.mp hmem with rfl | hmem
        · exact absurd rfl hkey
        · rw [List.find?_cons_of_neg (by simpa using hkey)]
          exact ih hrest hmem

/-- Looking up a key in a table finds the value that stands beside it. -/
theorem lookup_eq_some_iff [BEq κ] [LawfulBEq κ] {β : Type} {entries : List (κ × β)}
    (distinct : (entries.map Prod.fst).Nodup) {sought : κ} {value : β} :
    entries.lookup sought = some value ↔ (sought, value) ∈ entries := by
  induction entries with
  | nil => exact ⟨nofun, nofun⟩
  | cons entry entries ih =>
    obtain ⟨key, first⟩ := entry
    obtain ⟨hfirst, hrest⟩ := List.nodup_cons.mp distinct
    rw [List.lookup_cons, List.mem_cons, Prod.mk.injEq]
    by_cases hkey : sought = key
    · -- no other entry has the key
      have hnot : (key, value) ∉ entries :=
        fun hmem => hfirst (List.mem_map.mpr ⟨_, hmem, rfl⟩)
      simp [hkey, hnot, eq_comm]
    · rw [beq_false_of_ne hkey, ← ih hrest]
      simp [hkey]

/-- Looking up a key in a table made of entries finds what the first entry with that key has. -/
theorem lookup_map_eq [BEq κ] [LawfulBEq κ] {β : Type} (key : α → κ) (value : α → β)
    (entries : List α) (sought : κ) :
    (entries.map fun entry => (key entry, value entry)).lookup sought =
      (entries.find? fun entry => key entry == sought).map value := by
  induction entries with
  | nil => rfl
  | cons entry entries ih =>
    rw [List.map_cons, List.lookup_cons, List.find?_cons, BEq.comm]
    cases key entry == sought with
    | true => rfl
    | false => exact ih

/-- Two entries with the same key are the same. -/
theorem eq_of_key_eq {key : α → κ} {entries : List α} (distinct : (entries.map key).Nodup)
    {entry other : α} (hentry : entry ∈ entries) (hother : other ∈ entries)
    (hkey : key entry = key other) : entry = other :=
  List.inj_on_of_nodup_map distinct hentry hother hkey

/-- In blocks with distinct keys an entry is known by its key, and so is the block it is in. -/
theorem eq_of_flatMap_key_eq {β : Type} {key : β → κ} {entries : α → List β} {blocks : List α}
    (distinct : (blocks.flatMap fun block => (entries block).map key).Nodup) {block other : α}
    (hblock : block ∈ blocks) (hother : other ∈ blocks) {entry again : β}
    (hentry : entry ∈ entries block) (hagain : again ∈ entries other)
    (hkey : key entry = key again) : block = other ∧ entry = again := by
  obtain ⟨hnodup, hpairwise⟩ := List.nodup_flatMap.mp distinct
  have hmem : key entry ∈ (entries other).map key := by
    rw [hkey]
    exact List.mem_map_of_mem hagain
  have hsame : block = other := by
    have hsymm : Std.Symm
        (Function.onFun List.Disjoint fun block => (entries block).map key) :=
      ⟨fun _ _ hdisjoint _ hleft hright => hdisjoint hright hleft⟩
    by_contra hne
    exact hpairwise.forall hblock hother hne (List.mem_map_of_mem hentry) hmem
  subst hsame
  exact ⟨rfl, eq_of_key_eq (hnodup block hblock) hentry hagain hkey⟩

/-- Entries that are numbered in a row stand in the order of their numbers. -/
theorem ascending_of_numbered {id : α → κ} {number : κ → Nat} {numbered : Nat → κ}
    (numbers : ∀ n, number (numbered n) = n) {entries : List α} {first count : Nat}
    (h : entries.map id = (List.range' first count).map numbered) :
    entries.Pairwise fun a b => number (id a) < number (id b) := by
  have hrow := congrArg (List.map number) h
  rw [List.map_map, List.map_map, (funext numbers : number ∘ numbered = fun n => n),
    List.map_id'] at hrow
  have hascending : (entries.map (number ∘ id)).Pairwise (· < ·) := by
    rw [hrow]
    exact List.pairwise_lt_range'
  exact List.pairwise_map.mp hascending

/-- Entries that are sorted by a key stand in the order of their keys. -/
theorem pairwise_mergeSort_key [Ord κ] [Std.TransOrd κ] (key : α → κ) (entries : List α) :
    (entries.mergeSort fun a b => (compare (key a) (key b)).isLE).Pairwise
      fun a b => (compare (key a) (key b)).isLE = true := by
  refine List.pairwise_mergeSort (fun _ _ _ => Std.TransCmp.isLE_trans) ?_ entries
  intro a b
  have hswap : compare (key b) (key a) = (compare (key a) (key b)).swap :=
    Std.OrientedCmp.eq_swap
  rw [hswap]
  cases compare (key a) (key b) <;> rfl

/-- The first entry of a list that satisfies a condition, and what stands before it. -/
theorem exists_first {select : α → Bool} {entries : List α}
    (h : ∃ entry ∈ entries, select entry = true) :
    ∃ before entry after, entries = before ++ entry :: after ∧ select entry = true ∧
      (entries.takeWhile fun entry => !select entry) = before := by
  induction entries with
  | nil =>
    obtain ⟨entry, hentry, -⟩ := h
    cases hentry
  | cons first rest ih =>
    by_cases hfirst : select first = true
    · exact ⟨[], first, rest, rfl, hfirst, by simp [hfirst]⟩
    · have hrest : ∃ entry ∈ rest, select entry = true := by
        obtain ⟨entry, hentry, hselect⟩ := h
        rcases List.mem_cons.mp hentry with rfl | hentry
        · exact absurd hselect hfirst
        · exact ⟨entry, hentry, hselect⟩
      obtain ⟨before, entry, after, hsplit, hselect, hbefore⟩ := ih hrest
      refine ⟨first :: before, entry, after, by rw [hsplit, List.cons_append], hselect, ?_⟩
      rw [List.takeWhile_cons_of_pos (by simpa using hfirst), hbefore]

/-- A row of consecutive selected entries lies in a part of the list that begins and ends with
them. -/
theorem exists_segment {select : α → Bool} {entries before row after : List α}
    (h : entries.filter select = before ++ row ++ after) (nonempty : row ≠ []) :
    ∃ front segment back, entries = front ++ segment ++ back ∧ segment.filter select = row ∧
      segment.head? = row.head? ∧ segment.getLast? = row.getLast? := by
  obtain ⟨early, back, rfl, hearly, -⟩ := List.filter_eq_append_iff.mp h
  obtain ⟨front, middle, rfl, -, hmiddle⟩ := List.filter_eq_append_iff.mp hearly
  obtain ⟨first, others, rfl⟩ := List.exists_cons_of_ne_nil nonempty
  obtain ⟨skipped, rest, rfl, -, hfirst, hrest⟩ := List.filter_eq_cons_iff.mp hmiddle
  have hfiltered : (first :: rest).filter select = first :: others := by
    rw [List.filter_cons_of_pos hfirst, hrest]
  -- what follows the last entry of the row is left out
  rw [← List.dropLast_append_getLast nonempty] at hfiltered
  obtain ⟨body, ends, hends, hbody, hlast⟩ := List.filter_eq_append_iff.mp hfiltered
  obtain ⟨more, behind, rfl, hmore, hselected, -⟩ := List.filter_eq_cons_iff.mp hlast
  have hsegment : first :: rest =
      (body ++ more ++ [(first :: others).getLast nonempty]) ++ behind := by
    rw [hends]
    simp
  refine ⟨front ++ skipped, body ++ more ++ [(first :: others).getLast nonempty],
    behind ++ back, ?_, ?_, ?_, ?_⟩
  · rw [hsegment]
    simp
  · have hnone : more.filter select = [] := List.filter_eq_nil_iff.mpr hmore
    rw [List.filter_append, List.filter_append, hbody, hnone, List.append_nil,
      List.filter_cons_of_pos hselected, List.filter_nil, List.dropLast_append_getLast]
  · have hhead := congrArg List.head? hsegment
    rw [List.head?_append_of_ne_nil _ (List.append_ne_nil_of_right_ne_nil _ (List.cons_ne_nil _ _))]
      at hhead
    exact hhead.symm
  · rw [List.getLast?_append_of_ne_nil _ (List.cons_ne_nil _ _), List.getLast?_singleton,
      List.getLast?_eq_some_getLast nonempty]

variable [DecidableEq κ] (key : α → κ)

/-! ### First and repeated entries -/

theorem repeatsAfter_eq_nil_iff (seen entries : List α) :
    repeatsAfter key seen entries = [] ↔
      (entries.map key).Nodup ∧ ∀ entry ∈ entries, ∀ earlier ∈ seen, key earlier ≠ key entry := by
  induction entries generalizing seen with
  | nil => simp [repeatsAfter]
  | cons entry rest ih =>
    rw [repeatsAfter]
    cases hfind : seen.find? fun earlier => key earlier = key entry with
    | some first =>
      -- the entry is a repetition
      have hfirst := List.mem_of_find?_eq_some hfind
      have hkey : key first = key entry := by simpa using List.find?_some hfind
      constructor
      · intro h
        cases h
      · rintro ⟨-, hnew⟩
        exact absurd hkey (hnew entry (List.mem_cons_self ..) first hfirst)
    | none =>
      -- the entry is new, and is seen from now on
      have hnew : ∀ earlier ∈ seen, key earlier ≠ key entry := by
        simpa using List.find?_eq_none.mp hfind
      rw [ih, List.map_cons, List.nodup_cons]
      constructor
      · rintro ⟨hrest, hothers⟩
        refine ⟨⟨?_, hrest⟩, ?_⟩
        · intro hmem
          obtain ⟨other, hother, hkey⟩ := List.mem_map.mp hmem
          exact hothers other hother entry (by simp) hkey.symm
        · intro other hother earlier hearlier
          rcases List.mem_cons.mp hother with rfl | hother
          · exact hnew earlier hearlier
          · exact hothers other hother earlier (List.mem_append_left _ hearlier)
      · rintro ⟨⟨hentry, hrest⟩, hothers⟩
        refine ⟨hrest, ?_⟩
        intro other hother earlier hearlier
        rcases List.mem_append.mp hearlier with hearlier | hearlier
        · exact hothers other (List.mem_cons_of_mem _ hother) earlier hearlier
        · rw [List.mem_singleton.mp hearlier]
          intro hkey
          exact hentry (List.mem_map.mpr ⟨other, hother, hkey.symm⟩)

/-- Nothing is repeated if and only if the keys are distinct. -/
theorem repeats_eq_nil_iff (entries : List α) :
    repeats key entries = [] ↔ (entries.map key).Nodup := by
  rw [repeats, repeatsAfter_eq_nil_iff]
  simp

/-- What is repeated stays repeated when more entries follow. -/
theorem prefix_repeatsAfter (seen entries others : List α) :
    repeatsAfter key seen entries <+: repeatsAfter key seen (entries ++ others) := by
  induction entries generalizing seen with
  | nil => exact List.nil_prefix
  | cons entry rest ih =>
    rw [List.cons_append, repeatsAfter, repeatsAfter]
    split
    · exact List.cons_prefix_cons.mpr ⟨rfl, ih seen⟩
    · exact ih _

theorem prefix_repeats {entries others : List α} (h : entries <+: others) :
    repeats key entries <+: repeats key others := by
  obtain ⟨back, rfl⟩ := h
  exact prefix_repeatsAfter key [] entries back

theorem repeatsAfter_sublist (seen entries : List α) :
    ((repeatsAfter key seen entries).map Prod.snd).Sublist entries := by
  induction entries generalizing seen with
  | nil => exact .slnil
  | cons entry rest ih =>
    rw [repeatsAfter]
    split
    · exact (ih seen).cons_cons entry
    · exact (ih (seen ++ [entry])).cons entry

theorem repeatsAfter_concat (seen entries : List α) (entry : α) :
    repeatsAfter key seen (entries ++ [entry]) = repeatsAfter key seen entries ++
      (((seen ++ entries).find? fun earlier => key earlier = key entry).map
        fun first => (first, entry)).toList := by
  induction entries generalizing seen with
  | nil =>
    rw [List.nil_append, List.append_nil, repeatsAfter, repeatsAfter, repeatsAfter]
    cases seen.find? fun earlier => key earlier = key entry <;> rfl
  | cons other rest ih =>
    rw [List.cons_append, repeatsAfter, repeatsAfter]
    cases hfind : seen.find? fun earlier => key earlier = key other with
    | none =>
      have hrest := ih (seen ++ [other])
      rw [List.append_assoc, List.singleton_append] at hrest
      exact hrest
    | some first =>
      -- what is repeated does not come first, so it makes no difference
      have hsame : ((seen ++ other :: rest).find? fun earlier => key earlier = key entry) =
          (seen ++ rest).find? fun earlier => key earlier = key entry := by
        rw [List.find?_append, List.find?_append]
        by_cases hkey : key other = key entry
        · rw [← hkey, hfind]
          rfl
        · rw [List.find?_cons_of_neg (by simpa using hkey)]
      rw [hsame]
      exact congrArg _ (ih seen)

/-- The last entry is a repetition of the first one with its key, if there is one before it. -/
theorem repeats_concat (entries : List α) (entry : α) :
    repeats key (entries ++ [entry]) = repeats key entries ++
      ((entries.find? fun earlier => key earlier = key entry).map
        fun first => (first, entry)).toList :=
  repeatsAfter_concat key [] entries entry

/-- What is repeated of one key: every entry with it but the first one, and each with the first. -/
theorem filter_repeats (sought : κ) (entries : List α) :
    (repeats key entries).filter (fun pair => key pair.2 = sought) =
      match entries.filter fun entry => key entry = sought with
      | [] => []
      | first :: others => others.map fun again => (first, again) := by
  induction entries using List.reverseRecOn with
  | nil => rfl
  | append_singleton entries entry ih =>
    rw [repeats_concat, List.filter_append, List.filter_append, ih]
    by_cases hkey : key entry = sought
    · have hfirst : (entries.find? fun earlier => key earlier = key entry) =
          (entries.filter fun earlier => key earlier = sought).head? := by
        rw [List.head?_filter, hkey]
      rw [hfirst, List.filter_cons_of_pos (by simpa using hkey), List.filter_nil]
      cases entries.filter fun earlier => key earlier = sought with
      | nil => rfl
      | cons first others => simp [hkey]
    · have hnone : ((entries.find? fun earlier => key earlier = key entry).map
          fun first => (first, entry)).toList.filter (fun pair => key pair.2 = sought) = [] := by
        cases entries.find? fun earlier => key earlier = key entry <;> simp [hkey]
      rw [hnone, List.filter_cons_of_neg (by simpa using hkey), List.filter_nil, List.append_nil,
        List.append_nil]

/-- Each entry is repeated at most once, in the order of the entries. -/
theorem repeats_sublist (entries : List α) :
    ((repeats key entries).map Prod.snd).Sublist entries :=
  repeatsAfter_sublist key [] entries

theorem mem_of_mem_repeats {entries : List α} {pair : α × α} (h : pair ∈ repeats key entries) :
    pair.2 ∈ entries :=
  (repeats_sublist key entries).subset (List.mem_map_of_mem h)

theorem firstsAfter_of_nodup (seen : List κ) (entries : List α) (distinct : (entries.map key).Nodup)
    (new : ∀ entry ∈ entries, key entry ∉ seen) : firstsAfter key seen entries = entries := by
  induction entries generalizing seen with
  | nil => rfl
  | cons entry rest ih =>
    obtain ⟨hentry, hrest⟩ := List.nodup_cons.mp distinct
    rw [firstsAfter, if_neg (new entry (List.mem_cons_self ..)), ih _ hrest]
    intro other hother hmem
    rcases List.mem_append.mp hmem with hmem | hmem
    · exact new other (List.mem_cons_of_mem _ hother) hmem
    · have hkey := List.mem_singleton.mp hmem
      exact hentry (List.mem_map.mpr ⟨other, hother, hkey⟩)

/-- Entries with distinct keys are all the first of their key. -/
theorem firsts_of_nodup {entries : List α} (distinct : (entries.map key).Nodup) :
    firsts key entries = entries := by
  refine firstsAfter_of_nodup key [] entries distinct ?_
  intro entry _ hmem
  cases hmem

theorem firstsAfter_append (seen : List κ) (entries others : List α) :
    firstsAfter key seen (entries ++ others) = firstsAfter key seen entries ++
      firstsAfter key (seen ++ (firstsAfter key seen entries).map key) others := by
  induction entries generalizing seen with
  | nil => rw [List.nil_append, firstsAfter, List.map_nil, List.append_nil, List.nil_append]
  | cons entry rest ih =>
    rw [List.cons_append, firstsAfter, firstsAfter]
    split
    · exact ih seen
    · rw [ih, List.map_cons, List.cons_append, List.append_assoc, List.singleton_append]

theorem firstsAfter_sublist (seen : List κ) (entries : List α) :
    (firstsAfter key seen entries).Sublist entries := by
  induction entries generalizing seen with
  | nil => exact .slnil
  | cons entry rest ih =>
    rw [firstsAfter]
    split
    · exact (ih seen).cons entry
    · exact (ih _).cons_cons entry

/-- Some of the entries are the first of their key, in the same order. -/
theorem firsts_sublist (entries : List α) : (firsts key entries).Sublist entries :=
  firstsAfter_sublist key [] entries

theorem mem_map_firstsAfter (seen : List κ) (entries : List α) (sought : κ) :
    sought ∈ (firstsAfter key seen entries).map key ↔
      sought ∈ entries.map key ∧ sought ∉ seen := by
  induction entries generalizing seen with
  | nil => simp [firstsAfter]
  | cons entry rest ih =>
    rw [firstsAfter]
    split
    case isTrue hseen =>
      -- the key of a repetition was seen before
      rw [ih, List.map_cons, List.mem_cons]
      constructor
      · rintro ⟨hrest, hnew⟩
        exact ⟨.inr hrest, hnew⟩
      · rintro ⟨rfl | hrest, hnew⟩
        · exact absurd hseen hnew
        · exact ⟨hrest, hnew⟩
    case isFalse hseen =>
      rw [List.map_cons, List.mem_cons, ih, List.map_cons, List.mem_cons, List.mem_append,
        List.mem_singleton]
      by_cases hkey : sought = key entry
      · subst hkey
        simp [hseen]
      · simp [hkey]

/-- An entry at the end is the first of its key unless the key occurs before it. -/
theorem firsts_concat (entries : List α) (entry : α) :
    firsts key (entries ++ [entry]) =
      firsts key entries ++ if key entry ∈ entries.map key then [] else [entry] := by
  rw [firsts, firstsAfter_append, firsts, firstsAfter, List.nil_append]
  simp only [mem_map_firstsAfter, List.not_mem_nil, not_false_eq_true, and_true]
  split <;> rfl

theorem nodup_firstsAfter (seen : List κ) (entries : List α) :
    ((firstsAfter key seen entries).map key).Nodup := by
  induction entries generalizing seen with
  | nil => exact .nil
  | cons entry rest ih =>
    rw [firstsAfter]
    split
    · exact ih seen
    · rw [List.map_cons, List.nodup_cons, mem_map_firstsAfter]
      refine ⟨?_, ih _⟩
      rintro ⟨-, hnew⟩
      exact hnew (List.mem_append_right _ (List.mem_singleton.mpr rfl))

/-- The first entries of their keys have distinct keys. -/
theorem nodup_firsts (entries : List α) : ((firsts key entries).map key).Nodup :=
  nodup_firstsAfter key [] entries

/-- The first entries of their keys are so among themselves, too. -/
theorem firsts_firsts (entries : List α) : firsts key (firsts key entries) = firsts key entries :=
  firsts_of_nodup key (nodup_firsts key entries)

variable {β : Type} (f : β → α)

theorem firstsAfter_map (seen : List κ) (entries : List β) :
    firstsAfter key seen (entries.map f) =
      (firstsAfter (fun entry => key (f entry)) seen entries).map f := by
  induction entries generalizing seen with
  | nil => rfl
  | cons entry rest ih =>
    rw [List.map_cons, firstsAfter, firstsAfter]
    split
    · exact ih seen
    · rw [ih, List.map_cons]

/-- The first of their key among images are the images of the first of their key. -/
theorem firsts_map (entries : List β) :
    firsts key (entries.map f) = (firsts (fun entry => key (f entry)) entries).map f :=
  firstsAfter_map key f [] entries

theorem repeatsAfter_map (seen entries : List β) :
    repeatsAfter key (seen.map f) (entries.map f) =
      (repeatsAfter (fun entry => key (f entry)) seen entries).map (Prod.map f f) := by
  induction entries generalizing seen with
  | nil => rfl
  | cons entry rest ih =>
    rw [List.map_cons, repeatsAfter, repeatsAfter, List.find?_map]
    cases hfind : seen.find? fun earlier => key (f earlier) = key (f entry) with
    | some first =>
      have hfound : List.find? ((fun earlier => decide (key earlier = key (f entry))) ∘ f) seen =
          some first := hfind
      rw [hfound]
      exact congrArg _ (ih seen)
    | none =>
      have hfound : List.find? ((fun earlier => decide (key earlier = key (f entry))) ∘ f) seen =
          none := hfind
      rw [hfound]
      have hmore := ih (seen ++ [entry])
      rwa [List.map_append] at hmore

/-- The repetitions among images are the images of the repetitions. -/
theorem repeats_map (entries : List β) :
    repeats key (entries.map f) =
      (repeats (fun entry => key (f entry)) entries).map (Prod.map f f) :=
  repeatsAfter_map key f [] entries

end

end GraphSchema
