import GraphSchema.Proofs.Json.Grammar

/-!
# Laid-out JSON

A laid-out text stands for its value (`Json.written_laid`).  It differs from the compact text in
blanks and line feeds only, provided that there are none in a string (`Json.stripped_laid`).
-/

namespace GraphSchema.Json

variable {α : Type} {Spelling : Char → List Char → Prop}

/-! ### Laid-out texts -/

/-- The characters of a value that is laid out. -/
def laid (level : Nat) (value : Json) : List Char :=
  (value.prettyAt level).toList

/-- A line break and the indentation of a level. -/
def line (level : Nat) : List Char :=
  (newline level).toList

theorem toList_prettyItems (level : Nat) (items : List Json) :
    (prettyItems level items).toList =
      further (fun item => line level ++ laid level item) items := by
  induction items with
  | nil => simp [prettyItems, further]
  | cons item items ih => simp [prettyItems, ih, further, line, laid]

theorem toList_prettyMembers (level : Nat) (members : List (String × Json)) :
    (prettyMembers level members).toList =
      further (fun member => line level ++ labelledText (laid level) [' '] member) members := by
  induction members with
  | nil => simp [prettyMembers, further]
  | cons member members ih =>
    obtain ⟨name, value⟩ := member
    simp [prettyMembers, ih, further, line, laid, labelledText]

/-- The items of an array stand on lines of their own, unless there are none. -/
theorem laid_array (level : Nat) {items : List Json} (nonempty : items ≠ []) :
    (array items).laid level = '[' :: (separated
      (fun item => line (level + 1) ++ laid (level + 1) item) items ++ line level ++ [']']) := by
  cases items with
  | nil => exact absurd rfl nonempty
  | cons item items =>
    rw [laid, prettyAt]
    simp [toList_prettyItems, separated, line, laid]

/-- The members of an object stand on lines of their own, unless there are none. -/
theorem laid_object (level : Nat) {members : List (String × Json)} (nonempty : members ≠ []) :
    (object members).laid level = '\x7b' :: (separated (fun member =>
      line (level + 1) ++ labelledText (laid (level + 1)) [' '] member) members ++
        line level ++ ['\x7d']) := by
  cases members with
  | nil => exact absurd rfl nonempty
  | cons member members =>
    obtain ⟨name, value⟩ := member
    rw [laid, prettyAt]
    simp [toList_prettyMembers, separated, line, laid, labelledText]

/-- A line break and an indentation consist of blanks and line feeds. -/
theorem mem_line {level : Nat} {c : Char} (h : c ∈ line level) : c = ' ' ∨ c = '\n' := by
  rw [line, newline, String.toList_append, List.mem_append] at h
  rcases h with h | h
  · exact .inr (List.mem_singleton.mp h)
  · rw [String.toList_ofList] at h
    exact .inl (List.eq_of_mem_replicate h)

theorem isSpace_line (level : Nat) : IsSpace (line level) := by
  intro c hc
  rcases mem_line hc with hblank | hfeed
  · exact .inl hblank
  · exact .inr (.inr (.inl hfeed))

theorem isSpace_blank : IsSpace [' '] := List.forall_mem_singleton.mpr (.inl rfl)

/-- The laid-out text of a value stands for the value. -/
theorem written_laid {value : Json} (level : Nat)
    (h : MadeOf (fun c => Spelling c (escape c)) value) :
    Written Spelling value (laid level value) := by
  induction value using Json.induction generalizing level with
  | null => rw [laid, prettyAt]; exact .null
  | bool value =>
    cases value with
    | true => rw [laid, prettyAt]; exact .true
    | false => rw [laid, prettyAt]; exact .false
  | number value => rw [laid, prettyAt]; exact written_number value
  | string content =>
    rw [laid, prettyAt]
    exact .string (quoted_quote (madeOf_string.mp h))
  | array items ih =>
    cases items with
    | nil => rw [laid, prettyAt]; exact .emptyArray isSpace_nil
    | cons item items =>
      rw [laid_array level (List.cons_ne_nil _ _)]
      exact written_array (isSpace_line _) (isSpace_line _) (List.cons_ne_nil _ _)
        fun other hother => ih other hother _ (madeOf_array.mp h other hother)
  | object members ih =>
    cases members with
    | nil => rw [laid, prettyAt]; exact .emptyObject isSpace_nil
    | cons member members =>
      rw [laid_object level (List.cons_ne_nil _ _)]
      refine written_object (isSpace_line _) isSpace_blank (isSpace_line _) (List.cons_ne_nil _ _)
        fun other hother => ?_
      obtain ⟨hname, hvalue⟩ := madeOf_object.mp h other hother
      exact ⟨hname, ih other hother _ hvalue⟩

/-! ### Without white space -/

/-- The characters of a text that are neither blanks nor line feeds. -/
def stripped (text : List Char) : List Char :=
  text.filter fun c => c ≠ ' ' ∧ c ≠ '\n'

theorem stripped_append (front back : List Char) :
    stripped (front ++ back) = stripped front ++ stripped back :=
  List.filter_append ..

theorem stripped_cons {c : Char} (h : c ≠ ' ' ∧ c ≠ '\n') (text : List Char) :
    stripped (c :: text) = c :: stripped text :=
  List.filter_cons_of_pos (decide_eq_true h)

theorem stripped_eq_self {text : List Char} (h : ∀ c ∈ text, c ≠ ' ' ∧ c ≠ '\n') :
    stripped text = text :=
  List.filter_eq_self.mpr fun c hc => decide_eq_true (h c hc)

theorem stripped_line (level : Nat) : stripped (line level) = [] := by
  refine List.filter_eq_nil_iff.mpr fun c hc hkept => ?_
  obtain ⟨hblank, hfeed⟩ := of_decide_eq_true hkept
  exact (mem_line hc).elim hblank hfeed

theorem stripped_quote {content : String} (h : ∀ c ∈ content.toList, IsBare c) :
    stripped (quote content).toList = (quote content).toList := by
  have hinner : inner content = content.toList := by
    rw [inner, List.flatMap_congr fun c hc => (h c hc).escape_eq, List.flatMap_singleton']
  refine stripped_eq_self fun c hc => ?_
  rw [toList_quote, hinner, List.mem_cons, List.mem_append, List.mem_singleton] at hc
  rcases hc with rfl | hc | rfl
  · decide
  · exact (h c hc).ne_blank
  · decide

/-- What stands between commas may be stripped entry by entry. -/
theorem stripped_separated {encode strip : α → List Char} {entries : List α}
    (h : ∀ entry ∈ entries, stripped (encode entry) = strip entry) :
    stripped (separated encode entries) = separated strip entries := by
  have hfurther {others : List α} (hothers : ∀ entry ∈ others,
      stripped (encode entry) = strip entry) :
      stripped (further encode others) = further strip others := by
    rw [stripped, further, List.filter_flatMap, further]
    refine List.flatMap_congr fun entry hentry => ?_
    rw [← hothers entry hentry]
    exact stripped_cons (by decide) _
  cases entries with
  | nil => rfl
  | cons entry entries =>
    obtain ⟨hentry, hentries⟩ := List.forall_mem_cons.mp h
    rw [separated, separated, stripped_append, hentry, hfurther hentries]

theorem stripped_digits (value : Nat) :
    stripped (toString value).toList = (toString value).toList := by
  refine stripped_eq_self fun c hc => ?_
  have hdigit := digits_toString value c hc
  constructor
  · rintro rfl
    cases hdigit
  · rintro rfl
    cases hdigit

/-- Without blanks and line feeds a laid-out text is the compact one, if there are none in its
strings. -/
theorem stripped_laid {value : Json} (level : Nat) (h : MadeOf IsBare value) :
    stripped (laid level value) = value.text := by
  induction value using Json.induction generalizing level with
  | null => rw [laid, prettyAt, text, compact]; rfl
  | bool value => cases value <;> rw [laid, prettyAt, text, compact] <;> rfl
  | number value => rw [laid, prettyAt, text_number, stripped_digits]
  | string content => rw [laid, prettyAt, text_string, stripped_quote (madeOf_string.mp h)]
  | array items ih =>
    cases items with
    | nil => rw [laid, prettyAt, text, compact]; rfl
    | cons item items =>
      have hitems : ∀ other ∈ item :: items,
          stripped (line (level + 1) ++ laid (level + 1) other) = other.text := by
        intro other hother
        rw [stripped_append, stripped_line, List.nil_append,
          ih other hother _ (madeOf_array.mp h other hother)]
      rw [laid_array level (List.cons_ne_nil _ _), text_array, stripped_cons (by decide),
        stripped_append, stripped_append, stripped_separated hitems, stripped_line,
        List.append_nil]
      rfl
  | object members ih =>
    cases members with
    | nil => rw [laid, prettyAt, text, compact]; rfl
    | cons member members =>
      have hmembers : ∀ other ∈ member :: members, stripped (line (level + 1) ++
          labelledText (laid (level + 1)) [' '] other) = memberText other := by
        intro other hother
        obtain ⟨hname, hvalue⟩ := madeOf_object.mp h other hother
        have hrest : stripped ([' '] ++ laid (level + 1) other.2) = other.2.text := by
          rw [stripped_append, ih other hother _ hvalue]
          rfl
        rw [stripped_append, stripped_line, List.nil_append, labelledText, stripped_append,
          stripped_quote hname, stripped_cons (by decide), hrest, memberText]
      rw [laid_object level (List.cons_ne_nil _ _), text_object, stripped_cons (by decide),
        stripped_append, stripped_append, stripped_separated hmembers, stripped_line,
        List.append_nil]
      rfl

end GraphSchema.Json
