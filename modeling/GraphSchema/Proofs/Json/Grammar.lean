import GraphSchema.Proofs.Json.Compact
import GraphSchema.Text.Blank
import Mathlib.Data.List.Forall2

/-!
# JSON texts

A text stands for a JSON value (`Json.Written`) if it consists of the tokens of the value with any
white space between them; how the characters of a string may be spelled is a parameter.  The compact
text of a value stands for the value (`Json.written_text`), since every character is escaped to one
of its spellings (`Json.spells_escape`).  A character that needs no escape and is no white space is
its own spelling (`Json.spellsBare_escape`).
-/

namespace GraphSchema.Json

/-! ### The grammar -/

/-- White space between tokens. -/
def IsSpace (text : List Char) : Prop :=
  ∀ c ∈ text, c = ' ' ∨ c = '\t' ∨ c = '\n' ∨ c = '\r'

/-- The spellings of a character in a string: as it is, by a letter behind a backslash, or by four
hexadecimal digits. -/
inductive Spells : Char → List Char → Prop where
  | plain {c : Char} : c ≠ '"' → c ≠ '\\' → 0x20 ≤ c.toNat → Spells c [c]
  | letter (letter : Char) : letter ∈ ['"', '\\', '/', 'b', 'f', 'n', 'r', 't'] →
      Spells (escaped letter) ['\\', letter]
  | code {c : Char} {digits : List Char} : digits.length = 4 →
      (∀ digit ∈ digits, digit.isDigit = true ∨ 'a' ≤ digit ∧ digit ≤ 'f') →
      digits.foldl (fun value digit => 16 * value + hexValue digit) 0 = c.toNat →
      Spells c ('\\' :: 'u' :: digits)

/-- A character that needs no escape and is no white space. -/
structure IsBare (c : Char) : Prop where
  quote : c ≠ '"'
  backslash : c ≠ '\\'
  control : 0x20 ≤ c.toNat
  blank : Text.isBlank c = false

instance (c : Char) : Decidable (IsBare c) :=
  decidable_of_iff (c ≠ '"' ∧ c ≠ '\\' ∧ 0x20 ≤ c.toNat ∧ Text.isBlank c = false)
    ⟨fun ⟨quote, backslash, control, blank⟩ => ⟨quote, backslash, control, blank⟩,
      fun h => ⟨h.quote, h.backslash, h.control, h.blank⟩⟩

/-- The spelling of such a character by itself. -/
def SpellsBare (c : Char) (spelling : List Char) : Prop :=
  IsBare c ∧ spelling = [c]

variable {α : Type} (Spelling : Char → List Char → Prop)

/-- A string between quotes. -/
def Quoted (content : String) (text : List Char) : Prop :=
  ∃ spellings, List.Forall₂ Spelling content.toList spellings ∧
    text = '"' :: (spellings.flatten ++ ['"'])

/-- Entries with commas between them. -/
inductive Row (Entry : α → List Char → Prop) : List α → List Char → Prop where
  | last {entry : α} {front text back : List Char} : IsSpace front → Entry entry text →
      IsSpace back → Row Entry [entry] (front ++ text ++ back)
  | cons {entry : α} {entries : List α} {front text back rest : List Char} : IsSpace front →
      Entry entry text → IsSpace back → Row Entry entries rest →
      Row Entry (entry :: entries) (front ++ text ++ back ++ ',' :: rest)

/-- A member of an object: its name, a colon and its value. -/
inductive Labelled (Value : Json → List Char → Prop) : String × Json → List Char → Prop where
  | mk {name : String} {value : Json} {quoted front back text : List Char} :
      Quoted Spelling name quoted → IsSpace front → IsSpace back → Value value text →
      Labelled Value (name, value) (quoted ++ front ++ ':' :: (back ++ text))

/-- A text stands for a value. -/
inductive Written : Json → List Char → Prop where
  | null : Written .null "null".toList
  | true : Written (.bool true) "true".toList
  | false : Written (.bool false) "false".toList
  | number (value : Nat) : Written (.number value) (Nat.toDigits 10 value)
  | string {content : String} {text : List Char} : Quoted Spelling content text →
      Written (.string content) text
  | emptyArray {inside : List Char} : IsSpace inside →
      Written (.array []) ('[' :: (inside ++ [']']))
  | array {items : List Json} {text : List Char} : Row Written items text →
      Written (.array items) ('[' :: (text ++ [']']))
  | emptyObject {inside : List Char} : IsSpace inside →
      Written (.object []) ('\x7b' :: (inside ++ ['\x7d']))
  | object {members : List (String × Json)} {text : List Char} :
      Row (Labelled Spelling Written) members text →
      Written (.object members) ('\x7b' :: (text ++ ['\x7d']))

variable {Spelling}

/-! ### Strings -/

mutual

/-- All names and strings in a value. -/
def strings : Json → List String
  | .null | .bool _ | .number _ => []
  | .string content => [content]
  | .array items => itemStrings items
  | .object members => memberStrings members

/-- All names and strings in the items of an array. -/
def itemStrings : List Json → List String
  | [] => []
  | item :: items => item.strings ++ itemStrings items

/-- All names and strings in the members of an object. -/
def memberStrings : List (String × Json) → List String
  | [] => []
  | (name, value) :: members => name :: (value.strings ++ memberStrings members)

end

/-- The strings of a value are made of characters that satisfy a condition. -/
def MadeOf (Good : Char → Prop) (value : Json) : Prop :=
  ∀ content ∈ value.strings, ∀ c ∈ content.toList, Good c

variable {Good : Char → Prop}

@[simp]
theorem madeOf_number {number : Nat} : MadeOf Good (.number number) := nofun

@[simp]
theorem madeOf_null : MadeOf Good .null := nofun

@[simp]
theorem madeOf_string {content : String} :
    MadeOf Good (.string content) ↔ ∀ c ∈ content.toList, Good c := by
  simp [MadeOf, strings]

theorem madeOf_array {items : List Json} :
    MadeOf Good (.array items) ↔ ∀ item ∈ items, MadeOf Good item := by
  unfold MadeOf
  rw [strings]
  induction items with
  | nil => simp [itemStrings]
  | cons item items ih =>
    rw [itemStrings, List.forall_mem_append, ih, List.forall_mem_cons]

theorem madeOf_object {members : List (String × Json)} :
    MadeOf Good (.object members) ↔
      ∀ member ∈ members, (∀ c ∈ member.1.toList, Good c) ∧ MadeOf Good member.2 := by
  unfold MadeOf
  rw [strings]
  induction members with
  | nil => simp [memberStrings]
  | cons member members ih =>
    obtain ⟨name, value⟩ := member
    rw [memberStrings, List.forall_mem_cons, List.forall_mem_append, ih, List.forall_mem_cons,
      and_assoc]

theorem MadeOf.nil : MadeOf Good (.object []) :=
  madeOf_object.mpr (List.forall_mem_nil _)

/-- The strings of an object are the name of its first member, those of the value of that member,
and those of the other members. -/
theorem MadeOf.cons {name : String} {value : Json} {members : List (String × Json)}
    (hname : ∀ c ∈ name.toList, Good c) (hvalue : MadeOf Good value)
    (hmembers : MadeOf Good (.object members)) : MadeOf Good (.object ((name, value) :: members)) :=
  madeOf_object.mpr (List.forall_mem_cons.mpr ⟨⟨hname, hvalue⟩, madeOf_object.mp hmembers⟩)

/-! ### Texts of values -/

theorem isSpace_nil : IsSpace [] := List.forall_mem_nil _

theorem quoted_quote {content : String} (h : ∀ c ∈ content.toList, Spelling c (escape c)) :
    Quoted Spelling content (quote content).toList := by
  refine ⟨content.toList.map escape, ?_, toList_quote content⟩
  rw [List.forall₂_map_right_iff, List.forall₂_same]
  exact h

/-- Entries with commas between them, white space in front of each and behind the last one. -/
theorem row_separated {Entry : α → List Char → Prop} {encode : α → List Char}
    {front back : List Char} (hfront : IsSpace front) (hback : IsSpace back) {entries : List α}
    (nonempty : entries ≠ []) (h : ∀ entry ∈ entries, Entry entry (encode entry)) :
    Row Entry entries (separated (fun entry => front ++ encode entry) entries ++ back) := by
  induction entries with
  | nil => exact absurd rfl nonempty
  | cons entry entries ih =>
    obtain ⟨hentry, hentries⟩ := List.forall_mem_cons.mp h
    -- the white space behind the last entry is that behind the whole row
    cases entries with
    | nil => simpa [separated, further] using Row.last hfront hentry hback
    | cons next entries =>
      have hrow := Row.cons hfront hentry isSpace_nil (ih (List.cons_ne_nil _ _) hentries)
      simpa [separated, further] using hrow

theorem written_array {encode : Json → List Char} {front back : List Char}
    (hfront : IsSpace front) (hback : IsSpace back) {items : List Json} (nonempty : items ≠ [])
    (h : ∀ item ∈ items, Written Spelling item (encode item)) :
    Written Spelling (.array items)
      ('[' :: (separated (fun item => front ++ encode item) items ++ back ++ [']'])) :=
  .array (row_separated hfront hback nonempty h)

/-- A member of an object, with white space behind the colon. -/
def labelledText (encode : Json → List Char) (gap : List Char) (member : String × Json) :
    List Char :=
  (quote member.1).toList ++ ':' :: (gap ++ encode member.2)

theorem written_object {encode : Json → List Char} {front gap back : List Char}
    (hfront : IsSpace front) (hgap : IsSpace gap) (hback : IsSpace back)
    {members : List (String × Json)} (nonempty : members ≠ [])
    (h : ∀ member ∈ members, (∀ c ∈ member.1.toList, Spelling c (escape c)) ∧
      Written Spelling member.2 (encode member.2)) :
    Written Spelling (.object members)
      ('\x7b' :: (separated (fun member => front ++ labelledText encode gap member) members ++
        back ++ ['\x7d'])) := by
  refine .object (row_separated hfront hback nonempty fun member hmember => ?_)
  obtain ⟨hname, hvalue⟩ := h member hmember
  have hlabelled := Labelled.mk (quoted_quote hname) isSpace_nil hgap hvalue
  rwa [List.append_nil] at hlabelled

theorem written_bool (value : Bool) : Written Spelling (.bool value) (bool value).text := by
  cases value with
  | true => rw [text, compact]; exact .true
  | false => rw [text, compact]; exact .false

theorem written_number (value : Nat) :
    Written Spelling (.number value) (toString value).toList := by
  rw [Nat.toString_eq_repr, Nat.toList_repr]
  exact .number value

/-- What holds of an array or object if it holds of what is in it, and of all other values, holds of
every value. -/
theorem induction {Holds : Json → Prop} (null : Holds .null) (bool : ∀ value, Holds (.bool value))
    (number : ∀ value, Holds (.number value)) (string : ∀ content, Holds (.string content))
    (array : ∀ items, (∀ item ∈ items, Holds item) → Holds (.array items))
    (object : ∀ members, (∀ member ∈ members, Holds member.2) → Holds (.object members))
    (value : Json) : Holds value :=
  -- the other motives are about the items, the members and one member
  @Json.rec Holds (fun items => ∀ item ∈ items, Holds item)
    (fun members => ∀ member ∈ members, Holds member.2) (fun member => Holds member.2)
    null bool number string array object
    (List.forall_mem_nil _) (fun _ _ hitem hitems => List.forall_mem_cons.mpr ⟨hitem, hitems⟩)
    (List.forall_mem_nil _)
    (fun _ _ hmember hmembers => List.forall_mem_cons.mpr ⟨hmember, hmembers⟩)
    (fun _ _ hvalue => hvalue) value

/-- The compact text of a value stands for the value. -/
theorem written_text {value : Json} (h : MadeOf (fun c => Spelling c (escape c)) value) :
    Written Spelling value value.text := by
  induction value using Json.induction with
  | null => rw [text, compact]; exact .null
  | bool value => exact written_bool value
  | number value => rw [text_number]; exact written_number value
  | string content =>
    rw [text_string]
    exact .string (quoted_quote (madeOf_string.mp h))
  | array items ih =>
    rw [text_array]
    cases items with
    | nil => exact .emptyArray isSpace_nil
    | cons item items =>
      have hitems (other : Json) (hother : other ∈ item :: items) :
          Written Spelling other other.text := ih other hother (madeOf_array.mp h other hother)
      simpa using written_array isSpace_nil isSpace_nil (List.cons_ne_nil _ _) hitems
  | object members ih =>
    rw [text_object]
    cases members with
    | nil => exact .emptyObject isSpace_nil
    | cons member members =>
      have hmembers (other : String × Json) (hother : other ∈ member :: members) :
          (∀ c ∈ other.1.toList, Spelling c (escape c)) ∧ Written Spelling other.2 other.2.text :=
        (madeOf_object.mp h other hother).imp_right (ih other hother)
      have hlabelled : labelledText text [] = memberText := rfl
      have hwritten := written_object isSpace_nil isSpace_nil isSpace_nil
        (List.cons_ne_nil _ _) hmembers
      rwa [hlabelled, List.append_nil] at hwritten

/-! ### Characters -/

/-- Every character is escaped to one of its spellings. -/
theorem spells_escape (c : Char) : Spells c (escape c) := by
  unfold escape
  split_ifs with hquote hbackslash hline hreturn htab hback hfeed hcontrol
  · rw [hquote]
    exact .letter '"' (by decide)
  · rw [hbackslash]
    exact .letter '\\' (by decide)
  · rw [hline]
    exact .letter 'n' (by decide)
  · rw [hreturn]
    exact .letter 'r' (by decide)
  · rw [htab]
    exact .letter 't' (by decide)
  · rw [← Char.ofNat_toNat c, hback]
    exact .letter 'b' (by decide)
  · rw [← Char.ofNat_toNat c, hfeed]
    exact .letter 'f' (by decide)
  · -- the other control characters are spelled by their codes
    have hdigits : ∀ number < 0x20, (hex4 number).all (fun digit =>
        digit.isDigit || decide ('a' ≤ digit ∧ digit ≤ 'f')) = true := by
      decide
    refine .code (length_hex4 _ hcontrol) (fun digit hdigit => ?_) (foldl_hex4 _ hcontrol)
    have hdigit := List.all_eq_true.mp (hdigits _ hcontrol) digit hdigit
    exact (Bool.or_eq_true_iff.mp hdigit).imp id of_decide_eq_true
  · exact .plain hquote hbackslash (Nat.not_lt.mp hcontrol)

theorem IsBare.escape_eq {c : Char} (h : IsBare c) : escape c = [c] := by
  have hcontrol (code : Nat) (hcode : code < 0x20) : c.toNat ≠ code := by
    have := h.control
    omega
  have hchar (d : Char) (hd : d.toNat < 0x20) : c ≠ d := fun hc => hcontrol _ hd (by rw [hc])
  rw [escape, if_neg h.quote, if_neg h.backslash, if_neg (hchar '\n' (by decide)),
    if_neg (hchar '\r' (by decide)), if_neg (hchar '\t' (by decide)),
    if_neg (hcontrol 0x08 (by decide)), if_neg (hcontrol 0x0C (by decide)),
    if_neg (Nat.not_lt.mpr h.control)]

theorem IsBare.ne_blank {c : Char} (h : IsBare c) : c ≠ ' ' ∧ c ≠ '\n' := by
  have hblank := h.blank
  constructor
  · rintro rfl
    cases hblank
  · rintro rfl
    cases hblank

theorem spellsBare_escape {c : Char} (h : IsBare c) : SpellsBare c (escape c) :=
  ⟨h, h.escape_eq⟩

end GraphSchema.Json
