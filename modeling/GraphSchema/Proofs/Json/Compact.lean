import GraphSchema.Json
import Mathlib.Tactic.SplitIfs

/-!
# Compact JSON is unambiguous

A value can be read back from its compact text in one way only, whatever follows the text
(`Json.decodes_text`), so different values have different texts (`Json.compact_injective`).

The first character tells what a value is (`Json.Shape.ofFirst`).  A string ends at the first quote
that is not escaped, and every escape can be undone (`Json.unescape_escape`).  A number ends at the
first character that is no digit, so none may follow it; in a compact text none does.
-/

namespace GraphSchema.Json

/-! ### Strings -/

/-- The value of a lower-case hexadecimal digit. -/
def hexValue (digit : Char) : Nat :=
  if digit.isDigit then digit.toNat - '0'.toNat else digit.toNat - 'a'.toNat + 10

/-- The character that a letter after a backslash stands for. -/
def escaped : Char → Char
  | 'n' => '\n'
  | 'r' => '\r'
  | 't' => '\t'
  | 'b' => Char.ofNat 0x08
  | 'f' => Char.ofNat 0x0C
  | letter => letter

/-- The first character inside a string, and what is left of the string behind it. -/
def unescape : List Char → Option (Char × List Char)
  | [] => none
  | '"' :: _ => none
  | '\\' :: 'u' :: rest =>
    some (Char.ofNat ((rest.take 4).foldl (fun value digit => 16 * value + hexValue digit) 0),
      rest.drop 4)
  | '\\' :: letter :: rest => some (escaped letter, rest)
  | c :: rest => some (c, rest)

theorem length_hex4 : ∀ number < 0x20, (hex4 number).length = 4 := by
  decide

theorem foldl_hex4 : ∀ number < 0x20,
    (hex4 number).foldl (fun value digit => 16 * value + hexValue digit) 0 = number := by
  decide

/-- Escaping a character can be undone. -/
theorem unescape_escape (c : Char) (rest : List Char) :
    unescape (escape c ++ rest) = some (c, rest) := by
  unfold escape
  split_ifs with hquote hbackslash hline hreturn htab hback hfeed hcontrol
  · rw [hquote]; rfl
  · rw [hbackslash]; rfl
  · rw [hline]; rfl
  · rw [hreturn]; rfl
  · rw [htab]; rfl
  · rw [← Char.ofNat_toNat c, hback]; rfl
  · rw [← Char.ofNat_toNat c, hfeed]; rfl
  · -- four digits follow
    have hlength := length_hex4 c.toNat hcontrol
    show some (Char.ofNat (((hex4 c.toNat ++ rest).take 4).foldl _ 0),
      (hex4 c.toNat ++ rest).drop 4) = some (c, rest)
    rw [List.take_left' hlength, List.drop_left' hlength, foldl_hex4 c.toNat hcontrol,
      Char.ofNat_toNat]
  · show unescape (c :: rest) = some (c, rest)
    unfold unescape
    split <;> simp_all

/-- The characters of a string between quotes. -/
def inner (text : String) : List Char :=
  text.toList.flatMap escape

theorem toList_quote (text : String) : (quote text).toList = '"' :: (inner text ++ ['"']) := by
  simp [quote, inner]

/-- A string ends at the first quote that is not escaped. -/
theorem eq_of_escapes_append {text other rest more : List Char}
    (h : text.flatMap escape ++ '"' :: rest = other.flatMap escape ++ '"' :: more) :
    text = other ∧ rest = more := by
  have hends (c : Char) (others : List Char) (tail last : List Char) :
      (c :: others).flatMap escape ++ '"' :: tail ≠ '"' :: last := by
    intro hsame
    have hread := congrArg unescape hsame
    rw [List.flatMap_cons, List.append_assoc, unescape_escape] at hread
    cases hread
  induction text generalizing other with
  | nil =>
    cases other with
    | nil => exact ⟨rfl, (List.cons.inj h).2⟩
    | cons d other => exact absurd h.symm (hends d other more rest)
  | cons c text ih =>
    cases other with
    | nil => exact absurd h (hends c text rest more)
    | cons d other =>
      have hread := congrArg unescape h
      rw [List.flatMap_cons, List.flatMap_cons, List.append_assoc, List.append_assoc,
        unescape_escape, unescape_escape] at hread
      obtain ⟨rfl, hothers⟩ := Prod.mk.inj (Option.some.inj hread)
      obtain ⟨rfl, hrest⟩ := ih hothers
      exact ⟨rfl, hrest⟩

theorem eq_of_quote_append {text other : String} {rest more : List Char}
    (h : (quote text).toList ++ rest = (quote other).toList ++ more) :
    text = other ∧ rest = more := by
  rw [toList_quote, toList_quote, List.cons_append, List.cons_append, List.append_assoc,
    List.append_assoc] at h
  obtain ⟨htext, hrest⟩ := eq_of_escapes_append (List.cons.inj h).2
  exact ⟨String.toList_injective htext, hrest⟩

/-! ### Numbers -/

/-- A text that does not begin with a digit. -/
def Undigited (rest : List Char) : Prop :=
  ∀ c ∈ rest.head?, c.isDigit = false

theorem eq_of_digits_append {digits others rest more : List Char}
    (hdigits : ∀ c ∈ digits, c.isDigit = true) (hothers : ∀ c ∈ others, c.isDigit = true)
    (hrest : Undigited rest) (hmore : Undigited more) (h : digits ++ rest = others ++ more) :
    digits = others ∧ rest = more := by
  induction digits generalizing others with
  | nil =>
    cases others with
    | nil => exact ⟨rfl, h⟩
    | cons d others =>
      rw [List.nil_append] at h
      have hdigit := hrest d (by rw [h]; rfl)
      rw [hothers d List.mem_cons_self] at hdigit
      cases hdigit
  | cons c digits ih =>
    cases others with
    | nil =>
      rw [List.nil_append] at h
      have hdigit := hmore c (by rw [← h]; rfl)
      rw [hdigits c List.mem_cons_self] at hdigit
      cases hdigit
    | cons d others =>
      obtain ⟨rfl, htail⟩ := List.cons.inj h
      obtain ⟨rfl, hend⟩ := ih (fun c hc => hdigits c (List.mem_cons_of_mem _ hc))
        (fun c hc => hothers c (List.mem_cons_of_mem _ hc)) htail
      exact ⟨rfl, hend⟩

theorem digits_toString (number : Nat) : ∀ c ∈ (toString number).toList, c.isDigit = true := by
  intro c hc
  rw [Nat.toString_eq_repr, Nat.toList_repr] at hc
  exact Nat.isDigit_of_mem_toDigits (by omega) (Nat.le_refl 10) hc

theorem toString_injective {number other : Nat}
    (h : (toString number).toList = (toString other).toList) : number = other := by
  rw [Nat.toString_eq_repr, Nat.toString_eq_repr, Nat.toList_repr, Nat.toList_repr] at h
  rw [← Nat.ofDigitChars_ten_toDigits (n := number), h, Nat.ofDigitChars_ten_toDigits]

/-! ### Lists -/

section

variable {α : Type} {encode : α → List Char}

/-- The text of an entry can be read back in one way only, whatever follows it but a digit. -/
def Decodes (encode : α → List Char) (entry : α) : Prop :=
  ∀ other rest more, Undigited rest → Undigited more →
    encode entry ++ rest = encode other ++ more → entry = other ∧ rest = more

/-- The texts of entries, each behind a comma. -/
def further (encode : α → List Char) (entries : List α) : List Char :=
  entries.flatMap fun entry => ',' :: encode entry

/-- The texts of entries with commas between them. -/
def separated (encode : α → List Char) : List α → List Char
  | [] => []
  | entry :: entries => encode entry ++ further encode entries

theorem undigited_further {close : Char} (digit : close.isDigit = false) (entries : List α)
    (rest : List Char) : Undigited (further encode entries ++ close :: rest) := by
  intro c hc
  cases entries with
  | nil =>
    obtain rfl := Option.some.inj hc
    exact digit
  | cons entry entries =>
    obtain rfl := Option.some.inj hc
    rfl

theorem eq_of_further_append {close : Char} (digit : close.isDigit = false) (comma : close ≠ ',')
    {entries others : List α} (decodes : ∀ entry ∈ entries, Decodes encode entry)
    {rest more : List Char}
    (h : further encode entries ++ close :: rest = further encode others ++ close :: more) :
    entries = others ∧ rest = more := by
  induction entries generalizing others with
  | nil =>
    cases others with
    | nil => exact ⟨rfl, (List.cons.inj h).2⟩
    | cons other others => exact absurd (List.cons.inj h).1 comma
  | cons entry entries ih =>
    cases others with
    | nil => exact absurd (List.cons.inj h).1.symm comma
    | cons other others =>
      have hsame : encode entry ++ (further encode entries ++ close :: rest) =
          encode other ++ (further encode others ++ close :: more) := by
        simpa [further] using h
      obtain ⟨rfl, htail⟩ := decodes entry List.mem_cons_self other _ _
        (undigited_further digit entries rest) (undigited_further digit others more) hsame
      obtain ⟨rfl, hrest⟩ :=
        ih (fun last hlast => decodes last (List.mem_cons_of_mem _ hlast)) htail
      exact ⟨rfl, hrest⟩

/-- Entries between brackets can be read back in one way only. -/
theorem eq_of_separated_append {close : Char} (digit : close.isDigit = false) (comma : close ≠ ',')
    {entries others : List α} (decodes : ∀ entry ∈ entries, Decodes encode entry)
    (opens : ∀ entry tail last, encode entry ++ tail ≠ close :: last) {rest more : List Char}
    (h : separated encode entries ++ close :: rest = separated encode others ++ close :: more) :
    entries = others ∧ rest = more := by
  cases entries with
  | nil =>
    cases others with
    | nil => exact ⟨rfl, (List.cons.inj h).2⟩
    | cons other others =>
      rw [separated, separated, List.append_assoc] at h
      exact absurd h.symm (opens other _ _)
  | cons entry entries =>
    cases others with
    | nil =>
      rw [separated, separated, List.append_assoc] at h
      exact absurd h (opens entry _ _)
    | cons other others =>
      rw [separated, separated, List.append_assoc, List.append_assoc] at h
      obtain ⟨rfl, htail⟩ := decodes entry List.mem_cons_self other _ _
        (undigited_further digit entries rest) (undigited_further digit others more) h
      obtain ⟨rfl, hrest⟩ := eq_of_further_append digit comma
        (fun last hlast => decodes last (List.mem_cons_of_mem _ hlast)) htail
      exact ⟨rfl, hrest⟩

end

/-! ### Values -/

/-- What a value is. -/
inductive Shape where
  | null
  | bool
  | number
  | string
  | array
  | object
deriving DecidableEq

/-- What a value is whose text begins with a given character. -/
def Shape.ofFirst : Char → Option Shape
  | 'n' => some null
  | 't' => some bool
  | 'f' => some bool
  | '"' => some string
  | '[' => some array
  | '\x7b' => some object
  | c => if c.isDigit then some number else none

/-- What a value is. -/
def shape : Json → Shape
  | .null => .null
  | .bool _ => .bool
  | .number _ => .number
  | .string _ => .string
  | .array _ => .array
  | .object _ => .object

/-- The characters of a value. -/
def text (value : Json) : List Char :=
  value.compact.toList

/-- The characters of a member of an object. -/
def memberText (member : String × Json) : List Char :=
  (quote member.1).toList ++ ':' :: member.2.text

theorem toList_compactItems (items : List Json) :
    (compactItems items).toList = further text items := by
  induction items with
  | nil => simp [compactItems, further]
  | cons item items ih =>
    rw [compactItems, String.toList_append, String.toList_append, ih]
    rfl

theorem toList_compactMembers (members : List (String × Json)) :
    (compactMembers members).toList = further memberText members := by
  induction members with
  | nil => simp [compactMembers, further]
  | cons member members ih =>
    obtain ⟨name, value⟩ := member
    simp [compactMembers, ih, further, memberText, text]

theorem text_array (items : List Json) :
    (array items).text = '[' :: (separated text items ++ [']']) := by
  cases items with
  | nil => simp [text, compact, separated]
  | cons item items => simp [text, compact, separated, toList_compactItems]

theorem text_object (members : List (String × Json)) :
    (object members).text = '\x7b' :: (separated memberText members ++ ['\x7d']) := by
  cases members with
  | nil => simp [text, compact, separated]
  | cons member members =>
    obtain ⟨name, value⟩ := member
    simp [text, compact, separated, memberText, toList_compactMembers]

theorem text_string (content : String) : (string content).text = (quote content).toList := by
  rw [text, compact]

theorem text_number (value : Nat) : (number value).text = (toString value).toList := by
  rw [text, compact]

theorem Shape.ofFirst_digit {c : Char} (h : c.isDigit = true) : ofFirst c = some number := by
  unfold ofFirst
  split
  case h_7 => rw [if_pos h]
  all_goals cases h

/-- The first character of a text tells what the value is. -/
theorem exists_first_text (value : Json) :
    ∃ c rest, value.text = c :: rest ∧ Shape.ofFirst c = some value.shape := by
  cases value with
  | null => exact ⟨'n', _, by rw [text, compact]; rfl, rfl⟩
  | bool value =>
    cases value with
    | true => exact ⟨'t', _, by rw [text, compact]; rfl, rfl⟩
    | false => exact ⟨'f', _, by rw [text, compact]; rfl, rfl⟩
  | number value =>
    have hdigits := digits_toString value
    rw [← text_number] at hdigits
    cases htext : (number value).text with
    | nil =>
      rw [text_number, Nat.toString_eq_repr, Nat.toList_repr] at htext
      exact absurd htext Nat.toDigits_ne_nil
    | cons c rest =>
      rw [htext] at hdigits
      exact ⟨c, rest, rfl, Shape.ofFirst_digit (hdigits c List.mem_cons_self)⟩
  | string content => exact ⟨'"', _, (text_string content).trans (toList_quote content), rfl⟩
  | array items => exact ⟨'[', _, text_array items, rfl⟩
  | object members => exact ⟨'\x7b', _, text_object members, rfl⟩

theorem shape_eq {value other : Json} {rest more : List Char}
    (h : value.text ++ rest = other.text ++ more) : value.shape = other.shape := by
  obtain ⟨c, tail, htext, hshape⟩ := exists_first_text value
  obtain ⟨d, last, hother, hotherShape⟩ := exists_first_text other
  rw [htext, hother] at h
  obtain ⟨rfl, -⟩ := List.cons.inj h
  exact Option.some.inj (hshape.symm.trans hotherShape)

theorem text_append_ne {value : Json} {close : Char} (closes : Shape.ofFirst close = none)
    (tail last : List Char) : value.text ++ tail ≠ close :: last := by
  intro h
  obtain ⟨c, rest, htext, hshape⟩ := exists_first_text value
  rw [htext] at h
  obtain ⟨rfl, -⟩ := List.cons.inj h
  rw [hshape] at closes
  cases closes

theorem decodes_null : Decodes text null := by
  intro other rest more _ _ h
  have hshape := shape_eq h
  cases other with
  | null => exact ⟨rfl, List.append_cancel_left h⟩
  | _ => cases hshape

theorem decodes_bool (value : Bool) : Decodes text (bool value) := by
  intro other rest more _ _ h
  have hshape := shape_eq h
  cases other with
  | bool other =>
    cases value <;> cases other
    · exact ⟨rfl, List.append_cancel_left h⟩
    · simp [text, compact] at h
    · simp [text, compact] at h
    · exact ⟨rfl, List.append_cancel_left h⟩
  | _ => cases hshape

theorem decodes_number (value : Nat) : Decodes text (number value) := by
  intro other rest more hrest hmore h
  have hshape := shape_eq h
  cases other with
  | number other =>
    rw [text_number, text_number] at h
    obtain ⟨hdigits, htail⟩ := eq_of_digits_append (digits_toString value) (digits_toString other)
      hrest hmore h
    exact ⟨congrArg number (toString_injective hdigits), htail⟩
  | _ => cases hshape

theorem decodes_string (content : String) : Decodes text (string content) := by
  intro other rest more _ _ h
  have hshape := shape_eq h
  cases other with
  | string other =>
    rw [text_string, text_string] at h
    obtain ⟨rfl, htail⟩ := eq_of_quote_append h
    exact ⟨rfl, htail⟩
  | _ => cases hshape

theorem decodes_array {items : List Json} (decodes : ∀ item ∈ items, Decodes text item) :
    Decodes text (array items) := by
  intro other rest more _ _ h
  have hshape := shape_eq h
  cases other with
  | array others =>
    rw [text_array, text_array, List.cons_append, List.cons_append, List.append_assoc,
      List.append_assoc] at h
    obtain ⟨rfl, htail⟩ := eq_of_separated_append rfl (by decide) decodes
      (fun _ => text_append_ne rfl) (List.cons.inj h).2
    exact ⟨rfl, htail⟩
  | _ => cases hshape

theorem decodes_member {member : String × Json} (decodes : Decodes text member.2) :
    Decodes memberText member := by
  rintro ⟨name, value⟩ rest more hrest hmore h
  rw [memberText, memberText, List.append_assoc, List.append_assoc] at h
  obtain ⟨hname, hvalue⟩ := eq_of_quote_append h
  obtain ⟨hsame, htail⟩ := decodes value rest more hrest hmore (List.cons.inj hvalue).2
  exact ⟨Prod.ext hname hsame, htail⟩

theorem decodes_object {members : List (String × Json)}
    (decodes : ∀ member ∈ members, Decodes text member.2) : Decodes text (object members) := by
  intro other rest more _ _ h
  have hshape := shape_eq h
  cases other with
  | object others =>
    have hquote (member : String × Json) (tail last : List Char) :
        memberText member ++ tail ≠ '\x7d' :: last := by
      intro hsame
      rw [memberText, toList_quote] at hsame
      exact absurd (List.cons.inj hsame).1 (by decide)
    rw [text_object, text_object, List.cons_append, List.cons_append, List.append_assoc,
      List.append_assoc] at h
    obtain ⟨rfl, htail⟩ := eq_of_separated_append rfl (by decide)
      (fun member hmember => decodes_member (decodes member hmember)) hquote (List.cons.inj h).2
    exact ⟨rfl, htail⟩
  | _ => cases hshape

mutual

theorem decodes_text : ∀ value : Json, Decodes text value
  | null => decodes_null
  | bool value => decodes_bool value
  | number value => decodes_number value
  | string content => decodes_string content
  | array items => decodes_array (decodes_items items)
  | object members => decodes_object (decodes_members members)

theorem decodes_items : ∀ items : List Json, ∀ item ∈ items, Decodes text item
  | [] => List.forall_mem_nil _
  | item :: items => List.forall_mem_cons.mpr ⟨decodes_text item, decodes_items items⟩

theorem decodes_members :
    ∀ members : List (String × Json), ∀ member ∈ members, Decodes text member.2
  | [] => List.forall_mem_nil _
  | (_, value) :: members =>
    List.forall_mem_cons.mpr ⟨decodes_text value, decodes_members members⟩

end

/-- Different values have different compact texts. -/
theorem compact_injective {value other : Json} (h : value.compact = other.compact) :
    value = other := by
  have hnone : Undigited [] := fun _ hc => by cases hc
  refine (decodes_text value other [] [] hnone hnone ?_).1
  rw [text, text, h]

end GraphSchema.Json
