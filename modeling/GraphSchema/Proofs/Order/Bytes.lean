import GraphSchema.Text.Slice
import Mathlib.Data.String.Basic
import Mathlib.Data.List.Lex

/-!
# The order of bytes

Texts are compared by their characters.  In UTF-8 a greater character has greater bytes, whatever
follows (`Text.encoding_lt`), so texts stand in the order of their bytes (`Text.bytes_lt_iff`).
-/

namespace GraphSchema.Text

/-- The bytes of a text in UTF-8. -/
def bytes (text : String) : List UInt8 :=
  text.toUTF8.data.toList

theorem bytes_eq_flatMap (text : String) :
    bytes text = text.toList.flatMap String.utf8EncodeChar := by
  have hbytes : text.toUTF8 = text.toList.utf8Encode := by
    rw [← String.toByteArray_ofList, String.ofList_toList]
    rfl
  rw [bytes, hbytes, List.utf8Encode, List.data_toByteArray, List.toList_toArray]

/-- The encoding of a character comes before that of a greater one, whatever follows. -/
theorem encoding_lt {c d : Char} (h : c < d) (rest others : List UInt8) :
    String.utf8EncodeChar c ++ rest < String.utf8EncodeChar d ++ others := by
  have hlt : c.val.toNat < d.val.toNat := UInt32.lt_iff_toNat_lt.mp (Char.lt_def.mp h)
  have hbound : d.val.toNat < 1114112 := by
    rcases d.valid with hvalid | ⟨-, hvalid⟩
    · exact Nat.lt_trans hvalid (by decide)
    · exact hvalid
  unfold String.utf8EncodeChar
  dsimp only
  generalize c.val.toNat = low at hlt
  generalize d.val.toNat = high at hlt hbound
  -- the first bytes tell how many there are, and after them the digits decide
  split_ifs <;>
    simp only [List.cons_append, List.nil_append, List.cons_lt_cons_iff, UInt8.lt_iff_toNat_lt,
      ← UInt8.toNat_inj, UInt8.toNat_ofNat'] <;>
    simp (disch := omega) only [Nat.mod_eq_of_lt] <;>
    omega

/-- A text that comes before another one has the smaller bytes. -/
theorem bytes_lt_of_lt {text other : String} (h : text < other) : bytes text < bytes other := by
  rw [bytes_eq_flatMap, bytes_eq_flatMap]
  have hlist : text.toList < other.toList := String.lt_iff_toList_lt.mp h
  generalize text.toList = front at hlist
  generalize other.toList = back at hlist
  induction hlist with
  | @nil d back =>
    have hnonempty : String.utf8EncodeChar d ≠ [] := String.utf8EncodeChar_ne_nil
    obtain ⟨first, others, hencoding⟩ := List.exists_cons_of_ne_nil hnonempty
    rw [List.flatMap_cons, hencoding]
    exact List.nil_lt_cons _ _
  | rel hlt => exact encoding_lt hlt _ _
  | cons _ ih => exact List.append_left_lt ih

theorem bytes_lt_iff {text other : String} : bytes text < bytes other ↔ text < other := by
  refine ⟨fun h => ?_, bytes_lt_of_lt⟩
  by_contra hnot
  rcases lt_or_eq_of_le (not_lt.mp hnot) with hlt | rfl
  · exact List.lt_asymm h (bytes_lt_of_lt hlt)
  · exact List.lt_irrefl _ h

end GraphSchema.Text
