/-!
# Slices by byte offsets

Offsets count the bytes of the UTF-8 encoding. A slice exists only between two offsets that are in
order, inside the text and on character boundaries.
-/

namespace GraphSchema.Text

/-- The number of bytes of a text. -/
def byteLength : List Char → Nat
  | [] => 0
  | c :: rest => c.utf8Size + byteLength rest

/-- What is left of a text after `count` bytes, if a character begins or the text ends there. -/
def dropBytes : Nat → List Char → Option (List Char)
  | 0, text => some text
  | _ + 1, [] => none
  | count + 1, c :: rest =>
    if c.utf8Size ≤ count + 1 then dropBytes (count + 1 - c.utf8Size) rest else none

/-- The first `count` bytes of a text, if a character begins or the text ends behind them. -/
def takeBytes : Nat → List Char → Option (List Char)
  | 0, _ => some []
  | _ + 1, [] => none
  | count + 1, c :: rest =>
    if c.utf8Size ≤ count + 1 then (takeBytes (count + 1 - c.utf8Size) rest).map (c :: ·)
    else none

/-- The part of a text from the byte offset `start` up to the byte offset `stop`. -/
def slice (text : List Char) (start stop : Nat) : Option (List Char) :=
  if start ≤ stop then (dropBytes start text).bind (takeBytes (stop - start)) else none

/-- What is left of a text after its first part is the second part. -/
theorem dropBytes_append (front back : List Char) :
    dropBytes (byteLength front) (front ++ back) = some back := by
  induction front with
  | nil => simp [byteLength, dropBytes]
  | cons c front ih =>
    obtain ⟨n, hn⟩ := Nat.exists_eq_add_of_lt c.utf8Size_pos
    rw [byteLength, show c.utf8Size + byteLength front = (n + byteLength front) + 1 by omega]
    rw [List.cons_append, dropBytes, if_pos (by omega)]
    rw [show n + byteLength front + 1 - c.utf8Size = byteLength front by omega]
    exact ih

/-- The middle of three parts of a text is the slice between their offsets. -/
theorem slice_append (front middle back : List Char) :
    slice (front ++ middle ++ back) (byteLength front) (byteLength front + byteLength middle) =
      some middle := by
  have taken : takeBytes (byteLength middle) (middle ++ back) = some middle := by
    induction middle with
    | nil => simp [byteLength, takeBytes]
    | cons c middle ih =>
      obtain ⟨n, hn⟩ := Nat.exists_eq_add_of_lt c.utf8Size_pos
      rw [byteLength, show c.utf8Size + byteLength middle = (n + byteLength middle) + 1 by omega]
      rw [List.cons_append, takeBytes, if_pos (by omega)]
      rw [show n + byteLength middle + 1 - c.utf8Size = byteLength middle by omega, ih]
      rfl
  rw [slice, if_pos (by omega), List.append_assoc, dropBytes_append]
  simp [taken]

end GraphSchema.Text
