import GraphSchema.Proofs.Relocation.Reading
import GraphSchema.Proofs.Token.Lexemes
import Mathlib.Order.Compare
import Mathlib.Order.Monotone.Basic
import Mathlib.Order.Nat

/-!
# Numbered tokens

Two rows of tokens with the same kinds and texts are one row of numbered tokens that was relocated
in two ways (`numbered_eq`, `move_numbered`).  If the tokens of a row stand one behind the other,
the relocation from their numbers to their places keeps the order (`Relocation.keepsOrder_back`).
-/

namespace GraphSchema

/-- The place with a number. -/
def Cursor.numbered (file : Path) (number : Nat) : Cursor :=
  ⟨number, 0, 0, file⟩

/-- The tokens with their numbers as places. -/
def numbered (file : Path) (tokens : List Token) : List Token :=
  tokens.mapIdx fun number token =>
    ⟨token.kind, token.text, .numbered file number, .numbered file number⟩

/-- The order of places is kept. -/
def Relocation.KeepsOrder (r : Relocation) : Prop :=
  ∀ a b, compare (r.start a) (r.start b) = compare a b

/-- From numbers to the places of tokens.  Behind the tokens stands `last`, and behind it come the
places that have a larger number. -/
def Relocation.back (tokens : List Token) (last : Cursor) : Relocation where
  start cursor :=
    { (tokens[cursor.index]?.map Token.start).getD
        { last with index := last.index + (cursor.index - tokens.length) } with
      file := cursor.file }
  stop cursor := (tokens[cursor.index]?.map Token.stop).getD cursor

theorem getElem?_numbered (file : Path) (tokens : List Token) (number : Nat) :
    (numbered file tokens)[number]? = (tokens.map Token.spelling)[number]?.map fun spelling =>
      ⟨spelling.1, spelling.2, .numbered file number, .numbered file number⟩ := by
  rw [numbered, List.getElem?_mapIdx, List.getElem?_map, Option.map_map]
  rfl

/-- Only kinds and texts are left of a row of tokens when it is numbered. -/
theorem numbered_eq (file : Path) {tokens others : List Token}
    (alike : tokens.map Token.spelling = others.map Token.spelling) :
    numbered file tokens = numbered file others := by
  apply List.ext_getElem?
  intro number
  rw [getElem?_numbered, alike, getElem?_numbered]

/-- Numbered tokens go back to their places. -/
theorem move_numbered {file : Path} {tokens : List Token} (last : Cursor)
    (inFile : ∀ token ∈ tokens, token.start.file = file) :
    (numbered file tokens).map (Token.move (.back tokens last)) = tokens := by
  apply List.ext_getElem?
  intro number
  rw [List.getElem?_map, numbered, List.getElem?_mapIdx]
  cases htoken : tokens[number]? with
  | none => rfl
  | some token =>
    have hfile := inFile token (List.mem_of_getElem? htoken)
    simp only [Option.map_some, Token.move, Relocation.back, Cursor.numbered, htoken,
      Option.getD_some, ← hfile]

/-- The place behind numbered tokens goes back to the end. -/
theorem back_start_length (tokens : List Token) (last : Cursor) :
    (Relocation.back tokens last).start (.numbered last.file tokens.length) = last := by
  have hnone : tokens[tokens.length]? = none := List.getElem?_eq_none (Nat.le_refl _)
  simp only [Relocation.back, Cursor.numbered, hnone, Option.map_none, Option.getD_none,
    Nat.sub_self, Nat.add_zero]

theorem compare_eq_of_strictMono {f : Nat → Nat} (h : StrictMono f) (a b : Nat) :
    compare (f a) (f b) = compare a b := by
  rcases Nat.lt_trichotomy a b with hlt | rfl | hgt
  · rw [Nat.compare_eq_lt.mpr hlt, Nat.compare_eq_lt.mpr (h hlt)]
  · rw [Nat.compare_eq_eq.mpr rfl, Nat.compare_eq_eq.mpr rfl]
  · rw [Nat.compare_eq_gt.mpr hgt, Nat.compare_eq_gt.mpr (h hgt)]

/-- The order of numbers is the order of places. -/
theorem Relocation.keepsOrder_back {tokens : List Token} {last : Cursor}
    (ordered : tokens.Pairwise fun token following => token.start.index < following.start.index)
    (inside : ∀ token ∈ tokens, token.start.index < last.index) :
    (back tokens last).KeepsOrder := by
  let place (number : Nat) : Nat := (tokens[number]?.map fun token => token.start.index).getD
    (last.index + (number - tokens.length))
  have hplace (cursor : Cursor) : ((back tokens last).start cursor).index = place cursor.index := by
    simp only [back, place]
    cases tokens[cursor.index]? <;> rfl
  have hmono : StrictMono place := by
    intro a b hab
    simp only [place]
    by_cases hb : b < tokens.length
    · have ha : a < tokens.length := Nat.lt_trans hab hb
      rw [List.getElem?_eq_getElem ha, List.getElem?_eq_getElem hb]
      exact List.pairwise_iff_getElem.mp ordered a b ha hb hab
    · rw [List.getElem?_eq_none (Nat.le_of_not_lt hb)]
      by_cases ha : a < tokens.length
      · have hinside := inside _ (List.getElem_mem ha)
        rw [List.getElem?_eq_getElem ha]
        simp only [Option.map_some, Option.map_none, Option.getD_some, Option.getD_none]
        omega
      · rw [List.getElem?_eq_none (Nat.le_of_not_lt ha)]
        simp only [Option.map_none, Option.getD_none]
        omega
  intro a b
  change (compare a.file b.file).then
      (compare ((back tokens last).start a).index ((back tokens last).start b).index) =
    (compare a.file b.file).then (compare a.index b.index)
  rw [hplace, hplace, compare_eq_of_strictMono hmono]

end GraphSchema
