import GraphSchema.Path

/-!
# Cursors

A cursor is a place in a source text: the number of bytes before it, its line and its column, the
last two counted from one, and the logical name of the file. A cursor moves over a text character by
character, so every cursor of a file is the start of the file moved over what stands before it.
-/

namespace GraphSchema

/-- A place in a source text. -/
structure Cursor where
  index : Nat
  line : Nat
  column : Nat
  file : Path
deriving DecidableEq, Repr, Inhabited

namespace Cursor

/-- The place of the first character of a file. -/
def startOf (file : Path) : Cursor :=
  ⟨0, 1, 1, file⟩

/-- The place after the character `c`: a line feed starts a new line. -/
def step (cursor : Cursor) (c : Char) : Cursor :=
  if c = '\n' then ⟨cursor.index + c.utf8Size, cursor.line + 1, 1, cursor.file⟩
  else ⟨cursor.index + c.utf8Size, cursor.line, cursor.column + 1, cursor.file⟩

/-- The place after a text. -/
def after (cursor : Cursor) (text : List Char) : Cursor :=
  text.foldl step cursor

/-- Cursors compare by file, then by byte offset. -/
protected def compare (a b : Cursor) : Ordering :=
  (Ord.compare a.file b.file).then (Ord.compare a.index b.index)

instance : Ord Cursor := ⟨Cursor.compare⟩

/-- Do two cursors name the same place of the same file? -/
def agrees (a b : Cursor) : Bool :=
  a.index == b.index && a.line == b.line && a.column == b.column && a.file.agrees b.file

/-- A cursor is shown as `file:line:column`. -/
instance : ToString Cursor :=
  ⟨fun cursor => s!"{cursor.file.text}:{cursor.line}:{cursor.column}"⟩

@[simp]
theorem after_nil (cursor : Cursor) : cursor.after [] = cursor := rfl

@[simp]
theorem after_cons (cursor : Cursor) (c : Char) (text : List Char) :
    cursor.after (c :: text) = (cursor.step c).after text := rfl

theorem after_append (cursor : Cursor) (front back : List Char) :
    cursor.after (front ++ back) = (cursor.after front).after back := by
  simp [after]

end Cursor

end GraphSchema
