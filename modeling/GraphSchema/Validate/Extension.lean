import GraphSchema.Path
import GraphSchema.Text.Blank

/-!
# File extensions

The extensions that select files are given by the user, with or without leading dots. They are
compared with the extension of a file name letter by letter.
-/

namespace GraphSchema.Extension

/-- An extension without the blanks around it and without leading dots. -/
def stripped (extension : String) : String :=
  String.ofList ((Text.trim extension).toList.dropWhile (· == '.'))

/-- The extensions that are left when empty ones are dropped, each once, in the order of code
points. -/
def normalized (extensions : List String) : List String :=
  (((extensions.map stripped).filter fun extension => !extension.isEmpty).eraseDups).mergeSort
    fun a b => (compare a b).isLE

/-- Has the path one of the extensions? -/
def selects (extensions : List String) (path : Path) : Bool :=
  path.extension?.any fun extension => extensions.contains extension

end GraphSchema.Extension
