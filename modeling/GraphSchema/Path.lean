import GraphSchema.Text.Split

/-!
# Paths

A path is kept as it was written, and compared by its *components*: repeated slashes, a slash at the
end and `.` components other than a leading one do not count. Components are ordered root first,
then the leading `.`, then `..`, then names by code points, which is the order of their bytes; a
path that is a proper initial part of another one is less.
-/

namespace GraphSchema

/-- One component of a path. -/
inductive PathComponent where
  | root
  | current
  | parent
  | name (text : String)
deriving DecidableEq, Repr, Inhabited

namespace PathComponent

/-- The place of the kind of a component in the order of components. -/
def rank : PathComponent → Nat
  | root => 0
  | current => 1
  | parent => 2
  | name _ => 3

/-- The name of a component; the three special components have none. -/
def label : PathComponent → String
  | name text => text
  | _ => ""

/-- Components compare by kind, then by name. -/
protected def compare (a b : PathComponent) : Ordering :=
  (Ord.compare a.rank b.rank).then (Ord.compare a.label b.label)

instance : Ord PathComponent := ⟨PathComponent.compare⟩

end PathComponent

/-- A path as it was written. -/
structure Path where
  text : String
deriving DecidableEq, Repr, Inhabited

namespace Path

instance : ToString Path := ⟨Path.text⟩

/-- The component that a segment of a path stands for, if it counts. -/
def component? (segment : List Char) : Option PathComponent :=
  if segment = [] ∨ segment = ['.'] then none
  else if segment = ['.', '.'] then some .parent
  else some (.name (String.ofList segment))

/-- The components of a path, in order. -/
def components (path : Path) : List PathComponent :=
  match Text.segments '/' path.text.toList with
  | [] => []
  | [] :: [] => []
  | [] :: others => .root :: others.filterMap component?
  | ['.'] :: others => .current :: others.filterMap component?
  | segments => segments.filterMap component?

/-- Paths compare by their components. -/
protected def compare (a b : Path) : Ordering :=
  Ord.compare a.components b.components

instance : Ord Path := ⟨Path.compare⟩

/-- Do two paths have the same components? -/
def agrees (a b : Path) : Bool :=
  a.components == b.components

/-- The name of the file or directory: the last component, if it is a name. -/
def fileName? (path : Path) : Option String :=
  match path.components.getLast? with
  | some (.name text) => some text
  | _ => none

/-- What follows the last dot of a file name; a name without a dot, or with only a leading one, has
no extension. -/
def extension? (path : Path) : Option String := do
  let name ← path.fileName?
  match (Text.segments '.' name.toList).reverse with
  | [] | [_] => none
  | [_, []] => none
  | last :: _ => some (String.ofList last)

/-- What stands in front of the names of the entries of a directory: its path with a slash behind
it, unless the path ends in one or is empty. -/
def front (directory : Path) : String :=
  if directory.text.isEmpty || directory.text.toList.getLast? = some '/' then directory.text
  else directory.text ++ "/"

/-- The path of an entry of a directory. -/
def join (directory : Path) (entry : String) : Path :=
  ⟨directory.front ++ entry⟩

/-- The rest of a path that lies under a directory. -/
def under? (directory path : Path) : Option Path :=
  let front := directory.front.toList
  if front.isPrefixOf path.text.toList then
    some ⟨String.ofList (path.text.toList.drop front.length)⟩
  else none

end Path

end GraphSchema
