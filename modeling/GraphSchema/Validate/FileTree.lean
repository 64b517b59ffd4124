import GraphSchema.Path
import GraphSchema.Text.Slice

/-!
# File trees

A file tree without links, with a working directory at its root. A path leads through it segment by
segment; only directories have entries, and no name is known outside of the tree. An operating
system takes a path only up to a length and without a zero character, and looks for a name only up
to a length. A walk lists the files at or under a path, each under the path by which it was reached
and under its full path; the names it meets are known already, but a directory is opened by its
path.
-/

namespace GraphSchema

/-- A file with its bytes, or a directory with named entries. -/
inductive FileTree where
  | file (bytes : ByteArray)
  | directory (entries : List (String × FileTree))
deriving Inhabited

/-- Why a path leads nowhere. -/
inductive PathError where
  | notFound
  | notDirectory
  | nameTooLong
  | zeroCharacter
deriving DecidableEq, Repr, Inhabited

/-- How the error is worded. -/
def PathError.message : PathError → String
  | notFound => "No such file or directory (os error 2)"
  | notDirectory => "Not a directory (os error 20)"
  | nameTooLong => "File name too long (os error 36)"
  | zeroCharacter => "file name contained an unexpected NUL byte"

/-- The number of bytes that a path has at most. -/
def Path.limit : Nat := 4095

/-- Why a path is not even looked up, if so. A zero character is found before a length is. -/
def Path.refused? (path : Path) : Option PathError :=
  let text := path.text.toList
  if text.any fun c => c.toNat == 0 then some .zeroCharacter
  else if Path.limit < Text.byteLength text then some .nameTooLong
  else none

/-- A path at which a walk ended early, and the reason. -/
structure WalkError where
  place : Path
  reason : PathError
deriving DecidableEq, Repr, Inhabited

/-- A file that was found: the path by which it was reached and its full path. -/
structure FoundFile where
  reached : Path
  location : Path
deriving DecidableEq, Repr, Inhabited

/-- What lies at a path: a file, or a directory with the files under it. -/
inductive Reached where
  | file (found : FoundFile)
  | directory (files : List FoundFile)
deriving DecidableEq, Repr, Inhabited

/-- All files that were found at or under a path. -/
def Reached.files : Reached → List FoundFile
  | file found => [found]
  | directory files => files

namespace FileTree

/-- The number of bytes that the name of an entry has at most. -/
def nameLimit : Nat := 255

/-- Why there is no entry of the name that a segment gives. -/
def missing (segment : List Char) : PathError :=
  if nameLimit < Text.byteLength segment then .nameTooLong else .notFound

/-- Does a segment lead to the same directory or to the outer one? -/
def isRelative (segment : List Char) : Bool :=
  segment = [] || segment = ['.'] || segment = ['.', '.']

/-- Why segments lead nowhere from a directory outside of the tree: the first name in them
decides. -/
def outside (segments : List (List Char)) : PathError :=
  match segments.dropWhile isRelative with
  | [] => .notFound
  | segment :: _ => missing segment

/-- The entry of a directory with a given name. -/
def entry? (tree : FileTree) (name : String) : Option FileTree :=
  match tree with
  | file _ => none
  | directory entries => (entries.find? fun entry => entry.1 == name).map Prod.snd

/-- Follows segments from a tree whose outer directories are `above`, the nearest first, each with
the name of the entry that was taken in it. -/
def follow (above : List (FileTree × String)) (tree : FileTree) :
    List (List Char) → Except PathError (FileTree × List String)
  | [] => .ok (tree, (above.map Prod.snd).reverse)
  | segment :: rest =>
    match tree with
    | .file _ => .error .notDirectory
    | .directory _ =>
      if segment = [] ∨ segment = ['.'] then follow above tree rest
      else if segment = ['.', '.'] then
        match above with
        | [] => .error (outside rest)
        | (outer, _) :: above => follow above outer rest
      else
        match tree.entry? (String.ofList segment) with
        | none => .error (missing segment)
        | some inner => follow ((tree, String.ofList segment) :: above) inner rest

/-- What a path leads to, and the names of the entries on the shortest way to it. -/
def lookup (tree : FileTree) (path : Path) : Except PathError (FileTree × List String) :=
  match path.refused? with
  | some reason => .error reason
  | none =>
    match Text.segments '/' path.text.toList with
    | [] :: segments => .error (outside segments)
    | segments => follow [] tree segments

mutual

/-- The files at or under a tree. -/
def files (reached location : Path) : FileTree → Except WalkError (List FoundFile)
  | file _ => .ok [⟨reached, location⟩]
  | directory entries =>
    match reached.refused? with
    | some reason => .error ⟨reached, reason⟩
    | none => entriesFiles reached location entries

/-- The files at or under the entries of a directory. -/
def entriesFiles (reached location : Path) :
    List (String × FileTree) → Except WalkError (List FoundFile)
  | [] => .ok []
  | (name, tree) :: entries => do
    let found ← tree.files (reached.join name) (location.join name)
    let others ← entriesFiles reached location entries
    pure (found ++ others)

end

/-- What lies at or under a path, in a tree whose root has the path `root`. -/
def walk (tree : FileTree) (root path : Path) : Except WalkError Reached :=
  match tree.lookup path with
  | .error reason => .error ⟨path, reason⟩
  | .ok (found, names) =>
    let location := names.foldl Path.join root
    match found with
    | file _ => .ok (.file ⟨path, location⟩)
    | directory _ => Reached.directory <$> found.files path location

/-- Puts a tree at the end of a row of names and makes the directories on the way. -/
def insert (content : FileTree) : List String → FileTree → FileTree
  | [], directory entries =>
    match content with
    | file _ => content
    | directory others => .directory (entries ++ others)
  | [], file _ => content
  | name :: names, tree =>
    let entries :=
      match tree with
      | file _ => []
      | directory entries => entries
    let inner := ((entries.find? fun entry => entry.1 == name).map Prod.snd).getD (.directory [])
    let inner := content.insert names inner
    if entries.any fun entry => entry.1 == name then
      .directory (entries.map fun entry => if entry.1 == name then (name, inner) else entry)
    else .directory (entries ++ [(name, inner)])

end FileTree

end GraphSchema
