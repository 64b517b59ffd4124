/-!
# First and repeated occurrences

Names must not be used twice in one namespace. Of the entries of a list, `firsts` keeps those whose
key did not occur before, and `repeats` gives the others, each with the first entry of its key.
-/

namespace GraphSchema

section

variable {α κ : Type} [DecidableEq κ]

/-- The entries whose key occurs neither in `seen` nor before them. -/
def firstsAfter (key : α → κ) (seen : List κ) : List α → List α
  | [] => []
  | entry :: rest =>
    if key entry ∈ seen then firstsAfter key seen rest
    else entry :: firstsAfter key (seen ++ [key entry]) rest

/-- The entries whose key does not occur before them. -/
def firsts (key : α → κ) (entries : List α) : List α :=
  firstsAfter key [] entries

/-- The entries whose key occurs in `seen` or before them, each with the first entry of its key. -/
def repeatsAfter (key : α → κ) (seen : List α) : List α → List (α × α)
  | [] => []
  | entry :: rest =>
    match seen.find? fun earlier => key earlier = key entry with
    | some first => (first, entry) :: repeatsAfter key seen rest
    | none => repeatsAfter key (seen ++ [entry]) rest

/-- The entries whose key occurs before them, each with the first entry of its key. -/
def repeats (key : α → κ) (entries : List α) : List (α × α) :=
  repeatsAfter key [] entries

end

end GraphSchema
