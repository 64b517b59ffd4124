import GraphSchema.Proofs.Relocation.Reading

/-!
# Relocation of trees

What remains of a tree once its places and the texts of its constructs are taken away is its
skeleton: the kinds of its constructs, how they are nested, and its tokens with their kinds and
texts.  The skeleton of what was read does not depend on where it stands, nor on the text that the
tree is cut from (`Reading.skeleton_move`).
-/

namespace GraphSchema

/-- A tree of constructs over the kinds and texts of tokens. -/
inductive Skeleton where
  | leaf (kind : TokenKind) (text : String)
  | node (kind : ConstructKind) (parts : List Skeleton)
deriving Inhabited

namespace Fragment

mutual

/-- The skeleton of a fragment. -/
def skeleton : Fragment → Skeleton
  | token leaf => .leaf leaf.kind leaf.text
  | construct kind _ _ _ parts => .node kind (skeletons parts)

/-- The skeletons of a row of fragments. -/
def skeletons : List Fragment → List Skeleton
  | [] => []
  | part :: parts => part.skeleton :: skeletons parts

end

theorem skeletons_eq_map (parts : List Fragment) : skeletons parts = parts.map skeleton := by
  induction parts with
  | nil => rfl
  | cons part parts ih => rw [skeletons, ih, List.map_cons]

@[simp]
theorem skeleton_token (leaf : Token) : (token leaf).skeleton = .leaf leaf.kind leaf.text := by
  rw [skeleton]

/-- A construct loses its place and its text. -/
@[simp]
theorem skeleton_close (kind : ConstructKind) (place : Cursor) (source : List Char)
    (parts : List Fragment) :
    (close kind place source parts).skeleton = .node kind (parts.map skeleton) := by
  rw [close, skeleton, skeletons_eq_map]

@[simp]
theorem skeleton_made (kind : ConstructKind) (source : List Char) (first : Fragment)
    (others : List Fragment) :
    (made kind source first others).skeleton =
      .node kind (first.skeleton :: others.map skeleton) := by
  rw [made, skeleton_close, List.map_cons]

end Fragment

variable {r : Relocation} (source : List Char) {other : List Char}

/-- A designation is a construct over its tokens. -/
theorem TypeReference.skeleton_move (type : TypeReference) :
    ((type.move r).fragment other).skeleton = (type.fragment source).skeleton := by
  simp [fragment, tokens, move]

theorem TypedName.skeleton_move (kind : ConstructKind) (entry : TypedName) :
    ((entry.move r).fragment kind other).skeleton = (entry.fragment kind source).skeleton := by
  simp [fragment, move, TypeReference.skeleton_move source]

theorem ParameterListing.skeleton_move (listing : ParameterListing) :
    ((listing.move r).fragment other).skeleton = (listing.fragment source).skeleton := by
  simp [fragment, move, List.map_flatMap, List.flatMap_map,
    TypedName.skeleton_move source]

/-- The parts of a signature are its name, its parameters if there are any, and its type. -/
theorem Signature.skeletons_move (signature : Signature) :
    ((signature.move r).fragments other).map Fragment.skeleton =
      (signature.fragments source).map Fragment.skeleton := by
  obtain ⟨name, parameters, type⟩ := signature
  cases parameters <;>
    simp [fragments, move, TypeReference.skeleton_move source,
      ParameterListing.skeleton_move source]

theorem Signature.skeleton_move (signature : Signature) :
    ((signature.move r).fragment other).skeleton = (signature.fragment source).skeleton := by
  rw [fragment, Fragment.skeleton_close, skeletons_move source, fragment,
    Fragment.skeleton_close]

/-- The members of a body have the skeletons of their own constructs. -/
theorem Body.skeletons_move (body : Body) :
    ((body.move r).fragments other).map Fragment.skeleton =
      (body.fragments source).map Fragment.skeleton := by
  cases body <;>
    simp [fragments, move, TypeReference.skeleton_move source,
      TypedName.skeleton_move source, Signature.skeleton_move source]

theorem Body.kind_move (body : Body) : (body.move r).kind = body.kind := by
  cases body <;> rfl

/-- A declaration is a construct of its kind, wherever it stands. -/
theorem Declaration.skeleton_move (declaration : Declaration) :
    ((declaration.move r).fragment other).skeleton = (declaration.fragment source).skeleton := by
  cases declaration with
  | typeAlias => simp [fragment, move]
  | block => simp [fragment, move, Body.kind_move, Body.skeletons_move source]
  | endpoint => simp [fragment, move, Signature.skeletons_move source]

theorem Header.skeleton_move (header : Header) :
    ((header.move r).fragment other).skeleton = (header.fragment source).skeleton := by
  simp [fragment, move]

/-- The skeleton of what was read does not depend on where it stands. -/
theorem Reading.skeleton_move (file : Path) (reading : Reading) :
    ((reading.move r).fragment file other).skeleton =
      (reading.fragment file source).skeleton := by
  match reading with
  | start | headed _ => simp [fragment, move, header?, declarations]
  | body header declarations pending =>
    simp [fragment, move, header?, Reading.declarations, Header.skeleton_move source,
      Declaration.skeleton_move source]

end GraphSchema
