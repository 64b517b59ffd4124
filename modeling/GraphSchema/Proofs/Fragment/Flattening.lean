import GraphSchema.Fragment.Builder
import GraphSchema.Proofs.Descent.Repetition

/-!
# The tokens of a tree

The tokens of a tree are its leaves from left to right (`Fragment.leaves`), and they are found
without recursion (`Fragment.flattens`).  A stack holds the fragments that are still to be visited.
The one on top is taken off; a token is collected, and the parts of a construct are put on the
stack, the last of them first (`Flattening.turn`).

What was collected, followed by the leaves of the stack from its top down, stays the same in every
turn, and the stack loses one node (`Flattening.turn_cases`).  So the turns end with the leaves of
the tree, whatever its depth and its width (`Flattening.repeated_turn`).
-/

namespace GraphSchema

/-! ### Leaves -/

namespace Fragment

mutual

/-- The leaves of a tree from left to right. -/
def leaves : Fragment → List Token
  | token leaf => [leaf]
  | construct _ _ _ _ parts => leavesOf parts

/-- The leaves of a row of trees from left to right. -/
def leavesOf : List Fragment → List Token
  | [] => []
  | part :: parts => part.leaves ++ leavesOf parts

end

theorem leavesOf_append (front back : List Fragment) :
    leavesOf (front ++ back) = leavesOf front ++ leavesOf back := by
  induction front with
  | nil => rfl
  | cons part front ih => rw [List.cons_append, leavesOf, leavesOf, ih, List.append_assoc]

theorem sizes_reverse (parts : List Fragment) : sizes parts.reverse = sizes parts := by
  induction parts with
  | nil => rfl
  | cons part parts ih =>
    rw [List.reverse_cons, sizes_append, ih, sizes, sizes, sizes, Nat.add_zero, Nat.add_comm]

/-- The row of what is still to be visited yields its leaves. -/
theorem tokensOf_eq_leavesOf (row : List Fragment) : tokensOf row = leavesOf row := by
  fun_induction tokensOf row with
  | case1 => rfl
  | case2 leaf rest ih =>
    rw [ih, leavesOf, leaves]
    rfl
  | case3 kind start stop text parts rest ih => rw [ih, leavesOf_append, leavesOf, leaves]

theorem tokens_eq_leaves (fragment : Fragment) : fragment.tokens = fragment.leaves := by
  rw [tokens, tokensOf_eq_leavesOf, leavesOf, leavesOf, List.append_nil]

@[simp] theorem tokensOf_nil : tokensOf [] = [] := by
  rw [tokensOf]

theorem tokensOf_append (front back : List Fragment) :
    tokensOf (front ++ back) = tokensOf front ++ tokensOf back := by
  simp only [tokensOf_eq_leavesOf, leavesOf_append]

theorem tokensOf_cons (part : Fragment) (parts : List Fragment) :
    tokensOf (part :: parts) = part.tokens ++ tokensOf parts :=
  tokensOf_append [part] parts

theorem tokensOf_eq_flatMap (parts : List Fragment) : tokensOf parts = parts.flatMap tokens := by
  induction parts with
  | nil => exact tokensOf_nil
  | cons part parts ih => rw [tokensOf_cons, ih, List.flatMap_cons]

theorem tokensOf_map_token (row : List Token) : tokensOf (row.map .token) = row := by
  induction row with
  | nil => exact tokensOf_nil
  | cons token row ih => rw [List.map_cons, tokensOf, ih]

theorem tokens_close (kind : ConstructKind) (place : Cursor) (source : List Char)
    (parts : List Fragment) : (close kind place source parts).tokens = tokensOf parts := by
  rw [tokens, close, tokensOf, List.append_nil]

end Fragment

/-! ### Builders -/

theorem FragmentBuilder.parts_foldl_push (builder : FragmentBuilder) (pushed : List Fragment) :
    (pushed.foldl push builder).parts = builder.parts ++ pushed := by
  induction pushed generalizing builder with
  | nil => exact (List.append_nil _).symm
  | cons part pushed ih => rw [List.foldl_cons, ih, push, List.append_assoc, List.singleton_append]

/-- A construct that is built consists of the tokens of what was pushed. -/
theorem FragmentBuilder.tokens_finish (kind : ConstructKind) (place : Cursor) (source : List Char)
    (pushed : List Fragment) :
    ((pushed.foldl push (opened kind place)).finish source).tokens =
      pushed.flatMap Fragment.tokens := by
  rw [finish, Fragment.tokens_close, parts_foldl_push, opened, List.nil_append,
    Fragment.tokensOf_eq_flatMap]

/-! ### Turns -/

/-- How far a flattening has come: the tokens that were collected, and a stack of the fragments that
are still to be visited, its top last. -/
structure Flattening where
  collected : List Token
  stack : List Fragment

namespace Flattening

/-- Nothing was visited of a tree. -/
def start (fragment : Fragment) : Flattening :=
  ⟨[], [fragment]⟩

/-- Visits the fragment on top of the stack.  When there is none, all tokens were collected. -/
def turn (state : Flattening) : Progress Flattening (List Token) :=
  match state.stack.getLast? with
  | none => .done state.collected
  | some (.token leaf) => .more ⟨state.collected ++ [leaf], state.stack.dropLast⟩
  | some (.construct _ _ _ _ parts) =>
    .more ⟨state.collected, state.stack.dropLast ++ parts.reverse⟩

/-- The tokens that a flattening comes to. -/
def yield (state : Flattening) : List Token :=
  state.collected ++ Fragment.leavesOf state.stack.reverse

/-- A turn finds the stack empty, or keeps the yield and takes one node from the stack. -/
theorem turn_cases (state : Flattening) :
    (state.turn = .done state.collected ∧ state.stack = []) ∨
      ∃ next, state.turn = .more next ∧ next.yield = state.yield ∧
        Fragment.sizes next.stack + 1 = Fragment.sizes state.stack := by
  obtain ⟨collected, stack⟩ := state
  rcases List.eq_nil_or_concat stack with rfl | ⟨below, top, rfl⟩
  · exact .inl ⟨rfl, rfl⟩
  · rw [List.concat_eq_append]
    right
    cases top with
    | token leaf =>
      refine ⟨⟨collected ++ [leaf], below⟩, ?_, ?_, ?_⟩
      · simp [turn]
      · simp [yield, Fragment.leavesOf, Fragment.leaves]
      · rw [Fragment.sizes_append]
        rfl
    | construct kind start stop text parts =>
      refine ⟨⟨collected, below ++ parts.reverse⟩, ?_, ?_, ?_⟩
      · simp [turn]
      · -- the parts are pushed in reverse, so from the top down they stand in order
        simp [yield, Fragment.leavesOf, Fragment.leaves, Fragment.leavesOf_append]
      · rw [Fragment.sizes_append, Fragment.sizes_append, Fragment.sizes_reverse, Fragment.sizes,
          Fragment.sizes, Fragment.size]
        omega

/-- The turns end, and what was collected then is the yield. -/
theorem repeated_turn (state : Flattening) :
    repeated (some ∘ turn) state = some state.yield := by
  -- the measure is the number of nodes on the whole stack
  induction hsize : Fragment.sizes state.stack generalizing state with
  | zero =>
    rcases state.turn_cases with ⟨hdone, hstack⟩ | ⟨next, -, -, hnext⟩
    · rw [repeated_eq, Function.comp_apply, hdone, yield, hstack]
      exact congrArg some (List.append_nil _).symm
    · omega
  | succ size ih =>
    rcases state.turn_cases with ⟨-, hstack⟩ | ⟨next, hmore, hyield, hnext⟩
    · rw [hstack] at hsize
      cases hsize
    · rw [repeated_eq, Function.comp_apply, hmore]
      exact (ih next (by omega)).trans (congrArg some hyield)

end Flattening

/-! ### Flattening -/

/-- The tokens of a tree are its leaves from left to right.  Taking turns with a stack comes to an
end with them, and if the tree was built, they are the tokens of what was pushed, in this order. -/
structure Fragment.Flattens (fragment : Fragment) : Prop where
  tokens : fragment.tokens = fragment.leaves
  ends : repeated (some ∘ Flattening.turn) (.start fragment) = some fragment.tokens
  built : ∀ (kind : ConstructKind) (place : Cursor) (source : List Char) (pushed : List Fragment),
    fragment = (pushed.foldl FragmentBuilder.push (.opened kind place)).finish source →
      fragment.tokens = pushed.flatMap Fragment.tokens

/-- Flattening a tree with a stack ends, and gives the leaves of the tree from left to right. -/
theorem Fragment.flattens (fragment : Fragment) : fragment.Flattens where
  tokens := fragment.tokens_eq_leaves
  ends := by
    rw [Flattening.repeated_turn, tokens_eq_leaves, Flattening.yield, Flattening.start]
    exact congrArg some (List.append_nil _)
  built := by
    rintro kind place source pushed rfl
    exact FragmentBuilder.tokens_finish kind place source pushed

end GraphSchema
