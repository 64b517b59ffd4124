import GraphSchema.Proofs.Containment.Graph
import GraphSchema.Proofs.Total
import Mathlib.Data.List.Chain

/-!
# The walk over the structs

`ContainmentWalk.Moves` lists what a step of the walk can do; a step of a walk that has not finished
is one of these (`ContainmentWalk.OnPath.moves`).  What a walk keeps is proved move by move.

The first invariant, `ContainmentWalk.OnPath`, says that the stack is a path of the containment
graph: each struct on it was entered by the last field that was followed from the one before, no
struct is on it twice, and the structs on it are those that were entered and not left.

The walk ends: every move lowers `ContainmentWalk.potential`, which counts the structs to start
from, the fields that are still to be followed and the structs that are still to be left.  At the
start it is the bound of the walk, so the walk has finished when its steps are used up
(`ContainmentWalk.finished_run`).
-/

namespace GraphSchema

/-- The frame after its next field was followed. -/
def ContainmentFrame.follow (frame : ContainmentFrame) (edge : ContainmentEdge)
    (ahead : List ContainmentEdge) : ContainmentFrame :=
  ⟨frame.type, edge :: frame.taken, ahead⟩

theorem ContainmentFrame.ahead_follow (frame : ContainmentFrame) (edge : ContainmentEdge)
    (ahead : List ContainmentEdge) : (frame.follow edge ahead).ahead = ahead := rfl

namespace ContainmentWalk

variable {registry : Registry} {walk next : ContainmentWalk}

/-! ### Visits -/

theorem visit?_mark (walk : ContainmentWalk) (id other : TypeId) (visit : Visit) :
    (walk.mark id visit).visit? other = if other = id then some visit else walk.visit? other := by
  unfold visit? mark
  by_cases hid : id = other
  · rw [if_pos hid.symm, List.find?_cons_of_pos (by simpa using hid), Option.map_some]
  · rw [if_neg (Ne.symm hid), List.find?_cons_of_neg (by simpa using hid), List.find?_filter]
    congr 2
    funext entry
    rw [Bool.eq_iff_iff]
    simp only [bne_iff_ne, beq_iff_eq, decide_eq_true_eq]
    constructor
    · exact And.right
    · intro hentry
      exact ⟨fun hsame => hid (hsame.symm.trans hentry), hentry⟩

@[simp]
theorem path_mark (walk : ContainmentWalk) (id : TypeId) (visit : Visit) :
    (walk.mark id visit).path = walk.path := rfl

@[simp]
theorem starts_mark (walk : ContainmentWalk) (id : TypeId) (visit : Visit) :
    (walk.mark id visit).starts = walk.starts := rfl

@[simp]
theorem path_enter (walk : ContainmentWalk) (type : DeclaredType) :
    (walk.enter registry type).path = ⟨type, [], registry.containment type⟩ :: walk.path := rfl

@[simp]
theorem starts_enter (walk : ContainmentWalk) (type : DeclaredType) :
    (walk.enter registry type).starts = walk.starts := rfl

theorem visit?_enter (walk : ContainmentWalk) (type : DeclaredType) (other : TypeId) :
    (walk.enter registry type).visit? other =
      if other = type.id then some .inProgress else walk.visit? other :=
  visit?_mark walk type.id other .inProgress

@[simp]
theorem path_close (walk : ContainmentWalk) (target : TypeId) :
    (walk.close target).path = walk.path := by
  unfold close
  dsimp only
  split <;> rfl

@[simp]
theorem starts_close (walk : ContainmentWalk) (target : TypeId) :
    (walk.close target).starts = walk.starts := by
  unfold close
  dsimp only
  split <;> rfl

@[simp]
theorem visit?_close (walk : ContainmentWalk) (target id : TypeId) :
    (walk.close target).visit? id = walk.visit? id := by
  unfold close
  dsimp only
  split <;> rfl

/-! ### Moves -/

/-- Nothing is left to be done. -/
def Finished (walk : ContainmentWalk) : Prop :=
  walk.path = [] ∧ walk.starts = []

/-- The walk on another path. -/
def along (walk : ContainmentWalk) (path : List ContainmentFrame) : ContainmentWalk :=
  { walk with path }

/-- The walk with other structs to start from. -/
def startingFrom (walk : ContainmentWalk) (starts : List DeclaredType) : ContainmentWalk :=
  { walk with starts }

@[simp]
theorem path_along (walk : ContainmentWalk) (path : List ContainmentFrame) :
    (walk.along path).path = path := rfl

@[simp]
theorem starts_along (walk : ContainmentWalk) (path : List ContainmentFrame) :
    (walk.along path).starts = walk.starts := rfl

@[simp]
theorem path_startingFrom (walk : ContainmentWalk) (starts : List DeclaredType) :
    (walk.startingFrom starts).path = walk.path := rfl

@[simp]
theorem starts_startingFrom (walk : ContainmentWalk) (starts : List DeclaredType) :
    (walk.startingFrom starts).starts = starts := rfl

/-- What a step can do: skip a starting point that was entered before, or enter it; leave a struct;
and follow a field, back to a struct on the path, across to one that was left, or down to a new
one. -/
inductive Moves (registry : Registry) (walk : ContainmentWalk) : ContainmentWalk → Prop
  | skip {type : DeclaredType} {starts : List DeclaredType} (path : walk.path = [])
      (start : walk.starts = type :: starts) (entered : (walk.visit? type.id).isSome) :
      Moves registry walk (walk.startingFrom starts)
  | start {type : DeclaredType} {starts : List DeclaredType} (path : walk.path = [])
      (start : walk.starts = type :: starts) (new : walk.visit? type.id = none) :
      Moves registry walk ((walk.startingFrom starts).enter registry type)
  | leave {frame : ContainmentFrame} {path : List ContainmentFrame}
      (top : walk.path = frame :: path) (spent : frame.ahead = []) :
      Moves registry walk ((walk.along path).mark frame.type.id .done)
  | back {frame : ContainmentFrame} {path : List ContainmentFrame} {edge : ContainmentEdge}
      {ahead : List ContainmentEdge} (top : walk.path = frame :: path)
      (first : frame.ahead = edge :: ahead) (entered : walk.visit? edge.target = some .inProgress) :
      Moves registry walk ((walk.along (frame.follow edge ahead :: path)).close edge.target)
  | across {frame : ContainmentFrame} {path : List ContainmentFrame} {edge : ContainmentEdge}
      {ahead : List ContainmentEdge} (top : walk.path = frame :: path)
      (first : frame.ahead = edge :: ahead) (left : walk.visit? edge.target = some .done) :
      Moves registry walk (walk.along (frame.follow edge ahead :: path))
  | down {frame : ContainmentFrame} {path : List ContainmentFrame} {edge : ContainmentEdge}
      {ahead : List ContainmentEdge} {type : DeclaredType} (top : walk.path = frame :: path)
      (first : frame.ahead = edge :: ahead) (new : walk.visit? edge.target = none)
      (target : type ∈ registry.structs) (id : type.id = edge.target) :
      Moves registry walk ((walk.along (frame.follow edge ahead :: path)).enter registry type)

/-! ### The stack is a path -/

/-- The last field that was followed from the struct of a frame leads to the struct of another. -/
def LeadsTo (frame other : ContainmentFrame) : Prop :=
  ∃ edge ∈ frame.taken.head?, edge.target = other.type.id

/-- The numbers of the structs on a path. -/
def ids (path : List ContainmentFrame) : List TypeId :=
  path.map fun frame => frame.type.id

/-- The stack of a walk is a path of the containment graph on which no struct occurs twice. -/
structure OnPath (registry : Registry) (walk : ContainmentWalk) : Prop where
  starts : ∀ type ∈ walk.starts, type ∈ registry.structs
  structs : ∀ frame ∈ walk.path, frame.type ∈ registry.structs
  edges : ∀ frame ∈ walk.path,
    frame.taken.reverse ++ frame.ahead = registry.containment frame.type
  chain : walk.path.IsChain fun later earlier => LeadsTo earlier later
  distinct : (ids walk.path).Nodup
  entered : ∀ id, walk.visit? id = some .inProgress ↔ id ∈ ids walk.path

theorem onPath_initial (registry : Registry) : OnPath registry (initial registry) := by
  refine ⟨fun _ => id, ?_, ?_, .nil, List.nodup_nil, ?_⟩
  · intro frame hframe
    cases hframe
  · intro frame hframe
    cases hframe
  · intro id
    constructor
    · intro hvisit
      cases hvisit
    · intro hmem
      cases hmem

theorem OnPath.edge_mem (h : OnPath registry walk) {frame : ContainmentFrame}
    (hframe : frame ∈ walk.path) {edge : ContainmentEdge}
    (hedge : edge ∈ frame.taken ∨ edge ∈ frame.ahead) :
    edge ∈ registry.containment frame.type := by
  rw [← h.edges frame hframe, List.mem_append, List.mem_reverse]
  exact hedge

/-- A step of a walk that has not finished is one of the moves. -/
theorem OnPath.moves (h : OnPath registry walk) (consistent : registry.Consistent)
    (unfinished : ¬ walk.Finished) : Moves registry walk (walk.step registry) := by
  unfold step
  split
  case h_1 hpath =>
    split
    case h_1 hstarts => exact absurd ⟨hpath, hstarts⟩ unfinished
    case h_2 type starts hstarts =>
      dsimp only
      split
      case h_1 visit hvisit =>
        exact .skip hpath hstarts (Option.isSome_iff_exists.mpr ⟨visit, hvisit⟩)
      case h_2 hvisit => exact .start hpath hstarts hvisit
  case h_2 frame path hpath =>
    split
    case h_1 hahead => exact .leave hpath hahead
    case h_2 edge ahead hahead =>
      dsimp only
      split
      case h_1 hvisit => exact .back hpath hahead hvisit
      case h_2 hvisit => exact .across hpath hahead hvisit
      case h_3 hvisit =>
        split
        case h_1 type htype =>
          obtain ⟨hmem, hid⟩ := consistent.struct?_eq_some_iff.mp htype
          exact .down hpath hahead hvisit hmem hid
        case h_2 hnone =>
          -- every field that is followed leads to a struct
          exfalso
          have hframe : frame ∈ walk.path := by
            rw [hpath]
            exact List.mem_cons_self ..
          have hedge : edge ∈ registry.containment frame.type :=
            h.edge_mem hframe (.inr (by rw [hahead]; exact List.mem_cons_self ..))
          obtain ⟨target, hid, hcontains⟩ :=
            consistent.exists_contains (h.structs frame hframe) hedge
          have hfound := consistent.struct?_eq_some_iff.mpr ⟨hcontains.held, hid⟩
          rw [hnone] at hfound
          cases hfound

/-- Following a field keeps the path. -/
theorem OnPath.follow (h : OnPath registry walk) {frame : ContainmentFrame}
    {path : List ContainmentFrame} {edge : ContainmentEdge} {ahead : List ContainmentEdge}
    (top : walk.path = frame :: path) (hahead : frame.ahead = edge :: ahead) :
    OnPath registry (walk.along (frame.follow edge ahead :: path)) := by
  obtain ⟨hstarts, hstructs, hedges, hchain, hdistinct, hentered⟩ := h
  rw [top] at hstructs hedges hchain hdistinct hentered
  refine ⟨hstarts, ?_, ?_, ?_, hdistinct, hentered⟩
  · intro other hother
    rcases List.mem_cons.mp hother with rfl | hother
    · exact hstructs frame (List.mem_cons_self ..)
    · exact hstructs other (List.mem_cons_of_mem _ hother)
  · intro other hother
    rcases List.mem_cons.mp hother with rfl | hother
    · have hframe := hedges frame (List.mem_cons_self ..)
      rw [hahead] at hframe
      simpa [ContainmentFrame.follow] using hframe
    · exact hedges other (List.mem_cons_of_mem _ hother)
  · cases path with
    | nil => exact .singleton _
    | cons below path =>
      obtain ⟨hfirst, hrest⟩ := List.isChain_cons_cons.mp hchain
      exact List.isChain_cons_cons.mpr ⟨hfirst, hrest⟩

/-- Entering a new struct keeps the path, if the path leads there. -/
theorem OnPath.enter (h : OnPath registry walk) {type : DeclaredType}
    (htype : type ∈ registry.structs) (new : walk.visit? type.id = none)
    (leads : ∀ frame ∈ walk.path.head?, ∃ edge ∈ frame.taken.head?, edge.target = type.id) :
    OnPath registry (walk.enter registry type) := by
  refine ⟨h.starts, ?_, ?_, ?_, ?_, ?_⟩
  · intro frame hframe
    rcases List.mem_cons.mp hframe with rfl | hframe
    · exact htype
    · exact h.structs frame hframe
  · intro frame hframe
    rcases List.mem_cons.mp hframe with rfl | hframe
    · rfl
    · exact h.edges frame hframe
  · rw [path_enter, List.isChain_cons]
    exact ⟨leads, h.chain⟩
  · rw [path_enter, ids, List.map_cons, List.nodup_cons]
    refine ⟨?_, h.distinct⟩
    intro hmem
    rw [(h.entered type.id).mpr hmem] at new
    cases new
  · intro id
    rw [visit?_enter, path_enter, ids, List.map_cons, List.mem_cons]
    by_cases hid : id = type.id
    · rw [if_pos hid]
      exact ⟨fun _ => .inl hid, fun _ => rfl⟩
    · rw [if_neg hid, h.entered]
      exact ⟨.inr, fun hor => hor.resolve_left hid⟩

/-- Dropping a struct to start from keeps the path. -/
theorem OnPath.startingFrom (h : OnPath registry walk) {type : DeclaredType}
    {starts : List DeclaredType} (start : walk.starts = type :: starts) :
    OnPath registry (walk.startingFrom starts) := by
  refine ⟨?_, h.structs, h.edges, h.chain, h.distinct, h.entered⟩
  intro other hother
  have hmem : other ∈ walk.starts := by
    rw [start]
    exact List.mem_cons_of_mem _ hother
  exact h.starts other hmem

/-- Leaving the last struct keeps the path. -/
theorem OnPath.leave (h : OnPath registry walk) {frame : ContainmentFrame}
    {path : List ContainmentFrame} (top : walk.path = frame :: path) :
    OnPath registry ((walk.along path).mark frame.type.id .done) := by
  obtain ⟨hstarts, hstructs, hedges, hchain, hdistinct, hentered⟩ := h
  rw [top] at hstructs hedges hchain hdistinct hentered
  obtain ⟨hnew, hrest⟩ := List.nodup_cons.mp hdistinct
  refine ⟨hstarts, fun other hother => hstructs other (List.mem_cons_of_mem _ hother),
    fun other hother => hedges other (List.mem_cons_of_mem _ hother), hchain.tail, hrest, ?_⟩
  intro id
  rw [visit?_mark]
  by_cases hid : id = frame.type.id
  · -- the struct that is left is not below itself on the path
    rw [if_pos hid]
    constructor
    · intro hdone
      cases hdone
    · intro hmem
      rw [hid] at hmem
      exact absurd hmem hnew
  · rw [if_neg hid]
    have hiff := hentered id
    rw [ids, List.map_cons, List.mem_cons, or_iff_right hid] at hiff
    exact hiff

/-- Recording a loop keeps the path. -/
theorem OnPath.close (h : OnPath registry walk) (target : TypeId) :
    OnPath registry (walk.close target) := by
  refine ⟨?_, ?_, ?_, ?_, ?_, ?_⟩
  · rw [starts_close]
    exact h.starts
  · rw [path_close]
    exact h.structs
  · rw [path_close]
    exact h.edges
  · rw [path_close]
    exact h.chain
  · rw [path_close]
    exact h.distinct
  · intro id
    rw [path_close, visit?_close]
    exact h.entered id

/-- Every move keeps the path. -/
theorem OnPath.preserved (h : OnPath registry walk) (move : Moves registry walk next) :
    OnPath registry next := by
  cases move with
  | @skip type starts path start entered => exact h.startingFrom start
  | @start type starts path start new =>
    have htype : type ∈ registry.structs :=
      h.starts type (by rw [start]; exact List.mem_cons_self ..)
    refine (h.startingFrom start).enter htype new ?_
    -- nothing leads to a struct that is started from
    intro frame hframe
    rw [path_startingFrom, path] at hframe
    cases hframe
  | @leave frame path top spent => exact h.leave top
  | @back frame path edge ahead top hahead entered => exact (h.follow top hahead).close edge.target
  | @across frame path edge ahead top hahead left => exact h.follow top hahead
  | @down frame path edge ahead type top hahead new target id =>
    refine (h.follow top hahead).enter target (by rw [id]; exact new) ?_
    -- the field that was just followed leads to the struct
    intro other hother
    obtain rfl := Option.some.inj hother
    exact ⟨edge, rfl, id.symm⟩

/-! ### The walk ends -/

/-- The structs that were not entered, each counted once and once more for each of its fields. -/
def unvisited (registry : Registry) (walk : ContainmentWalk) : Nat :=
  total (fun type => if walk.visit? type.id = none then
    1 + (registry.containment type).length else 0) registry.structs

/-- The structs on a path, each counted once and once more for each field that is to be followed. -/
def ahead (path : List ContainmentFrame) : Nat :=
  total (fun frame => 1 + frame.ahead.length) path

/-- A bound on the number of moves that a walk can still make. -/
def potential (registry : Registry) (walk : ContainmentWalk) : Nat :=
  walk.starts.length + unvisited registry walk + ahead walk.path

@[simp]
theorem ahead_cons (frame : ContainmentFrame) (path : List ContainmentFrame) :
    ahead (frame :: path) = 1 + frame.ahead.length + ahead path := rfl

theorem unvisited_mark_le (registry : Registry) (walk : ContainmentWalk) (id : TypeId)
    (visit : Visit) :
    unvisited registry (walk.mark id visit) ≤ unvisited registry walk := by
  unfold unvisited
  apply total_le_total
  intro type _
  rw [visit?_mark]
  by_cases hid : type.id = id
  · rw [if_pos hid]
    exact Nat.zero_le _
  · rw [if_neg hid]

/-- A struct that is entered is counted no more. -/
theorem unvisited_enter_le {type : DeclaredType} (htype : type ∈ registry.structs)
    (new : walk.visit? type.id = none) :
    unvisited registry (walk.enter registry type) + (1 + (registry.containment type).length) ≤
      unvisited registry walk := by
  unfold unvisited
  refine total_add_le_total htype ?_ ?_
  · rw [visit?_enter, if_pos rfl, if_pos new]
    simp
  · intro other _
    rw [visit?_enter]
    by_cases hid : other.id = type.id
    · rw [if_pos hid]
      exact Nat.zero_le _
    · rw [if_neg hid]

/-- Every move lowers the potential. -/
theorem Moves.potential_lt (move : Moves registry walk next)
    (starts : ∀ type ∈ walk.starts, type ∈ registry.structs) :
    potential registry next < potential registry walk := by
  unfold potential
  cases move with
  | @skip type starts path start entered =>
    -- a struct to start from less
    have hsame : unvisited registry (walk.startingFrom starts) = unvisited registry walk := rfl
    rw [hsame, start, starts_startingFrom, path_startingFrom, List.length_cons]
    omega
  | @start type others path start new =>
    -- the struct and its fields move from the unvisited to the path
    have htype : type ∈ registry.structs := starts type (by rw [start]; exact List.mem_cons_self ..)
    have hle : unvisited registry ((walk.startingFrom others).enter registry type) +
        (1 + (registry.containment type).length) ≤ unvisited registry walk :=
      unvisited_enter_le htype new
    rw [start, path, starts_enter, path_enter, ahead_cons, starts_startingFrom, path_startingFrom,
      path, List.length_cons]
    dsimp only
    omega
  | @leave frame path top spent =>
    -- the frame is gone from the path
    have hle := unvisited_mark_le registry (walk.along path) frame.type.id .done
    have hsame : unvisited registry (walk.along path) = unvisited registry walk := rfl
    rw [top, ahead_cons, starts_mark, path_mark, starts_along, path_along]
    omega
  | @back frame path edge ahead top first entered =>
    -- a field less is to be followed, here and across
    have hsame : unvisited registry
        ((walk.along (frame.follow edge ahead :: path)).close edge.target) =
        unvisited registry walk := by
      unfold unvisited
      congr 1
      funext type
      rw [visit?_close]
      rfl
    rw [top, hsame, starts_close, path_close, starts_along, path_along, ahead_cons, ahead_cons,
      first, List.length_cons, ContainmentFrame.ahead_follow]
    omega
  | @across frame path edge ahead top first left =>
    have hsame : unvisited registry (walk.along (frame.follow edge ahead :: path)) =
        unvisited registry walk := rfl
    rw [top, hsame, starts_along, path_along, ahead_cons, ahead_cons, first, List.length_cons,
      ContainmentFrame.ahead_follow]
    omega
  | @down frame path edge ahead type top first new target id =>
    have hle : unvisited registry
        ((walk.along (frame.follow edge ahead :: path)).enter registry type) +
        (1 + (registry.containment type).length) ≤ unvisited registry walk :=
      unvisited_enter_le target (by rw [id]; exact new)
    rw [top, starts_enter, path_enter, starts_along, path_along, ahead_cons, ahead_cons, ahead_cons,
      first, List.length_cons, ContainmentFrame.ahead_follow]
    dsimp only
    omega

/-! ### Runs -/

theorem Finished.step_eq (h : walk.Finished) (registry : Registry) : walk.step registry = walk := by
  rw [step, h.1]
  dsimp only
  rw [h.2]

theorem Finished.run_eq (h : walk.Finished) (registry : Registry) (steps : Nat) :
    run registry steps walk = walk := by
  induction steps with
  | zero => rfl
  | succ steps ih => rw [run, h.step_eq, ih]

/-- What every move keeps is kept by a run. -/
theorem OnPath.run {Keeps : ContainmentWalk → Prop} (h : OnPath registry walk)
    (consistent : registry.Consistent) (begins : Keeps walk)
    (move : ∀ walk next, OnPath registry walk → Keeps walk → Moves registry walk next → Keeps next)
    (steps : Nat) :
    OnPath registry (ContainmentWalk.run registry steps walk) ∧
      Keeps (ContainmentWalk.run registry steps walk) := by
  induction steps generalizing walk with
  | zero => exact ⟨h, begins⟩
  | succ steps ih =>
    by_cases hfinished : walk.Finished
    · rw [hfinished.run_eq]
      exact ⟨h, begins⟩
    · have hmove := h.moves consistent hfinished
      exact ih (h.preserved hmove) (move _ _ h begins hmove)

/-- A walk has finished after as many steps as its potential says. -/
theorem OnPath.finished (h : OnPath registry walk) (consistent : registry.Consistent) {steps : Nat}
    (enough : potential registry walk ≤ steps) :
    (ContainmentWalk.run registry steps walk).Finished := by
  induction steps generalizing walk with
  | zero =>
    unfold potential at enough
    constructor
    · cases hpath : walk.path with
      | nil => exact hpath
      | cons frame path =>
        rw [hpath, ahead_cons] at enough
        omega
    · apply List.eq_nil_of_length_eq_zero
      rw [ContainmentWalk.run]
      omega
  | succ steps ih =>
    by_cases hfinished : walk.Finished
    · rw [hfinished.run_eq]
      exact hfinished
    · have hmove := h.moves consistent hfinished
      have hless := hmove.potential_lt h.starts
      exact ih (h.preserved hmove) (by omega)

theorem potential_initial (registry : Registry) :
    potential registry (initial registry) = bound registry := by
  have hsum (types : List DeclaredType) :
      types.length + total (fun type => 1 + (registry.containment type).length) types =
        total (fun type => 2 + (registry.containment type).length) types := by
    induction types with
    | nil => rfl
    | cons type types ih =>
      rw [total_cons, total_cons, List.length_cons]
      omega
  exact hsum registry.structs

/-- The bound of the walk suffices. -/
theorem finished_run (consistent : registry.Consistent) :
    (run registry (bound registry) (initial registry)).Finished :=
  (onPath_initial registry).finished consistent (potential_initial registry).le

end ContainmentWalk

end GraphSchema
