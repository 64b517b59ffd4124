import GraphSchema.Proofs.Containment.Loops
import GraphSchema.Proofs.Types.AliasWalk

/-!
# The stack of the walk

The walk over the structs counts how many fields of each struct on its stack were followed, and
looks up the last of them by its number when a loop is closed.  `ContainmentWalk.StackKept` is what
makes this safe: the structs that were entered and not left are those on the stack, each once, and
the field of a struct that was followed last leads to the struct above it.  So the struct at which a
loop begins is on the stack, every struct of the loop has a field that was followed, and the last
one leads back to the first (`ContainmentWalk.Closes`).

Behind a struct that was left, everything was visited.  This is not a matter of the stack alone: it
is carried along with the fields that were followed so far (`ContainmentWalk.Followed`).

Since loops are not empty, no report is, and the walk over the aliases finds no empty cycle either:
`Registry.walksSafely_linked`.
-/

namespace GraphSchema

namespace ContainmentFrame

variable {frame : ContainmentFrame} {edge : ContainmentEdge}

/-- The fields of the struct that lead to structs, in order. -/
def edges (frame : ContainmentFrame) : List ContainmentEdge :=
  frame.taken.reverse ++ frame.ahead

/-- The number of the field that is to be followed next. -/
def next (frame : ContainmentFrame) : Nat :=
  frame.taken.length

/-- The field before the next one was followed last. -/
structure HasFollowed (frame : ContainmentFrame) (edge : ContainmentEdge) : Prop where
  counted : 1 ≤ frame.next
  numbered : frame.edges[frame.next - 1]? = some edge

/-- The fields from the next one on are still to be followed. -/
theorem drop_next (frame : ContainmentFrame) : frame.edges.drop frame.next = frame.ahead := by
  rw [edges, next, List.drop_left' List.length_reverse]

theorem hasFollowed_of_head? (h : frame.taken.head? = some edge) : frame.HasFollowed edge := by
  obtain ⟨others, htaken⟩ := List.head?_eq_some_iff.mp h
  have hnext : frame.next = others.length + 1 := by rw [next, htaken, List.length_cons]
  refine ⟨by omega, ?_⟩
  have hedges : frame.edges = others.reverse ++ edge :: frame.ahead := by
    rw [edges, htaken, List.reverse_cons, List.append_assoc, List.singleton_append]
  rw [hnext, hedges, Nat.add_sub_cancel, List.getElem?_append_right (by simp)]
  simp

end ContainmentFrame

namespace ContainmentWalk

variable {registry : Registry} {walk next : ContainmentWalk} {frame : ContainmentFrame}
  {rest path : List ContainmentFrame} {edge : ContainmentEdge} {ahead : List ContainmentEdge}
  {type : DeclaredType} {target : TypeId}

/-! ### Closing a loop -/

/-- A stack on which a loop is closed by a field that leads to the target: the struct is found, and
the loop is the stack from there on.  Every struct of the loop has a field that was followed last,
of which its link is made, and that of the last struct leads to the first one. -/
structure Closes (path : List ContainmentFrame) (target : TypeId) : Prop where
  found : ∃ start, path.reverse.findIdx? (fun frame => frame.type.id == target) = some start ∧
    loop path target = path.reverse.drop start
  followed : ∀ frame ∈ loop path target, ∃ edge, frame.HasFollowed edge ∧
    link? frame = some ⟨frame.type.name, edge.field.name, edge.field.position⟩
  closed : ∃ first last edge, (loop path target).head? = some first ∧
    (loop path target).getLast? = some last ∧ last.HasFollowed edge ∧ edge.target = first.type.id

/-- A struct that is once on a stack is found there. -/
theorem findIdx?_of_mem_ids (distinct : (ids path).Nodup) (h : target ∈ ids path) :
    ∃ start, path.reverse.findIdx? (fun frame => frame.type.id == target) = some start ∧
      loop path target = path.reverse.drop start := by
  obtain ⟨later, frame, earlier, rfl, hid, hloop⟩ := loop_eq h
  refine ⟨earlier.length, ?_, ?_⟩
  · have hearlier : earlier.reverse.findIdx? (fun frame => frame.type.id == target) = none := by
      rw [List.findIdx?_eq_none_iff]
      intro other hother
      rw [beq_eq_false_iff_ne]
      intro hsame
      rw [ids, List.map_append, List.map_cons] at distinct
      have hnew := (List.nodup_cons.mp (List.nodup_append.mp distinct).2.1).1
      refine hnew (List.mem_map.mpr ⟨other, List.mem_reverse.mp hother, ?_⟩)
      rw [hsame, hid]
    rw [List.reverse_append, List.reverse_cons, List.append_assoc, List.findIdx?_append, hearlier,
      List.singleton_append, List.findIdx?_cons, hid]
    simp
  · rw [hloop, List.reverse_append, List.reverse_cons, List.append_assoc, List.singleton_append,
      List.drop_left' List.length_reverse]

theorem head?_loop (h : target ∈ ids path) :
    ∃ first, (loop path target).head? = some first ∧ first.type.id = target := by
  obtain ⟨later, first, earlier, -, hid, hloop⟩ := loop_eq h
  exact ⟨first, by rw [hloop, List.head?_cons], hid⟩

/-- A field that leads back to the stack closes a loop on it. -/
theorem OnPath.closes (h : OnPath registry walk) (top : walk.path = frame :: path)
    (last : frame.taken.head? = some edge) (back : edge.target ∈ ids walk.path) :
    Closes walk.path edge.target := by
  obtain ⟨hloop, -⟩ := h.isLoop top last back
  refine ⟨findIdx?_of_mem_ids h.distinct back, ?_, ?_⟩
  · intro member hmember
    obtain ⟨other, followed, hfollowed, -⟩ := hloop.exists_hop hmember
    refine ⟨followed, ContainmentFrame.hasFollowed_of_head? hfollowed, ?_⟩
    rw [link?, Option.mem_def.mp hfollowed, Option.map_some]
  · obtain ⟨first, hfirst, hid⟩ := head?_loop back
    refine ⟨first, frame, edge, hfirst, ?_, ContainmentFrame.hasFollowed_of_head? last, hid.symm⟩
    rw [top] at back ⊢
    exact getLast?_loop back

/-! ### What was visited -/

/-- The fields that were followed from the structs on the stack, and all fields of the structs that
were left, lead to structs that were visited. -/
structure Followed (registry : Registry) (walk : ContainmentWalk) : Prop where
  taken : ∀ frame ∈ walk.path, ∀ edge ∈ frame.taken, (walk.visit? edge.target).isSome
  left : ∀ type ∈ registry.structs, walk.visit? type.id = some .done →
    ∀ edge ∈ registry.containment type, (walk.visit? edge.target).isSome

theorem followed_initial (registry : Registry) : Followed registry (initial registry) :=
  ⟨nofun, nofun⟩

/-- A mark is never taken away. -/
theorem isSome_visit?_mark (walk : ContainmentWalk) (id : TypeId) (visit : Visit) {other : TypeId} :
    ((walk.mark id visit).visit? other).isSome ↔ other = id ∨ (walk.visit? other).isSome := by
  rw [visit?_mark]
  by_cases hid : other = id
  · simp [hid]
  · simp [hid]

/-- Entering the struct that the field followed last leads to. -/
theorem Followed.enter
    (taken : ∀ frame ∈ walk.path, ∀ edge ∈ frame.taken,
      edge.target = type.id ∨ (walk.visit? edge.target).isSome)
    (left : ∀ type ∈ registry.structs, walk.visit? type.id = some .done →
      ∀ edge ∈ registry.containment type, (walk.visit? edge.target).isSome) :
    Followed registry (walk.enter registry type) := by
  have hvisited {other : TypeId} : ((walk.enter registry type).visit? other).isSome ↔
      other = type.id ∨ (walk.visit? other).isSome :=
    isSome_visit?_mark walk type.id .inProgress
  refine ⟨?_, ?_⟩
  · intro other hother edge hedge
    rw [path_enter] at hother
    rcases List.mem_cons.mp hother with rfl | hother
    · cases hedge
    · exact hvisited.mpr (taken other hother edge hedge)
  · intro other hother hdone edge hedge
    rw [visit?_enter] at hdone
    split at hdone
    case isTrue => cases hdone
    case isFalse => exact hvisited.mpr (.inr (left other hother hdone edge hedge))

/-- Following a field that leads to a struct visited before. -/
theorem Followed.follow (h : Followed registry walk) (top : walk.path = frame :: rest)
    (visited : (walk.visit? edge.target).isSome) :
    Followed registry (walk.along (frame.follow edge ahead :: rest)) := by
  refine ⟨?_, h.left⟩
  have htaken := h.taken
  rw [top] at htaken
  refine List.forall_mem_cons.mpr ⟨?_, (List.forall_mem_cons.mp htaken).2⟩
  exact List.forall_mem_cons.mpr ⟨visited, (List.forall_mem_cons.mp htaken).1⟩

/-- A struct is left when all its fields were followed. -/
theorem Followed.leave (h : Followed registry walk) (consistent : registry.Consistent)
    (path : OnPath registry walk) (top : walk.path = frame :: rest) (spent : frame.ahead = []) :
    Followed registry ((walk.along rest).mark frame.type.id .done) := by
  have hframe : frame ∈ walk.path := by
    rw [top]
    exact List.mem_cons_self
  have hvisited {other : TypeId} (hother : (walk.visit? other).isSome) :
      (((walk.along rest).mark frame.type.id .done).visit? other).isSome :=
    (isSome_visit?_mark _ _ _).mpr (.inr hother)
  refine ⟨?_, ?_⟩
  · intro other hother edge hedge
    have hmem : other ∈ walk.path := by
      rw [top]
      exact List.mem_cons_of_mem _ hother
    exact hvisited (h.taken other hmem edge hedge)
  · intro other hother hdone edge hedge
    rw [visit?_mark] at hdone
    split at hdone
    case isTrue hid =>
      obtain rfl := consistent.eq_of_id_eq hother (path.structs frame hframe) hid
      rw [← path.edges frame hframe, spent, List.append_nil, List.mem_reverse] at hedge
      exact hvisited (h.taken frame hframe edge hedge)
    case isFalse => exact hvisited (h.left other hother hdone edge hedge)

theorem Followed.close (h : Followed registry walk) (target : TypeId) :
    Followed registry (walk.close target) := by
  refine ⟨?_, ?_⟩
  · simpa only [path_close, visit?_close] using h.taken
  · simpa only [visit?_close] using h.left

/-- Every move keeps what was visited behind the fields. -/
theorem Followed.preserved (h : Followed registry walk) (consistent : registry.Consistent)
    (path : OnPath registry walk) (move : Moves registry walk next) : Followed registry next := by
  cases move with
  | skip empty start entered => exact ⟨h.taken, h.left⟩
  | start empty start new =>
    exact Followed.enter (fun frame hframe edge hedge => .inr (h.taken frame hframe edge hedge))
      h.left
  | leave top spent => exact h.leave consistent path top spent
  | back top first entered => exact (h.follow top (Option.isSome_of_mem entered)).close _
  | across top first left => exact h.follow top (Option.isSome_of_mem left)
  | @down frame rest edge ahead type top first new target id =>
    have htaken := h.taken
    rw [top] at htaken
    obtain ⟨hframe, hrest⟩ := List.forall_mem_cons.mp htaken
    refine Followed.enter (List.forall_mem_cons.mpr ⟨?_, ?_⟩) h.left
    · refine List.forall_mem_cons.mpr ⟨.inl id.symm, fun edge hedge => .inr (hframe edge hedge)⟩
    · exact fun frame hmem edge hedge => .inr (hrest frame hmem edge hedge)

/-! ### The invariant -/

/-- What holds of the stack whenever the walk takes a step.  The structs in progress are those on
the stack, each once, with all their fields, of which those from the next one on are still to be
followed.  Below the top, the field that was followed last leads to the struct above, and the fields
of the structs that were left lead to structs that were visited.  When the next field leads back to
the stack, it closes a loop.  No report is empty. -/
structure StackKept (registry : Registry) (walk : ContainmentWalk) : Prop where
  entered : ∀ id, walk.visit? id = some .inProgress ↔ id ∈ ids walk.path
  once : (ids walk.path).Nodup
  edges : ∀ frame ∈ walk.path, frame.edges = registry.containment frame.type ∧
    frame.edges.drop frame.next = frame.ahead
  leads : walk.path.IsChain fun above below =>
    ∃ edge, below.HasFollowed edge ∧ edge.target = above.type.id
  left : ∀ type ∈ registry.structs, walk.visit? type.id = some .done →
    ∀ edge ∈ registry.containment type, (walk.visit? edge.target).isSome
  closes : ∀ frame rest edge ahead, walk.path = frame :: rest → frame.ahead = edge :: ahead →
    walk.visit? edge.target = some .inProgress →
      walk.step registry = (walk.along (frame.follow edge ahead :: rest)).close edge.target ∧
        Closes (frame.follow edge ahead :: rest) edge.target
  nonempty : ∀ links ∈ walk.cycles, links ≠ []

theorem Reports.nonempty (consistent : registry.Consistent) {loops : List (List ContainmentFrame)}
    (h : Reports registry walk loops) : ∀ links ∈ walk.cycles, links ≠ [] := by
  intro links hlinks
  rw [h.cycles] at hlinks
  obtain ⟨frames, hframes, rfl⟩ := List.mem_map.mp hlinks
  exact ((h.loops frames hframes).isReport consistent).nonempty

theorem step_back (top : walk.path = frame :: rest) (first : frame.ahead = edge :: ahead)
    (entered : walk.visit? edge.target = some .inProgress) :
    walk.step registry = (walk.along (frame.follow edge ahead :: rest)).close edge.target := by
  -- the step looks at what was visited after it has put the frame back
  have hvisit : ({ walk with path := frame.follow edge ahead :: rest } : ContainmentWalk).visit?
      edge.target = some .inProgress := entered
  unfold step
  rw [top]
  dsimp only
  rw [first]
  dsimp only
  rw [ContainmentFrame.follow] at hvisit
  rw [hvisit]
  rfl

theorem OnPath.stackKept (h : OnPath registry walk) (consistent : registry.Consistent)
    (followed : Followed registry walk) (reports : ∃ loops, Reports registry walk loops) :
    StackKept registry walk := by
  obtain ⟨loops, hreports⟩ := reports
  refine ⟨h.entered, h.distinct, ?_, ?_, followed.left, ?_, hreports.nonempty consistent⟩
  · exact fun frame hframe => ⟨h.edges frame hframe, frame.drop_next⟩
  · refine h.chain.imp fun above below hleads => ?_
    obtain ⟨edge, hedge, hid⟩ := hleads
    exact ⟨edge, ContainmentFrame.hasFollowed_of_head? hedge, hid⟩
  · intro frame rest edge ahead top first entered
    have hfollow := h.follow top first
    exact ⟨step_back top first entered,
      hfollow.closes rfl rfl ((hfollow.entered edge.target).mp entered)⟩

/-- The invariant holds after every number of steps. -/
theorem stackKept_run (consistent : registry.Consistent) (steps : Nat) :
    StackKept registry (run registry steps (initial registry)) := by
  have hpath := onPath_initial registry
  obtain ⟨hrun, hfollowed⟩ := hpath.run consistent (followed_initial registry)
    (fun _ _ path keeps move => keeps.preserved consistent path move) steps
  obtain ⟨-, hreports⟩ := hpath.run consistent ⟨[], reports_initial registry⟩
    (fun _ _ path keeps move => exists_reports_of_moves path keeps move) steps
  exact hrun.stackKept consistent hfollowed hreports

end ContainmentWalk

namespace Registry

variable {registry : Registry}

/-- The walk over the structs keeps its stack in order at every step, and the walk over the aliases
comes to an end.  A problem is made of each cycle that they find, none of which is empty, and it is
where its first member is.  Those with cycles of aliases are the problems that are reported, in some
order. -/
structure WalksSafely (registry : Registry) : Prop where
  stack : ∀ steps, ContainmentWalk.StackKept registry
    (ContainmentWalk.run registry steps (ContainmentWalk.initial registry))
  structs : List.Forall₂
    (fun links problem => ∃ first others, links = first :: others ∧
      problem = Problem.structCycle first others ∧ problem.position = first.position)
    registry.structCycles registry.structCycleProblems
  aliases : ∃ walk problems, AliasWalk.ofTable? registry.types = some walk ∧
    List.Forall₂
      (fun members problem => members ≠ [] ∧ ∃ first others,
        (first :: others).Perm (members.map fun type => ⟨type.name, type.position⟩) ∧
          problem = Problem.aliasCycle first others ∧ problem.position = first.position)
      walk.cycles problems ∧
    problems.Perm registry.types.aliasCycleProblems

theorem Consistent.walksSafely (h : registry.Consistent) : registry.WalksSafely := by
  refine ⟨ContainmentWalk.stackKept_run h, forall₂_filterMap ?_, ?_⟩
  · intro links hlinks
    have hnonempty : links ≠ [] := (ContainmentWalk.stackKept_run h _).nonempty links hlinks
    obtain ⟨first, others, rfl⟩ := List.exists_cons_of_ne_nil hnonempty
    exact ⟨_, rfl, first, others, rfl, rfl, rfl⟩
  · obtain ⟨walk, hwalk, hlists⟩ := h.types.exists_aliasWalk
    refine ⟨walk, _, hwalk, forall₂_filterMap ?_,
      hlists.problems_perm h.types h.types.listsCycles_aliasCycles⟩
    intro members hmembers
    have hcycle := hlists.sound members hmembers
    obtain ⟨_, hproblem, first, others, rfl, hperm, -⟩ := h.types.aliasCycleProblem?_reports hcycle
    exact ⟨_, hproblem, hcycle.nonempty, first, others, hperm, rfl, rfl⟩

/-- The walks are safe, whatever is declared. -/
theorem walksSafely_linked (declarations : List Declaration) :
    (ofDeclarations declarations).linked.WalksSafely :=
  (consistent_linked declarations).walksSafely

end Registry

end GraphSchema
