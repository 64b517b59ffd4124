import GraphSchema.Proofs.Containment.Turning
import GraphSchema.Proofs.Containment.Walk
import GraphSchema.Proofs.Steps

/-!
# Loops on the path

A field that leads back to a struct on the path closes a loop: from that struct along the path to
its end, and by the field back again (`ContainmentWalk.OnPath.isLoop`).  The reports of a walk are
loops, turned, and no struct belongs to two of them (`ContainmentWalk.Reports`); every move keeps
this (`ContainmentWalk.exists_reports_of_moves`).  What a report says about the containment graph is
`Registry.IsReport`.
-/

namespace GraphSchema

namespace Registry

/-- The field of a link leads from its struct to the struct of the next link. -/
def Linked (registry : Registry) (link next : StructLink) : Prop :=
  ∃ type field target, registry.Contains type field target ∧
    link = ⟨type.name, field.name, field.position⟩ ∧ next.structName = target.name

/-- A report is a cycle of distinct structs, each containing the next one by the field of its link.
It begins with the least name, and it is what any rotation of it is turned into. -/
structure IsReport (registry : Registry) (links : List StructLink) : Prop where
  nonempty : links ≠ []
  distinct : (links.map StructLink.structName).Nodup
  linked : Cycle.Chain registry.Linked links
  least : ∀ first ∈ links.head?, ∀ other ∈ links, first.structName ≤ other.structName
  canonical : ∀ others, others ~r links → ContainmentWalk.turned others = links

end Registry

namespace ContainmentWalk

variable {registry : Registry} {walk next : ContainmentWalk}

/-- The field that was followed last from the struct of a frame leads to the struct of another. -/
def Hop (registry : Registry) (frame other : ContainmentFrame) : Prop :=
  ∃ edge ∈ frame.taken.head?, registry.Contains frame.type edge.field other.type

/-- Frames of distinct structs, each leading to the next one and the last one to the first. -/
structure IsLoop (registry : Registry) (frames : List ContainmentFrame) : Prop where
  nonempty : frames ≠ []
  distinct : (ids frames).Nodup
  chain : Cycle.Chain (Hop registry) frames

/-! ### The links of a loop -/

/-- The link of a frame. -/
def linkOf (frame : ContainmentFrame) : StructLink :=
  ⟨frame.type.name, (frame.taken.head?.map fun edge => edge.field.name).getD "",
    (frame.taken.head?.map fun edge => edge.field.position).getD default⟩

theorem Hop.link? {frame other : ContainmentFrame} (h : Hop registry frame other) :
    ContainmentWalk.link? frame = some (linkOf frame) := by
  obtain ⟨edge, hedge, -⟩ := h
  rw [ContainmentWalk.link?, linkOf, Option.mem_def.mp hedge]
  rfl

theorem Hop.linked {frame other : ContainmentFrame} (h : Hop registry frame other) :
    registry.Linked (linkOf frame) (linkOf other) := by
  obtain ⟨edge, hedge, hcontains⟩ := h
  refine ⟨frame.type, edge.field, other.type, hcontains, ?_, rfl⟩
  rw [linkOf, Option.mem_def.mp hedge]
  rfl

/-- Every frame of a loop leads to one of the loop. -/
theorem IsLoop.exists_hop {frames : List ContainmentFrame} (h : IsLoop registry frames)
    {frame : ContainmentFrame} (hframe : frame ∈ frames) :
    ∃ other, Hop registry frame other := by
  obtain ⟨other, -, hhop⟩ := exists_next_of_chain h.chain hframe
  exact ⟨other, hhop⟩

/-- The structs of a loop contain one another. -/
theorem IsLoop.within {frames : List ContainmentFrame} (h : IsLoop registry frames)
    {frame other : ContainmentFrame} (hframe : frame ∈ frames) (hother : other ∈ frames) :
    Relation.TransGen registry.Within frame.type other.type := by
  have hchain : Cycle.Chain
      (fun a b : ContainmentFrame => Relation.TransGen registry.Within a.type b.type) frames := by
    refine h.chain.imp ?_
    rintro a b ⟨edge, -, hcontains⟩
    exact .single ⟨edge.field, hcontains⟩
  -- along a cycle, a transitive relation holds between any two
  have htrans : IsTrans ContainmentFrame
      fun a b => Relation.TransGen registry.Within a.type b.type :=
    ⟨fun _ _ _ hab hbc => hab.trans hbc⟩
  exact Cycle.chain_iff_pairwise.mp hchain frame hframe other hother

theorem IsLoop.mem_structs {frames : List ContainmentFrame} (h : IsLoop registry frames)
    {frame : ContainmentFrame} (hframe : frame ∈ frames) : frame.type ∈ registry.structs := by
  obtain ⟨other, edge, -, hcontains⟩ := h.exists_hop hframe
  exact hcontains.holder

theorem IsLoop.filterMap_link? {frames : List ContainmentFrame} (h : IsLoop registry frames) :
    frames.filterMap ContainmentWalk.link? = frames.map linkOf := by
  rw [← List.filterMap_eq_map]
  apply List.filterMap_congr
  intro frame hframe
  obtain ⟨other, hhop⟩ := h.exists_hop hframe
  exact hhop.link?

/-- The turned links of a loop are a report. -/
theorem IsLoop.isReport (consistent : registry.Consistent) {frames : List ContainmentFrame}
    (h : IsLoop registry frames) :
    registry.IsReport (turned (frames.filterMap ContainmentWalk.link?)) := by
  rw [h.filterMap_link?]
  have hnonempty : frames.map linkOf ≠ [] := by
    intro hnil
    exact h.nonempty (List.map_eq_nil_iff.mp hnil)
  have hdistinct : ((frames.map linkOf).map StructLink.structName).Nodup := by
    rw [List.map_map]
    -- distinct numbers are distinct names
    refine List.Nodup.map_on ?_ h.distinct.of_map
    intro frame hframe other hother hname
    have htype := consistent.eq_of_name_eq (h.mem_structs hframe) (h.mem_structs hother) hname
    exact List.inj_on_of_nodup_map h.distinct hframe hother (congrArg DeclaredType.id htype)
  have hchain : Cycle.Chain registry.Linked (frames.map linkOf : List StructLink) := by
    have hmap : Cycle.Chain registry.Linked ((frames : Cycle ContainmentFrame).map linkOf) := by
      rw [Cycle.chain_map]
      exact h.chain.imp fun _ _ hhop => hhop.linked
    exact hmap
  obtain ⟨first, others, hturned, hrotated, hleast⟩ := turned_spec hnonempty
  refine ⟨?_, ?_, ?_, ?_, ?_⟩
  · rw [hturned]
    exact List.cons_ne_nil _ _
  · exact (hrotated.map StructLink.structName).nodup_iff.mp hdistinct
  · rw [← Cycle.coe_eq_coe.mpr hrotated]
    exact hchain
  · intro head hhead other hother
    rw [hturned, List.head?_cons] at hhead
    obtain rfl := Option.some.inj hhead
    exact hleast other (hrotated.mem_iff.mpr hother)
  · -- wherever the walk entered the loop, it is turned into the same links
    intro others hothers
    exact (turned_eq_of_isRotated (hrotated.trans hothers.symm) hdistinct).symm

/-! ### Closing a loop -/

theorem loop_eq {path : List ContainmentFrame} {target : TypeId} (h : target ∈ ids path) :
    ∃ later frame earlier, path = later ++ frame :: earlier ∧ frame.type.id = target ∧
      loop path target = frame :: later.reverse := by
  have hexists : ∃ frame ∈ path, (frame.type.id == target) = true := by
    obtain ⟨frame, hframe, hid⟩ := List.mem_map.mp h
    exact ⟨frame, hframe, by simpa using hid⟩
  obtain ⟨later, frame, earlier, hpath, hid, hlater⟩ := exists_first hexists
  refine ⟨later, frame, earlier, hpath, by simpa using hid, ?_⟩
  have hwhile : (path.takeWhile fun frame => frame.type.id != target) = later := hlater
  unfold loop
  dsimp only
  rw [hwhile, hpath, List.drop_left, List.take_succ_cons, List.take_zero, List.reverse_append]
  rfl

/-- A loop ends at the end of the path. -/
theorem getLast?_loop {frame : ContainmentFrame} {path : List ContainmentFrame} {target : TypeId}
    (h : target ∈ ids (frame :: path)) :
    (loop (frame :: path) target).getLast? = some frame := by
  obtain ⟨later, first, earlier, hpath, -, hloop⟩ := loop_eq h
  rw [hloop]
  cases later with
  | nil => rw [(List.cons.inj hpath).1, List.reverse_nil, List.getLast?_singleton]
  | cons other later =>
    rw [(List.cons.inj hpath).1, List.reverse_cons, ← List.cons_append, List.getLast?_concat]

/-- On a path every struct leads to the next one. -/
theorem OnPath.chain_hop (h : OnPath registry walk) :
    walk.path.IsChain fun later earlier => Hop registry earlier later := by
  refine h.chain.imp_of_mem_imp ?_
  rintro later earlier hlater hearlier ⟨edge, hedge, hid⟩
  have hmem := h.edge_mem hearlier (.inl (List.mem_of_mem_head? hedge))
  refine ⟨edge, hedge, (Registry.contains_iff (h.structs earlier hearlier)
    (h.structs later hlater)).mpr ?_⟩
  rw [← hid]
  exact hmem

/-- A field that leads back to a struct on the path closes a loop, to which the last struct
belongs. -/
theorem OnPath.isLoop (h : OnPath registry walk) {frame : ContainmentFrame}
    {path : List ContainmentFrame} {edge : ContainmentEdge} (top : walk.path = frame :: path)
    (last : frame.taken.head? = some edge) (back : edge.target ∈ ids walk.path) :
    IsLoop registry (loop walk.path edge.target) ∧ frame ∈ loop walk.path edge.target := by
  obtain ⟨later, first, earlier, hpath, hid, hloop⟩ := loop_eq back
  have hsegment : (later ++ [first]).reverse = first :: later.reverse := by
    rw [List.reverse_append]
    rfl
  have hhead : (later ++ [first]).head? = some frame := by
    rw [← List.getLast?_reverse, hsegment, ← hloop, top]
    rw [top] at back
    exact getLast?_loop back
  have hfirst : first ∈ walk.path := by
    rw [hpath]
    simp
  have hframe : frame ∈ walk.path := by
    rw [top]
    exact List.mem_cons_self ..
  -- the last struct leads back to the first one
  have hback : Hop registry frame first := by
    refine ⟨edge, last, (Registry.contains_iff (h.structs frame hframe)
      (h.structs first hfirst)).mpr ?_⟩
    rw [hid]
    exact h.edge_mem hframe (.inl (List.mem_of_mem_head? last))
  have hprefix : (later ++ [first]).IsChain fun later earlier => Hop registry earlier later := by
    have hchain := h.chain_hop
    rw [hpath, List.append_cons] at hchain
    exact (List.isChain_append.mp hchain).1
  rw [hloop]
  refine ⟨⟨List.cons_ne_nil _ _, ?_, ?_⟩, ?_⟩
  · rw [← hsegment, ids, List.map_reverse, List.nodup_reverse]
    have hdistinct := h.distinct
    rw [hpath, List.append_cons, ids, List.map_append] at hdistinct
    exact (List.nodup_append.mp hdistinct).1
  · rw [Cycle.chain_coe_cons, ← List.cons_append, ← hsegment, List.isChain_append]
    refine ⟨List.isChain_reverse.mpr hprefix, .singleton _, ?_⟩
    intro other hother target htarget
    rw [List.getLast?_reverse, hhead] at hother
    obtain rfl := Option.some.inj hother
    obtain rfl := Option.some.inj htarget
    exact hback
  · rw [← hsegment, List.mem_reverse]
    exact List.mem_of_mem_head? hhead

/-! ### Reports -/

/-- The reports of a walk are the turned links of loops, and the structs that belong to a report are
those of the loops, each of which belongs to one only. -/
structure Reports (registry : Registry) (walk : ContainmentWalk)
    (loops : List (List ContainmentFrame)) : Prop where
  cycles : walk.cycles = loops.map fun frames => turned (frames.filterMap link?)
  cyclic : walk.cyclic = loops.flatMap ids
  distinct : walk.cyclic.Nodup
  loops : ∀ frames ∈ loops, IsLoop registry frames

theorem reports_initial (registry : Registry) : Reports registry (initial registry) [] := by
  refine ⟨rfl, rfl, List.nodup_nil, ?_⟩
  intro frames hframes
  cases hframes

/-- Noting a loop keeps the reports as they should be. -/
theorem Reports.close {loops : List (List ContainmentFrame)} (h : Reports registry walk loops)
    {target : TypeId} (isLoop : IsLoop registry (loop walk.path target)) :
    ∃ others, Reports registry (walk.close target) others := by
  unfold ContainmentWalk.close
  dsimp only
  by_cases hany : (((loop walk.path target).map fun frame => frame.type.id).any
      fun id => walk.cyclic.contains id) = true
  · -- a struct of the loop was reported before
    rw [if_pos hany]
    exact ⟨loops, h⟩
  · rw [if_neg hany]
    have hnew : ∀ id ∈ ids (loop walk.path target), id ∉ walk.cyclic := by
      simpa [ids] using hany
    refine ⟨loops ++ [loop walk.path target], ?_, ?_, ?_, ?_⟩
    · rw [List.map_append, h.cycles]
      rfl
    · rw [List.flatMap_append, List.flatMap_singleton, h.cyclic]
      rfl
    · refine h.distinct.append isLoop.distinct ?_
      intro id hold hid
      exact hnew id hid hold
    · intro frames hframes
      rcases List.mem_append.mp hframes with hframes | hframes
      · exact h.loops frames hframes
      · rw [List.mem_singleton.mp hframes]
        exact isLoop

/-- After a loop was closed, one of its structs belongs to a report. -/
theorem exists_cyclic_of_close (walk : ContainmentWalk) (target : TypeId)
    (nonempty : loop walk.path target ≠ []) :
    ∃ frame ∈ loop walk.path target, frame.type.id ∈ (walk.close target).cyclic := by
  unfold close
  dsimp only
  by_cases hany : (((loop walk.path target).map fun frame => frame.type.id).any
      fun id => walk.cyclic.contains id) = true
  · rw [if_pos hany]
    obtain ⟨id, hid, hcyclic⟩ := List.any_eq_true.mp hany
    obtain ⟨frame, hframe, rfl⟩ := List.mem_map.mp hid
    exact ⟨frame, hframe, by simpa using hcyclic⟩
  · rw [if_neg hany]
    obtain ⟨frame, hframe⟩ := List.exists_mem_of_ne_nil _ nonempty
    exact ⟨frame, hframe, List.mem_append_right _ (List.mem_map_of_mem hframe)⟩

theorem cyclic_subset_close (walk : ContainmentWalk) (target : TypeId) :
    walk.cyclic ⊆ (walk.close target).cyclic := by
  unfold close
  dsimp only
  split
  · exact List.Subset.refl _
  · exact List.subset_append_left _ _

/-- Every move keeps the reports as they should be. -/
theorem exists_reports_of_moves (path : OnPath registry walk)
    (h : ∃ loops, Reports registry walk loops) (move : Moves registry walk next) :
    ∃ loops, Reports registry next loops := by
  obtain ⟨loops, hcycles, hcyclic, hdistinct, hloops⟩ := h
  -- only a move back to the path reports anything
  have hsame {other : ContainmentWalk} (sameCycles : other.cycles = walk.cycles)
      (sameCyclic : other.cyclic = walk.cyclic) : ∃ loops, Reports registry other loops :=
    ⟨loops, by rw [sameCycles, hcycles], by rw [sameCyclic, hcyclic],
      by rw [sameCyclic]; exact hdistinct, hloops⟩
  cases move with
  | skip path start entered => exact hsame rfl rfl
  | start path start new => exact hsame rfl rfl
  | leave top spent => exact hsame rfl rfl
  | @back frame rest edge ahead top first entered =>
    have hfollow := path.follow top first
    have hreports : Reports registry (walk.along (frame.follow edge ahead :: rest)) loops :=
      ⟨hcycles, hcyclic, hdistinct, hloops⟩
    have hback : edge.target ∈ ids (walk.along (frame.follow edge ahead :: rest)).path :=
      (hfollow.entered edge.target).mp entered
    exact hreports.close (hfollow.isLoop rfl rfl hback).1
  | across top first left => exact hsame rfl rfl
  | down top first new target id => exact hsame rfl rfl

end ContainmentWalk

end GraphSchema
