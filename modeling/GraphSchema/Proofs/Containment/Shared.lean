import GraphSchema.Proofs.Containment.Completeness
import GraphSchema.Proofs.Document.Accepted

/-!
# Cycles that are passed over

A loop that the walk closes is not reported if one of its structs belongs to a report, and the loop
may run through structs that are not on the cycle one looks at.  So a cycle can be passed over
although none of its own structs is reported (`Schema.check_passes_over`).  But on every cycle there
is a link that belongs to a loop with a reported struct (`Registry.exists_shared_link`).

The argument is about the first struct of the cycle that the walk leaves.  The next struct of the
cycle was not left before, so it was on the path when the field to it was followed, and that closed
a loop.  The invariant `ContainmentWalk.Untouched` says that no struct of the cycle was left yet and
none of its fields was settled.
-/

namespace GraphSchema

namespace Registry

/-- Links of distinct structs, each leading to the struct of the next one and the last one to that
of the first. -/
structure IsCycle (registry : Registry) (links : List StructLink) : Prop where
  nonempty : links ≠ []
  distinct : (links.map StructLink.structName).Nodup
  linked : Cycle.Chain registry.Linked links

theorem IsReport.isCycle {registry : Registry} {links : List StructLink}
    (h : registry.IsReport links) : registry.IsCycle links :=
  ⟨h.nonempty, h.distinct, h.linked⟩

end Registry

namespace ContainmentWalk

variable {registry : Registry} {walk next : ContainmentWalk}
  {fields : DeclaredType → ContainmentEdge → Prop}

/-! ### What a walk does with a cycle -/

/-- Fields that can be followed without end: where one of them leads, another one begins. -/
structure Endless (registry : Registry) (fields : DeclaredType → ContainmentEdge → Prop) :
    Prop where
  holder : ∀ type edge, fields type edge → type ∈ registry.structs
  edge : ∀ type edge, fields type edge → edge ∈ registry.containment type
  onward : ∀ type edge, fields type edge → ∃ other further, fields other further ∧
    other.id = edge.target

/-- A field was followed around a loop, and some struct of the loop belongs to a report. -/
def Met (registry : Registry) (walk : ContainmentWalk) (type : DeclaredType)
    (edge : ContainmentEdge) : Prop :=
  ∃ frames, IsLoop registry frames ∧
    (∃ frame ∈ frames, frame.type = type ∧ frame.taken.head? = some edge) ∧
    ∃ member ∈ frames, member.type.id ∈ walk.cyclic

/-- No struct with one of the fields was left, and none of them was followed, but for the last ones
of the structs below the end of the path. -/
structure Untouched (fields : DeclaredType → ContainmentEdge → Prop) (walk : ContainmentWalk) :
    Prop where
  unleft : ∀ type edge, fields type edge → walk.visit? type.id ≠ some .done
  top : ∀ frame ∈ walk.path.head?, ∀ edge ∈ frame.taken, ¬ fields frame.type edge
  below : ∀ frame ∈ walk.path.tail, ∀ edge ∈ frame.taken.tail, ¬ fields frame.type edge

theorem Met.mono {type : DeclaredType} {edge : ContainmentEdge} (h : Met registry walk type edge)
    (cyclic : walk.cyclic ⊆ next.cyclic) : Met registry next type edge := by
  obtain ⟨frames, hloop, hframe, member, hmember, hcyclic⟩ := h
  exact ⟨frames, hloop, hframe, member, hmember, cyclic hcyclic⟩

/-- What belongs to a report does so for good. -/
theorem Moves.cyclic_subset (move : Moves registry walk next) : walk.cyclic ⊆ next.cyclic := by
  cases move with
  | @back frame rest edge ahead top first entered =>
    exact cyclic_subset_close (walk.along (frame.follow edge ahead :: rest)) edge.target
  | skip path start entered => exact List.Subset.refl _
  | start path start new => exact List.Subset.refl _
  | leave top spent => exact List.Subset.refl _
  | across top first left => exact List.Subset.refl _
  | down top first new target id => exact List.Subset.refl _

theorem untouched_initial (registry : Registry)
    (fields : DeclaredType → ContainmentEdge → Prop) : Untouched fields (initial registry) := by
  refine ⟨?_, ?_, ?_⟩
  · intro type edge _ hvisit
    cases hvisit
  · intro frame hframe
    cases hframe
  · intro frame hframe
    cases hframe

/-- Entering a struct touches no field. -/
theorem Untouched.enter {type : DeclaredType}
    (unleft : ∀ other edge, fields other edge → walk.visit? other.id ≠ some .done)
    (below : ∀ frame ∈ walk.path, ∀ edge ∈ frame.taken.tail, ¬ fields frame.type edge) :
    Untouched fields (walk.enter registry type) := by
  refine ⟨?_, ?_, below⟩
  · intro other edge hfield
    rw [visit?_enter]
    split
    · exact fun hvisit => by cases hvisit
    · exact unleft other edge hfield
  · intro frame hframe edge hedge
    obtain rfl := Option.some.inj hframe
    cases hedge

/-- A struct that is left has none of the fields, since all its fields were followed. -/
theorem Untouched.leave (h : Untouched fields walk) (endless : Endless registry fields)
    (consistent : registry.Consistent) (path : OnPath registry walk) {frame : ContainmentFrame}
    {rest : List ContainmentFrame} (top : walk.path = frame :: rest) (spent : frame.ahead = []) :
    Untouched fields ((walk.along rest).mark frame.type.id .done) := by
  have hframe : frame ∈ walk.path := by
    rw [top]
    exact List.mem_cons_self ..
  have hnone (other : DeclaredType) (edge : ContainmentEdge) (hfield : fields other edge) :
      other.id ≠ frame.type.id := by
    intro hid
    obtain rfl := consistent.eq_of_id_eq (endless.holder _ _ hfield) (path.structs frame hframe) hid
    have hedge := endless.edge _ _ hfield
    rw [← path.edges frame hframe, spent, List.append_nil, List.mem_reverse] at hedge
    exact h.top frame (by rw [top]; rfl) edge hedge hfield
  have hbelow : ∀ other ∈ rest, ∀ edge ∈ other.taken.tail, ¬ fields other.type edge := by
    intro other hother
    exact h.below other (by rw [top]; exact hother)
  refine ⟨?_, ?_, fun other hother => hbelow other (List.mem_of_mem_tail hother)⟩
  · intro other edge hfield
    rw [visit?_mark, if_neg (hnone other edge hfield)]
    exact h.unleft other edge hfield
  · intro other hother edge hedge hfield
    cases rest with
    | nil => cases hother
    | cons below rest =>
      obtain rfl : below = other := Option.some.inj hother
      have hchain := path.chain
      rw [top] at hchain
      obtain ⟨last, hlast, hid⟩ := (List.isChain_cons_cons.mp hchain).1
      cases htaken : below.taken with
      | nil =>
        rw [htaken] at hedge
        cases hedge
      | cons first taken =>
        rw [htaken] at hedge hlast
        obtain rfl := Option.some.inj hlast
        rcases List.mem_cons.mp hedge with rfl | hedge
        · -- the field that led to the struct which is left
          obtain ⟨onward, further, hfurther, honward⟩ := endless.onward _ _ hfield
          exact hnone onward further hfurther (honward.trans hid)
        · exact hbelow below (List.mem_cons_self ..) edge (by rw [htaken]; exact hedge) hfield

/-- The first of the fields that is settled closes a loop. -/
theorem Untouched.preserved (h : Untouched fields walk) (endless : Endless registry fields)
    (consistent : registry.Consistent) (path : OnPath registry walk)
    (move : Moves registry walk next) :
    Untouched fields next ∨ ∃ type edge, fields type edge ∧ Met registry next type edge := by
  cases move with
  | skip empty start entered => exact .inl ⟨h.unleft, h.top, h.below⟩
  | @start type starts empty start new =>
    refine .inl (Untouched.enter h.unleft ?_)
    intro frame hframe
    rw [path_startingFrom, empty] at hframe
    cases hframe
  | leave top spent => exact .inl (h.leave endless consistent path top spent)
  | @back frame rest edge ahead top first entered =>
    by_cases hfield : fields frame.type edge
    · have hfollow := path.follow top first
      have hback : edge.target ∈ ids (walk.along (frame.follow edge ahead :: rest)).path :=
        (hfollow.entered edge.target).mp entered
      obtain ⟨hloop, hmember⟩ := hfollow.isLoop rfl rfl hback
      exact .inr ⟨frame.type, edge, hfield, _, hloop, ⟨_, hmember, rfl, rfl⟩,
        exists_cyclic_of_close _ _ hloop.nonempty⟩
    · refine .inl ⟨?_, ?_, ?_⟩
      · intro type other hother
        rw [visit?_close]
        exact h.unleft type other hother
      · intro other hother last hlast
        rw [path_close] at hother
        obtain rfl := Option.some.inj hother
        rcases List.mem_cons.mp hlast with rfl | hlast
        · exact hfield
        · exact h.top frame (by rw [top]; rfl) last hlast
      · intro other hother
        rw [path_close] at hother
        exact h.below other (by rw [top]; exact hother)
  | @across frame rest edge ahead top first left =>
    refine .inl ⟨h.unleft, ?_, ?_⟩
    · intro other hother last hlast hfield
      obtain rfl := Option.some.inj hother
      rcases List.mem_cons.mp hlast with rfl | hlast
      · -- it leads to a struct that was left, and the fields lead to none
        obtain ⟨onward, further, hfurther, honward⟩ := endless.onward _ _ hfield
        exact h.unleft onward further hfurther (by rw [honward]; exact left)
      · exact h.top frame (by rw [top]; rfl) last hlast hfield
    · intro other hother
      exact h.below other (by rw [top]; exact hother)
  | @down frame rest edge ahead type top first new target id =>
    refine .inl (Untouched.enter h.unleft ?_)
    intro other hother last hlast
    rcases List.mem_cons.mp hother with rfl | hother
    · exact h.top frame (by rw [top]; rfl) last hlast
    · exact h.below other (by rw [top]; exact hother) last hlast

/-- When the walk has ended, one of the fields belongs to a loop with a reported struct. -/
theorem Endless.exists_met (endless : Endless registry fields) (consistent : registry.Consistent)
    (nonempty : ∃ type edge, fields type edge) :
    ∃ type edge, fields type edge ∧ Met registry (last registry) type edge := by
  have hbegins : Untouched fields (initial registry) ∨
      ∃ type edge, fields type edge ∧ Met registry (initial registry) type edge :=
    .inl (untouched_initial registry fields)
  have hkeeps : ∀ walk next, OnPath registry walk →
      (Untouched fields walk ∨ ∃ type edge, fields type edge ∧ Met registry walk type edge) →
      Moves registry walk next →
      Untouched fields next ∨ ∃ type edge, fields type edge ∧ Met registry next type edge := by
    rintro walk next path (huntouched | ⟨type, edge, hfield, hmet⟩) move
    · exact huntouched.preserved endless consistent path move
    · exact .inr ⟨type, edge, hfield, hmet.mono move.cyclic_subset⟩
  obtain ⟨hpath, hcovers, -⟩ := last_spec consistent
  rcases ((onPath_initial registry).run consistent hbegins hkeeps (bound registry)).2 with
    huntouched | hmet
  · -- every struct was left
    obtain ⟨type, edge, hfield⟩ := nonempty
    exact absurd (hcovers.done_of_finished hpath (finished_run consistent)
      (endless.holder type edge hfield)) (huntouched.unleft type edge hfield)
  · exact hmet

end ContainmentWalk

namespace Registry

variable {registry : Registry} {links : List StructLink}

/-! ### Cycles of links -/

theorem linked_iff {link next : StructLink} :
    registry.Linked link next ↔ ∃ type ∈ registry.structs, ∃ edge ∈ registry.containment type,
      ∃ target ∈ registry.structs, target.id = edge.target ∧
        link = ⟨type.name, edge.field.name, edge.field.position⟩ ∧
        next.structName = target.name := by
  constructor
  · rintro ⟨type, field, target, hcontains, hlink, hnext⟩
    have hedge := (contains_iff hcontains.holder hcontains.held).mp hcontains
    exact ⟨type, hcontains.holder, _, hedge, target, hcontains.held, rfl, hlink, hnext⟩
  · rintro ⟨type, htype, ⟨field, id⟩, hedge, target, htarget, rfl, hlink, hnext⟩
    exact ⟨type, field, target, (contains_iff htype htarget).mpr hedge, hlink, hnext⟩

instance (link next : StructLink) : Decidable (registry.Linked link next) :=
  decidable_of_iff _ linked_iff.symm

theorem isCycle_iff : registry.IsCycle links ↔ (links.map StructLink.structName).Nodup ∧
    ∃ first ∈ links.head?, List.IsChain registry.Linked (links ++ [first]) := by
  constructor
  · rintro ⟨hnonempty, hdistinct, hlinked⟩
    obtain ⟨first, others, rfl⟩ := List.exists_cons_of_ne_nil hnonempty
    exact ⟨hdistinct, first, rfl, Cycle.chain_coe_cons .. |>.mp hlinked⟩
  · rintro ⟨hdistinct, first, hfirst, hchain⟩
    cases links with
    | nil => cases hfirst
    | cons head others =>
      obtain rfl := Option.some.inj hfirst
      exact ⟨List.cons_ne_nil _ _, hdistinct, Cycle.chain_coe_cons .. |>.mpr hchain⟩

instance (links : List StructLink) : Decidable (registry.IsCycle links) :=
  decidable_of_iff _ isCycle_iff.symm

/-- The fields of the links of a cycle. -/
def FieldOf (registry : Registry) (links : List StructLink) (type : DeclaredType)
    (edge : ContainmentEdge) : Prop :=
  ⟨type.name, edge.field.name, edge.field.position⟩ ∈ links ∧ type ∈ registry.structs ∧
    edge ∈ registry.containment type ∧ ∃ target ∈ registry.structs, target.id = edge.target ∧
      ∃ next ∈ links, next.structName = target.name

/-- The fields of a cycle can be followed without end. -/
theorem IsCycle.endless (h : registry.IsCycle links) (consistent : registry.Consistent) :
    ContainmentWalk.Endless registry (registry.FieldOf links) := by
  refine ⟨fun _ _ hfield => hfield.2.1, fun _ _ hfield => hfield.2.2.1, ?_⟩
  rintro type edge ⟨-, -, -, target, htarget, hid, next, hnext, hname⟩
  obtain ⟨further, hfurther, hlinked⟩ := exists_next_of_chain h.linked hnext
  obtain ⟨other, hother, step, hstep, goal, hgoal, hgoalId, rfl, hgoalName⟩ := linked_iff.mp hlinked
  obtain rfl := consistent.eq_of_name_eq hother htarget hname
  exact ⟨other, step, ⟨hnext, hother, hstep, goal, hgoal, hgoalId, further, hfurther, hgoalName⟩,
    hid⟩

theorem IsCycle.exists_field (h : registry.IsCycle links) :
    ∃ type edge, registry.FieldOf links type edge := by
  obtain ⟨link, hlink⟩ := List.exists_mem_of_ne_nil _ h.nonempty
  obtain ⟨next, hnext, hlinked⟩ := exists_next_of_chain h.linked hlink
  obtain ⟨type, htype, edge, hedge, target, htarget, hid, rfl, hname⟩ := linked_iff.mp hlinked
  exact ⟨type, edge, hlink, htype, hedge, target, htarget, hid, next, hnext, hname⟩

/-- On every cycle of structs there is a link that belongs to a cycle with a reported struct. -/
theorem Consistent.exists_shared_link (h : registry.Consistent) (cycle : registry.IsCycle links) :
    ∃ link ∈ links, ∃ loop, registry.IsCycle loop ∧ link ∈ loop ∧
      ∃ report ∈ registry.structCycles, ∃ member ∈ loop,
        member.structName ∈ report.map StructLink.structName := by
  obtain ⟨type, edge, hfield, frames, hloop, ⟨frame, hframe, rfl, hedge⟩, member, hmember,
      hcyclic⟩ :=
    (cycle.endless h).exists_met h cycle.exists_field
  obtain ⟨-, -, loops, hreports⟩ := ContainmentWalk.last_spec h
  refine ⟨_, hfield.1, _, (hloop.isReport h).isCycle, ?_, ?_⟩
  · refine hloop.mem_turned.mpr ⟨frame, hframe, ?_⟩
    rw [ContainmentWalk.linkOf, hedge]
    rfl
  · -- the reported struct belongs to the loop of its report
    rw [hreports.cyclic] at hcyclic
    obtain ⟨others, hothers, hid⟩ := List.mem_flatMap.mp hcyclic
    obtain ⟨other, hother, hid⟩ := List.mem_map.mp hid
    have hreport := hreports.loops others hothers
    have hsame : other.type = member.type :=
      h.eq_of_id_eq (hreport.mem_structs hother) (hloop.mem_structs hmember) hid
    have hcycles : registry.structCycles = loops.map fun frames =>
        ContainmentWalk.turned (frames.filterMap ContainmentWalk.link?) := hreports.cycles
    refine ⟨_, by rw [hcycles]; exact List.mem_map_of_mem hothers, ContainmentWalk.linkOf member,
      hloop.mem_turned.mpr ⟨member, hmember, rfl⟩, List.mem_map.mpr ?_⟩
    exact ⟨ContainmentWalk.linkOf other, hreport.mem_turned.mpr ⟨other, hother, rfl⟩,
      congrArg DeclaredType.name hsame⟩

/-- Whatever is declared, every cycle of structs has a link in common with a cycle one of whose
structs is reported. -/
theorem cycle_shares_link (declarations : List Declaration) {links : List StructLink}
    (cycle : (ofDeclarations declarations).linked.IsCycle links) :
    ∃ link ∈ links, ∃ loop, (ofDeclarations declarations).linked.IsCycle loop ∧ link ∈ loop ∧
      ∃ report ∈ (ofDeclarations declarations).linked.structCycles, ∃ member ∈ loop,
        member.structName ∈ report.map StructLink.structName :=
  (consistent_linked declarations).exists_shared_link cycle

end Registry

namespace Schema

/-! ### A cycle that is passed over -/

/-- `A` contains `W` and `U`, `W` contains itself and `U`, and `U` contains `A`. -/
def overlapping : String :=
  "schema s struct A \x7b w W u U \x7d struct W \x7b w W u U \x7d struct U \x7b a A \x7d query q A"

/-- The cycle of `A` and `U` in `overlapping`. -/
def passedOver : List StructLink :=
  [⟨"A", "u", ⟨24, 1, 25, default⟩⟩, ⟨"U", "a", ⟨62, 1, 63, default⟩⟩]

theorem isCycle_passedOver :
    (Registry.ofDeclarations
      (Reading.ofStream (stream default overlapping)).1.declarations).linked.IsCycle
        passedOver := by
  decide +kernel

/-- The link from `A` to `U` belongs to the cycle of all three structs, and `W` is reported. -/
theorem cycle_shares_link_passedOver : ∃ declarations links,
    (Registry.ofDeclarations declarations).linked.IsCycle links ∧
    ∃ link ∈ links, ∃ loop, (Registry.ofDeclarations declarations).linked.IsCycle loop ∧
      link ∈ loop ∧ ∃ report ∈ (Registry.ofDeclarations declarations).linked.structCycles,
        ∃ member ∈ loop, member.structName ∈ report.map StructLink.structName :=
  ⟨_, _, isCycle_passedOver, Registry.cycle_shares_link _ isCycle_passedOver⟩

/-- The walk goes from `A` over `W`, which is reported for itself, to `U`.  The loop back to `A`
runs through `W`, so it is not reported, and of the cycle of `A` and `U` no struct is. -/
theorem check_passes_over : ∃ document links, (stream default overlapping).Spells document ∧
    (Registry.ofDeclarations document.declarations).linked.IsCycle links ∧
    ∀ link ∈ links, ∀ report ∈ (Registry.ofDeclarations document.declarations).linked.structCycles,
      link.structName ∉ report.map StructLink.structName := by
  have hread : (Reading.ofStream (stream default overlapping)).2 = none := by
    decide +kernel
  have hunreported : ∀ link ∈ passedOver, ∀ report ∈ (Registry.ofDeclarations
      (Reading.ofStream (stream default overlapping)).1.declarations).linked.structCycles,
      link.structName ∉ report.map StructLink.structName := by
    decide +kernel
  have hcycle := isCycle_passedOver
  obtain ⟨document, hspells, hdeclarations⟩ := exists_spells_of_read hread
  rw [hdeclarations] at hcycle hunreported
  exact ⟨document, passedOver, hspells, hcycle, hunreported⟩

end Schema

end GraphSchema
