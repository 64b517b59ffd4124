import GraphSchema.Proofs.Containment.Loops

/-!
# Every cyclic component is reported

Whether a loop is reported may depend on the loops before, but no cyclic component of the
containment graph is passed over: when the walk leaves a struct that lies on a cycle, some member of
a report and the struct contain each other (`ContainmentWalk.Reported`).  For the fields of the
struct lead to structs that were left before, for which this holds already, or back to the path,
which closes a loop; that a field was settled in one of these ways is `ContainmentWalk.Settled`.

`Registry.CyclesReported` puts together what is known of the reports of a registry.
-/

namespace GraphSchema

namespace ContainmentWalk

variable {registry : Registry} {walk next : ContainmentWalk}

/-- A member of a report and the struct contain each other. -/
def Reported (registry : Registry) (walk : ContainmentWalk) (type : DeclaredType) : Prop :=
  ∃ member ∈ registry.structs, member.id ∈ walk.cyclic ∧
    Relation.ReflTransGen registry.Within type member ∧
    Relation.ReflTransGen registry.Within member type

/-- A field of a struct leads to a struct that was left, unless the struct is reported. -/
def Settled (registry : Registry) (walk : ContainmentWalk) (type : DeclaredType)
    (edge : ContainmentEdge) : Prop :=
  walk.visit? edge.target = some .done ∨ Reported registry walk type

/-- No cyclic component is passed over: what was left is reported if it lies on a cycle, and the
fields that were followed are settled, but for the last ones of the structs below the end of the
path. -/
structure Covers (registry : Registry) (walk : ContainmentWalk) : Prop where
  reached : ∀ type ∈ registry.structs, type ∈ walk.starts ∨ (walk.visit? type.id).isSome
  left : ∀ type ∈ registry.structs, walk.visit? type.id = some .done →
    Relation.TransGen registry.Within type type → Reported registry walk type
  top : ∀ frame ∈ walk.path.head?, ∀ edge ∈ frame.taken, Settled registry walk frame.type edge
  below : ∀ frame ∈ walk.path.tail, ∀ edge ∈ frame.taken.tail,
    Settled registry walk frame.type edge

theorem covers_initial (registry : Registry) : Covers registry (initial registry) := by
  refine ⟨fun _ => .inl, ?_, ?_, ?_⟩
  · intro type _ hvisit
    cases hvisit
  · intro frame hframe
    cases hframe
  · intro frame hframe
    cases hframe

/-! ### What stays -/

theorem Reported.mono {type : DeclaredType} (h : Reported registry walk type)
    (cyclic : walk.cyclic ⊆ next.cyclic) : Reported registry next type := by
  obtain ⟨member, hmember, hcyclic, hreach⟩ := h
  exact ⟨member, hmember, cyclic hcyclic, hreach⟩

theorem Settled.mono {type : DeclaredType} {edge : ContainmentEdge}
    (h : Settled registry walk type edge) (cyclic : walk.cyclic ⊆ next.cyclic)
    (done : ∀ id, walk.visit? id = some .done → next.visit? id = some .done) :
    Settled registry next type edge := by
  rcases h with hdone | hreported
  · exact .inl (done _ hdone)
  · exact .inr (hreported.mono cyclic)

/-- Structs that contain each other are reported together. -/
theorem Reported.of_mutual {type other : DeclaredType} (h : Reported registry walk other)
    (there : Relation.ReflTransGen registry.Within type other)
    (back : Relation.ReflTransGen registry.Within other type) : Reported registry walk type := by
  obtain ⟨member, hmember, hcyclic, hto, hfrom⟩ := h
  exact ⟨member, hmember, hcyclic, there.trans hto, hfrom.trans back⟩

/-! ### Moves -/

/-- A struct on a cycle whose fields are all settled is reported. -/
theorem Covers.reported_of_settled (h : Covers registry walk) {type : DeclaredType}
    (settled : ∀ edge ∈ registry.containment type, Settled registry walk type edge)
    (cycle : Relation.TransGen registry.Within type type) : Reported registry walk type := by
  obtain ⟨other, ⟨field, hcontains⟩, hback⟩ := Relation.TransGen.head'_iff.mp cycle
  have hedge : ⟨field, other.id⟩ ∈ registry.containment type :=
    (Registry.contains_iff hcontains.holder hcontains.held).mp hcontains
  have hstep : registry.Within type other := ⟨field, hcontains⟩
  rcases settled _ hedge with hdone | hreported
  · -- the struct was left before, and lies on the same cycle
    have hother : Relation.TransGen registry.Within other other :=
      Relation.TransGen.tail' hback hstep
    have hreported := h.left other hcontains.held hdone hother
    exact hreported.of_mutual (.single hstep) hback
  · exact hreported

/-- Entering a new struct covers as much as before, if the fields followed so far are settled. -/
theorem Covers.enter {type : DeclaredType} {starts : List DeclaredType}
    (reached : ∀ other ∈ registry.structs,
      other = type ∨ other ∈ starts ∨ (walk.visit? other.id).isSome)
    (same : walk.starts = starts)
    (left : ∀ other ∈ registry.structs, walk.visit? other.id = some .done →
      Relation.TransGen registry.Within other other → Reported registry walk other)
    (below : ∀ frame ∈ walk.path, ∀ edge ∈ frame.taken.tail, Settled registry walk frame.type edge)
    (new : walk.visit? type.id = none) : Covers registry (walk.enter registry type) := by
  have hdone (id : TypeId) (hvisit : walk.visit? id = some .done) :
      (walk.enter registry type).visit? id = some .done := by
    rw [visit?_enter, if_neg, hvisit]
    intro hid
    rw [hid, new] at hvisit
    cases hvisit
  refine ⟨?_, ?_, ?_, ?_⟩
  · intro other hother
    rw [starts_enter, same, visit?_enter]
    by_cases hid : other.id = type.id
    · rw [if_pos hid]
      exact .inr rfl
    · rw [if_neg hid]
      rcases reached other hother with rfl | hor
      · exact absurd rfl hid
      · exact hor
  · intro other hother hvisit hcycle
    rw [visit?_enter] at hvisit
    by_cases hid : other.id = type.id
    · rw [if_pos hid] at hvisit
      cases hvisit
    · rw [if_neg hid] at hvisit
      exact left other hother hvisit hcycle
  · intro frame hframe edge hedge
    rw [path_enter, List.head?_cons] at hframe
    obtain rfl := Option.some.inj hframe
    cases hedge
  · intro frame hframe edge hedge
    rw [path_enter, List.tail_cons] at hframe
    exact (below frame hframe edge hedge).mono (List.Subset.refl _) hdone

/-- A struct that is left is reported if it lies on a cycle, since all its fields are settled. -/
theorem Covers.leave (h : Covers registry walk) (consistent : registry.Consistent)
    (path : OnPath registry walk) {frame : ContainmentFrame} {rest : List ContainmentFrame}
    (top : walk.path = frame :: rest) (spent : frame.ahead = []) :
    Covers registry ((walk.along rest).mark frame.type.id .done) := by
  have hframe : frame ∈ walk.path := by
    rw [top]
    exact List.mem_cons_self ..
  have hsettled : ∀ edge ∈ registry.containment frame.type,
      Settled registry walk frame.type edge := by
    intro edge hedge
    rw [← path.edges frame hframe, spent, List.append_nil, List.mem_reverse] at hedge
    exact h.top frame (by rw [top]; rfl) edge hedge
  have hdone (id : TypeId) (hvisit : walk.visit? id = some .done) :
      ((walk.along rest).mark frame.type.id .done).visit? id = some .done := by
    rw [visit?_mark]
    split
    · rfl
    · exact hvisit
  have hbelow : ∀ other ∈ rest, ∀ edge ∈ other.taken.tail,
      Settled registry ((walk.along rest).mark frame.type.id .done) other.type edge := by
    intro other hother edge hedge
    have hold := h.below other (by rw [top]; exact hother) edge hedge
    exact hold.mono (List.Subset.refl _) hdone
  refine ⟨?_, ?_, ?_, ?_⟩
  · intro other hother
    rw [visit?_mark]
    split
    · exact .inr rfl
    · exact h.reached other hother
  · intro other hother hvisit hcycle
    rw [visit?_mark] at hvisit
    by_cases hid : other.id = frame.type.id
    · -- the struct that is left now
      have hsame := consistent.eq_of_id_eq hother (path.structs frame hframe) hid
      rw [hsame] at hcycle ⊢
      exact h.reported_of_settled hsettled hcycle
    · rw [if_neg hid] at hvisit
      exact h.left other hother hvisit hcycle
  · intro other hother edge hedge
    -- the field that led to the struct is settled now that the struct is left
    cases rest with
    | nil => cases hother
    | cons below rest =>
      obtain rfl : below = other := Option.some.inj hother
      have hchain := path.chain
      rw [top] at hchain
      obtain ⟨last, hlast, hid⟩ := (List.isChain_cons_cons.mp hchain).1
      cases htaken : below.taken with
      | nil =>
        rw [htaken] at hedge
        cases hedge
      | cons first taken =>
        rw [htaken] at hedge hlast
        obtain rfl := Option.some.inj hlast
        rcases List.mem_cons.mp hedge with rfl | hedge
        · refine .inl ?_
          rw [hid, visit?_mark, if_pos rfl]
        · exact hbelow below (List.mem_cons_self ..) edge (by rw [htaken]; exact hedge)
  · intro other hother
    exact hbelow other (List.mem_of_mem_tail hother)

/-- A field that leads back to the path closes a loop, so its struct is reported then. -/
theorem Covers.back (h : Covers registry walk) (path : OnPath registry walk)
    {frame : ContainmentFrame} {rest : List ContainmentFrame} {edge : ContainmentEdge}
    {ahead : List ContainmentEdge} (top : walk.path = frame :: rest)
    (first : frame.ahead = edge :: ahead) (entered : walk.visit? edge.target = some .inProgress) :
    Covers registry ((walk.along (frame.follow edge ahead :: rest)).close edge.target) := by
  have hfollow := path.follow top first
  have hback : edge.target ∈ ids (walk.along (frame.follow edge ahead :: rest)).path :=
    (hfollow.entered edge.target).mp entered
  obtain ⟨hloop, hmember⟩ := hfollow.isLoop rfl rfl hback
  have hcyclic := cyclic_subset_close (walk.along (frame.follow edge ahead :: rest)) edge.target
  have hdone (id : TypeId) (hvisit : walk.visit? id = some .done) :
      ((walk.along (frame.follow edge ahead :: rest)).close edge.target).visit? id =
        some .done := by
    rw [visit?_close]
    exact hvisit
  -- the struct is on the loop, and one struct of the loop belongs to a report
  have hreported : Reported registry
      ((walk.along (frame.follow edge ahead :: rest)).close edge.target) frame.type := by
    obtain ⟨other, hother, hnoted⟩ := exists_cyclic_of_close _ _ hloop.nonempty
    exact ⟨other.type, hloop.mem_structs hother, hnoted,
      (hloop.within hmember hother).to_reflTransGen, (hloop.within hother hmember).to_reflTransGen⟩
  refine ⟨?_, ?_, ?_, ?_⟩
  · intro other hother
    rw [starts_close, visit?_close]
    exact h.reached other hother
  · intro other hother hvisit hcycle
    rw [visit?_close] at hvisit
    exact (h.left other hother hvisit hcycle).mono hcyclic
  · intro other hother edge _
    rw [path_close] at hother
    obtain rfl := Option.some.inj hother
    exact .inr hreported
  · intro other hother edge hedge
    rw [path_close] at hother
    exact (h.below other (by rw [top]; exact hother) edge hedge).mono hcyclic hdone

/-- Every move covers as much as before. -/
theorem Covers.preserved (h : Covers registry walk) (consistent : registry.Consistent)
    (path : OnPath registry walk) (move : Moves registry walk next) : Covers registry next := by
  cases move with
  | @skip type starts empty start entered =>
    refine ⟨?_, h.left, h.top, h.below⟩
    intro other hother
    rcases h.reached other hother with hstart | hvisit
    · rw [start] at hstart
      rcases List.mem_cons.mp hstart with rfl | hstart
      · exact .inr entered
      · exact .inl hstart
    · exact .inr hvisit
  | @start type starts empty start new =>
    refine Covers.enter ?_ rfl h.left ?_ new
    · intro other hother
      rcases h.reached other hother with hstart | hvisit
      · rw [start] at hstart
        rcases List.mem_cons.mp hstart with rfl | hstart
        · exact .inl rfl
        · exact .inr (.inl hstart)
      · exact .inr (.inr hvisit)
    · intro frame hframe
      rw [path_startingFrom, empty] at hframe
      cases hframe
  | leave top spent => exact h.leave consistent path top spent
  | back top first entered => exact h.back path top first entered
  | @across frame rest edge ahead top first left =>
    -- the field leads to a struct that was left before
    refine ⟨h.reached, h.left, ?_, ?_⟩
    · intro other hother last hlast
      obtain rfl := Option.some.inj hother
      rcases List.mem_cons.mp hlast with rfl | hlast
      · exact .inl left
      · exact h.top frame (by rw [top]; rfl) last hlast
    · intro other hother
      exact h.below other (by rw [top]; exact hother)
  | @down frame rest edge ahead type top first new target id =>
    refine Covers.enter (fun other hother => .inr (h.reached other hother)) rfl h.left ?_
      (by rw [id]; exact new)
    -- the field that was followed is not settled yet, so the ones before it are what counts
    intro other hother last hlast
    rcases List.mem_cons.mp hother with rfl | hother
    · exact h.top frame (by rw [top]; rfl) last hlast
    · exact h.below other (by rw [top]; exact hother) last hlast

/-- When the walk has finished, every struct was left. -/
theorem Covers.done_of_finished (h : Covers registry walk) (path : OnPath registry walk)
    (finished : walk.Finished) {type : DeclaredType} (mem : type ∈ registry.structs) :
    walk.visit? type.id = some .done := by
  rcases h.reached type mem with hstart | hvisit
  · -- no struct to start from is left
    rw [finished.2] at hstart
    cases hstart
  · obtain ⟨visit, hvisit⟩ := Option.isSome_iff_exists.mp hvisit
    cases visit with
    | inProgress =>
      -- no struct is on the path
      have hmem := (path.entered type.id).mp hvisit
      rw [finished.1] at hmem
      cases hmem
    | done => exact hvisit

/-- When the walk has finished, every struct on a cycle is reported. -/
theorem Covers.reported (h : Covers registry walk) (path : OnPath registry walk)
    (finished : walk.Finished) {type : DeclaredType}
    (cycle : Relation.TransGen registry.Within type type) : Reported registry walk type := by
  obtain ⟨other, hstep, -⟩ := Relation.TransGen.head'_iff.mp cycle
  have htype : type ∈ registry.structs := hstep.holder
  exact h.left type htype (h.done_of_finished path finished htype) cycle

/-! ### The reports of a registry -/

theorem IsLoop.mem_turned {frames : List ContainmentFrame} (h : IsLoop registry frames)
    {link : StructLink} :
    link ∈ turned (frames.filterMap link?) ↔ ∃ frame ∈ frames, linkOf frame = link := by
  rw [h.filterMap_link?]
  have hnonempty : frames.map linkOf ≠ [] := by
    intro hnil
    exact h.nonempty (List.map_eq_nil_iff.mp hnil)
  obtain ⟨-, -, -, hrotated, -⟩ := turned_spec hnonempty
  rw [← hrotated.mem_iff, List.mem_map]

/-- The state in which the walk over the structs of a registry ends. -/
def last (registry : Registry) : ContainmentWalk :=
  run registry (bound registry) (initial registry)

theorem last_spec (consistent : registry.Consistent) :
    OnPath registry (last registry) ∧ Covers registry (last registry) ∧
      ∃ loops, Reports registry (last registry) loops := by
  have hpath := onPath_initial registry
  have hcovers := hpath.run consistent (covers_initial registry)
    (fun _ _ path keeps move => keeps.preserved consistent path move) (bound registry)
  have hreports := hpath.run consistent ⟨[], reports_initial registry⟩
    (fun _ _ path keeps move => exists_reports_of_moves path keeps move) (bound registry)
  exact ⟨hcovers.1, hcovers.2, hreports.2⟩

/-- A struct that is reported and the members of some report contain each other. -/
theorem Reported.exists_loop (consistent : registry.Consistent)
    {loops : List (List ContainmentFrame)} (h : Reports registry walk loops) {type : DeclaredType}
    (reported : Reported registry walk type) :
    ∃ frames ∈ loops, ∀ frame ∈ frames, Relation.TransGen registry.Within type frame.type ∧
      Relation.TransGen registry.Within frame.type type := by
  obtain ⟨member, hmember, hcyclic, hto, hfrom⟩ := reported
  rw [h.cyclic] at hcyclic
  obtain ⟨frames, hframes, hid⟩ := List.mem_flatMap.mp hcyclic
  obtain ⟨frame, hframe, hid⟩ := List.mem_map.mp hid
  have hloop := h.loops frames hframes
  have hsame : frame.type = member :=
    consistent.eq_of_id_eq (hloop.mem_structs hframe) hmember hid
  rw [← hsame] at hto hfrom
  refine ⟨frames, hframes, ?_⟩
  intro other hother
  exact ⟨Relation.TransGen.trans_right hto (hloop.within hframe hother),
    Relation.TransGen.trans_left (hloop.within hother hframe) hfrom⟩

/-- Different reports have no struct in common. -/
theorem Reports.disjoint (consistent : registry.Consistent) {loops : List (List ContainmentFrame)}
    (h : Reports registry walk loops) :
    walk.cycles.Pairwise fun links others =>
      List.Disjoint (links.map StructLink.structName) (others.map StructLink.structName) := by
  have hdistinct := h.distinct
  rw [h.cyclic, List.nodup_flatMap] at hdistinct
  rw [h.cycles, List.pairwise_map]
  refine hdistinct.2.imp_of_mem ?_
  intro frames others hframes hothers hdisjoint name hname hother
  obtain ⟨link, hlink, rfl⟩ := List.mem_map.mp hname
  obtain ⟨second, hsecond, hsame⟩ := List.mem_map.mp hother
  obtain ⟨frame, hframe, rfl⟩ := (h.loops frames hframes).mem_turned.mp hlink
  obtain ⟨opposite, hopposite, rfl⟩ := (h.loops others hothers).mem_turned.mp hsecond
  have htype := consistent.eq_of_name_eq ((h.loops others hothers).mem_structs hopposite)
    ((h.loops frames hframes).mem_structs hframe) hsame
  refine hdisjoint (List.mem_map_of_mem hframe) ?_
  exact List.mem_map.mpr ⟨opposite, hopposite, congrArg DeclaredType.id htype⟩

end ContainmentWalk

namespace Registry

/-- What is known of the cycles of structs that are reported. -/
structure CyclesReported (registry : Registry) : Prop where
  /-- The walk over the structs ends. -/
  finished : (ContainmentWalk.last registry).Finished
  /-- A name stands for one struct. -/
  names : ∀ type ∈ registry.structs, ∀ other ∈ registry.structs,
    type.name = other.name → type = other
  /-- Every report is a cycle of distinct structs that begins with the least name, wherever it
  began. -/
  sound : ∀ links ∈ registry.structCycles, registry.IsReport links
  /-- Different reports have no struct in common. -/
  disjoint : registry.structCycles.Pairwise fun links others =>
    List.Disjoint (links.map StructLink.structName) (others.map StructLink.structName)
  /-- For every struct on a cycle there is a report whose members and the struct contain each
  other. -/
  complete : ∀ type, Relation.TransGen registry.Within type type →
    ∃ links ∈ registry.structCycles, ∀ link ∈ links, ∃ member, member.name = link.structName ∧
      Relation.TransGen registry.Within type member ∧ Relation.TransGen registry.Within member type
  /-- Nothing is reported if and only if no struct contains itself. -/
  silent : registry.structCycles = [] ↔ ∀ type, ¬ Relation.TransGen registry.Within type type

theorem Consistent.cyclesReported {registry : Registry} (h : registry.Consistent) :
    registry.CyclesReported := by
  obtain ⟨hpath, hcovers, loops, hreports⟩ := ContainmentWalk.last_spec h
  have hfinished : (ContainmentWalk.last registry).Finished := ContainmentWalk.finished_run h
  have hcycles : registry.structCycles =
      loops.map fun frames => ContainmentWalk.turned (frames.filterMap ContainmentWalk.link?) :=
    hreports.cycles
  have hcomplete (type : DeclaredType) (hcycle : Relation.TransGen registry.Within type type) :
      ∃ frames ∈ loops, ∀ frame ∈ frames, Relation.TransGen registry.Within type frame.type ∧
        Relation.TransGen registry.Within frame.type type :=
    (hcovers.reported hpath hfinished hcycle).exists_loop h hreports
  refine ⟨hfinished, fun _ htype _ hother => h.eq_of_name_eq htype hother, ?_, hreports.disjoint h,
    ?_, ?_⟩
  · intro links hlinks
    rw [hcycles] at hlinks
    obtain ⟨frames, hframes, rfl⟩ := List.mem_map.mp hlinks
    exact (hreports.loops frames hframes).isReport h
  · intro type hcycle
    obtain ⟨frames, hframes, hmutual⟩ := hcomplete type hcycle
    refine ⟨_, by rw [hcycles]; exact List.mem_map_of_mem hframes, ?_⟩
    intro link hlink
    obtain ⟨frame, hframe, rfl⟩ := (hreports.loops frames hframes).mem_turned.mp hlink
    exact ⟨frame.type, rfl, hmutual frame hframe⟩
  · rw [hcycles, List.map_eq_nil_iff]
    constructor
    · -- a struct on a cycle would be reported
      intro hnone type hcycle
      obtain ⟨frames, hframes, -⟩ := hcomplete type hcycle
      rw [hnone] at hframes
      cases hframes
    · -- the first struct of a report contains itself
      intro hacyclic
      rw [List.eq_nil_iff_forall_not_mem]
      intro frames hframes
      have hloop := hreports.loops frames hframes
      obtain ⟨frame, hframe⟩ := List.exists_mem_of_ne_nil _ hloop.nonempty
      exact hacyclic frame.type (hloop.within hframe hframe)

/-- The cycles of structs are reported soundly and completely, whatever is declared. -/
theorem cyclesReported_linked (declarations : List Declaration) :
    (ofDeclarations declarations).linked.CyclesReported :=
  (consistent_linked declarations).cyclesReported

end Registry

end GraphSchema
