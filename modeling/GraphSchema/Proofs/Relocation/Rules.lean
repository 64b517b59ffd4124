import GraphSchema.Analysis.Rules
import GraphSchema.Proofs.Relocation.Registry
import GraphSchema.Proofs.Total

/-!
# Relocation of the rules

What is wrong with the resolved types of a schema moves with the schema (`Registry.problems_move`).
The types are walked by their numbers and compared by their names; the places of what is met are
only copied into the problems.
-/

namespace GraphSchema

variable (r : Relocation)

/-- The edge with its field at its new place. -/
def ContainmentEdge.move (edge : ContainmentEdge) : ContainmentEdge :=
  ⟨edge.field.move r, edge.target⟩

/-- The struct on a path with its fields at their new places. -/
def ContainmentFrame.move (frame : ContainmentFrame) : ContainmentFrame :=
  ⟨frame.type.move r, frame.taken.map (ContainmentEdge.move r),
    frame.ahead.map (ContainmentEdge.move r)⟩

/-- The walk with everything it has met at its new place. -/
def ContainmentWalk.move (walk : ContainmentWalk) : ContainmentWalk :=
  ⟨walk.starts.map (DeclaredType.move r), walk.visits, walk.path.map (ContainmentFrame.move r),
    walk.cycles.map (List.map (StructLink.move r)), walk.cyclic⟩

variable {r}

/-! ### References -/

namespace SchemaType

/-- What an alias stands for is a number, which a relocation leaves as it is. -/
theorem aliased?_move (type : SchemaType) : (type.move r).aliased? = type.aliased? := by
  match type with
  | primitive _ | container _ => rfl
  | declared ⟨_, _, _, body⟩ => cases body <;> rfl

/-- The types that the purity of a type hangs on are numbers too. -/
theorem purityReferences_move (type : SchemaType) :
    (type.move r).purityReferences = type.purityReferences := by
  match type with
  | primitive _ | container _ => rfl
  | declared ⟨_, _, _, body⟩ =>
    cases body with
    | union options => exact List.filterMap_map
    | typeAlias | enum | struct | resolver => rfl

theorem isImpure_move (type : SchemaType) : (type.move r).isImpure = type.isImpure := by
  match type with
  | primitive _ | container _ => rfl
  | declared ⟨_, _, _, body⟩ => cases body <;> rfl

theorem isStruct_move (type : SchemaType) : (type.move r).isStruct = type.isStruct := by
  match type with
  | primitive _ | container _ => rfl
  | declared ⟨_, _, _, body⟩ => cases body <;> rfl

end SchemaType

namespace DeclaredType

theorem aliased?_move (type : DeclaredType) : (type.move r).aliased? = type.aliased? := by
  obtain ⟨_, _, _, body⟩ := type
  cases body <;> rfl

theorem isAlias_move (type : DeclaredType) : (type.move r).isAlias = type.isAlias := by
  obtain ⟨_, _, _, body⟩ := type
  cases body <;> rfl

theorem isStruct_move (type : DeclaredType) : (type.move r).isStruct = type.isStruct := by
  obtain ⟨_, _, _, body⟩ := type
  cases body <;> rfl

/-- The options of a union carry places, and move. -/
theorem options_move (type : DeclaredType) :
    (type.move r).options = type.options.map (UnionOption.move r) := by
  obtain ⟨_, _, _, body⟩ := type
  cases body <;> rfl

/-- The fields of a struct are given by number, and stay. -/
theorem members_move (type : DeclaredType) : (type.move r).members = type.members := by
  obtain ⟨_, _, _, body⟩ := type
  cases body <;> rfl

end DeclaredType

namespace TypeTable

/-- Aliases are followed over the same numbers, by induction on the steps. -/
theorem aliasTargetWithin_move (table : TypeTable) (steps : Nat) (id : TypeId) :
    (table.move r).aliasTargetWithin steps id = table.aliasTargetWithin steps id := by
  induction steps generalizing id with
  | zero => rfl
  | succ steps ih =>
    rw [aliasTargetWithin, aliasTargetWithin, type?_move]
    cases table.type? id with
    | none => rfl
    | some type =>
      simp only [Option.map_some, SchemaType.aliased?_move]
      match type.aliased? with
      | none | some none => rfl
      | some (some next) => exact ih next

theorem length_types_move (table : TypeTable) :
    (table.move r).types.length = table.types.length := by
  rw [types_move, List.length_map]

@[simp]
theorem aliasTarget?_move (table : TypeTable) (id : TypeId) :
    (table.move r).aliasTarget? id = table.aliasTarget? id := by
  rw [aliasTarget?, length_types_move, aliasTargetWithin_move, aliasTarget?]

/-- Aliases and containers on the way to a struct are followed over the same numbers. -/
theorem structTargetWithin_move (table : TypeTable) (steps : Nat) (id : TypeId) :
    (table.move r).structTargetWithin steps id = table.structTargetWithin steps id := by
  induction steps generalizing id with
  | zero => rfl
  | succ steps ih =>
    rw [structTargetWithin, structTargetWithin, type?_move]
    cases table.type? id with
    | none => rfl
    | some type =>
      cases type with
      | primitive type => rfl
      | container type => exact ih type.terminal
      | declared type =>
        have haliased := (SchemaType.declared type).aliased?_move (r := r)
        have hstruct := (SchemaType.declared type).isStruct_move (r := r)
        simp only [SchemaType.move] at haliased hstruct
        simp only [Option.map_some, SchemaType.move, haliased, hstruct]
        rcases (SchemaType.declared type).aliased? with _ | _ | next
        · rfl
        · rfl
        · exact ih next

@[simp]
theorem structTarget?_move (table : TypeTable) (id : TypeId) :
    (table.move r).structTarget? id = table.structTarget? id := by
  rw [structTarget?, length_types_move, structTargetWithin_move, structTarget?]

theorem purityReferences_move (table : TypeTable) (id : TypeId) :
    (table.move r).purityReferences id = table.purityReferences id := by
  rw [purityReferences, type?_move, Option.map_map, purityReferences]
  exact congrArg (fun read => ((table.type? id).map read).getD [])
    (funext SchemaType.purityReferences_move)

theorem isImpure_move (table : TypeTable) (id : TypeId) :
    (table.move r).isImpure id = table.isImpure id := by
  rw [isImpure, type?_move, Option.any_map, isImpure]
  exact congrArg (Option.any · (table.type? id)) (funext SchemaType.isImpure_move)

/-- Purity reads no place, so the walk over references is the same at every step. -/
theorem pureWithin_move (table : TypeTable) (steps : Nat) (visited pending : List TypeId) :
    (table.move r).pureWithin steps visited pending = table.pureWithin steps visited pending := by
  induction steps generalizing visited pending with
  | zero => rfl
  | succ steps ih =>
    cases pending with
    | nil => rfl
    | cons id pending => simp only [pureWithin, ih, isImpure_move, purityReferences_move]

/-- A type is pure wherever its schema stands. -/
@[simp]
theorem isPure_move (table : TypeTable) (id : TypeId) :
    (table.move r).isPure id = table.isPure id := by
  have hbound : (table.move r).purityBound = table.purityBound := by
    rw [purityBound, types_move, total_map, purityBound]
    exact congrArg (fun count : SchemaType → Nat => 1 + total count table.types)
      (funext fun type => congrArg List.length type.purityReferences_move)
  rw [isPure, hbound, pureWithin_move, isPure]

/-! ### Cycles of aliases -/

/-- The alias with a number is the moved one. -/
theorem alias?_move (table : TypeTable) (id : TypeId) :
    (table.move r).alias? id = (table.alias? id).map (DeclaredType.move r) := by
  rw [alias?, type?_move, alias?]
  match table.type? id with
  | none | some (.primitive _) | some (.container _) => rfl
  | some (.declared type) =>
    have halias := type.isAlias_move (r := r)
    simp only [Option.map_some, Option.bind_some, SchemaType.move, SchemaType.declared?,
      Option.filter_some, halias]
    rw [apply_ite (Option.map _)]
    rfl

/-- The aliases met from a number on are the same ones, moved. -/
theorem aliasChain_move (table : TypeTable) (steps : Nat) (id : Option TypeId) :
    (table.move r).aliasChain steps id = (table.aliasChain steps id).map (DeclaredType.move r) := by
  induction steps generalizing id with
  | zero => rfl
  | succ steps ih =>
    cases id with
    | none => rfl
    | some id =>
      rw [aliasChain, aliasChain, alias?_move]
      cases table.alias? id with
      | none => rfl
      | some type =>
        simp only [Option.map_some, DeclaredType.aliased?_move, ih, List.map_cons]

theorem aliases_move (table : TypeTable) :
    (table.move r).aliases = table.aliases.map (DeclaredType.move r) := by
  rw [aliases, declared_move, List.filter_map, aliases]
  exact congrArg (fun select => (table.declared.filter select).map _)
    (funext DeclaredType.isAlias_move)

/-- The cycle through an alias has the same members, moved. -/
theorem aliasCycle?_move (table : TypeTable) (steps : Nat) (type : DeclaredType) :
    (table.move r).aliasCycle? steps (type.move r) =
      (table.aliasCycle? steps type).map (List.map (DeclaredType.move r)) := by
  simp only [aliasCycle?, DeclaredType.aliased?_move, aliasChain_move, List.any_map,
    List.takeWhile_map]
  rw [apply_ite (Option.map _)]
  rfl

theorem isFirstOf_move (type : DeclaredType) (members : List DeclaredType) :
    isFirstOf (type.move r) (members.map (DeclaredType.move r)) = isFirstOf type members :=
  List.all_map

/-- The members of a cycle are sorted by their names, so their order in the report does not change
when they move. -/
theorem aliasCycleProblem?_move (members : List DeclaredType) :
    aliasCycleProblem? (members.map (DeclaredType.move r)) =
      (aliasCycleProblem? members).map (Problem.move r) := by
  have hnamed : (members.map (DeclaredType.move r)).map
        (fun type => (⟨type.name, type.position⟩ : AliasMember)) =
      (members.map fun type => (⟨type.name, type.position⟩ : AliasMember)).map
        (AliasMember.move r) := by
    rw [List.map_map, List.map_map]
    rfl
  have hsorted (named : List AliasMember) :
      (named.map (AliasMember.move r)).mergeSort (fun a b => (compare a.name b.name).isLE) =
        (named.mergeSort fun a b => (compare a.name b.name).isLE).map (AliasMember.move r) :=
    (List.map_mergeSort (f := AliasMember.move r) fun _ _ _ _ => rfl).symm
  simp only [aliasCycleProblem?, hnamed, hsorted]
  cases (members.map fun type => (⟨type.name, type.position⟩ : AliasMember)).mergeSort
    fun a b => (compare a.name b.name).isLE <;> rfl

/-- Every cycle of aliases is found once, from the same member. -/
theorem aliasCycles_move (table : TypeTable) :
    (table.move r).aliasCycles = table.aliasCycles.map (List.map (DeclaredType.move r)) := by
  simp only [aliasCycles, aliases_move, List.length_map, List.filterMap_map, List.map_filterMap]
  refine congrArg (List.filterMap · table.aliases) (funext fun type => ?_)
  rw [Function.comp_apply, aliasCycle?_move]
  cases table.aliasCycle? table.aliases.length type with
  | none => rfl
  | some members =>
    simp only [Option.map_some, isFirstOf_move]
    rw [apply_ite (Option.map _)]
    rfl

/-- The reports of alias cycles move with the aliases. -/
theorem aliasCycleProblems_move (table : TypeTable) :
    (table.move r).aliasCycleProblems = table.aliasCycleProblems.map (Problem.move r) := by
  rw [aliasCycleProblems, aliasCycles_move, List.filterMap_map, aliasCycleProblems,
    List.map_filterMap]
  exact congrArg (List.filterMap · _) (funext aliasCycleProblem?_move)

end TypeTable

/-! ### Cycles of structs -/

namespace Registry

/-- The struct with a number is the moved one. -/
theorem struct?_move (registry : Registry) (id : TypeId) :
    (registry.move r).struct? id = (registry.struct? id).map (DeclaredType.move r) := by
  have htypes : (registry.move r).types = registry.types.move r := rfl
  rw [struct?, htypes, TypeTable.type?_move, struct?]
  match registry.types.type? id with
  | none | some (.primitive _) | some (.container _) => rfl
  | some (.declared type) =>
    have hstruct := type.isStruct_move (r := r)
    simp only [Option.map_some, Option.bind_some, SchemaType.move, SchemaType.declared?,
      Option.filter_some, hstruct]
    rw [apply_ite (Option.map _)]
    rfl

theorem structs_move (registry : Registry) :
    (registry.move r).structs = registry.structs.map (DeclaredType.move r) := by
  have hdeclared : (registry.move r).types.declared = _ := registry.types.declared_move
  rw [structs, hdeclared, List.filter_map, structs]
  exact congrArg (fun select => (registry.types.declared.filter select).map _)
    (funext DeclaredType.isStruct_move)

/-- A struct holds the same structs, by fields at their new places. -/
theorem containment_move (registry : Registry) (type : DeclaredType) :
    (registry.move r).containment (type.move r) =
      (registry.containment type).map (ContainmentEdge.move r) := by
  have hstruct (id : TypeId) :
      (registry.move r).types.structTarget? id = registry.types.structTarget? id :=
    registry.types.structTarget?_move id
  simp only [containment, DeclaredType.members_move, List.map_filterMap, node?_move, hstruct]
  refine congrArg (List.filterMap · type.members) (funext fun id => ?_)
  cases registry.node? id with
  | none => rfl
  | some field =>
    have htype : (field.move r).type = field.type := rfl
    simp only [Option.map_some, Option.bind_eq_bind, Option.bind_some, htype]
    cases field.type with
    | none => rfl
    | some target =>
      simp only [Option.bind_some]
      cases registry.types.structTarget? target <;> rfl

end Registry

namespace ContainmentWalk

/-- A struct is put on the path with its moved fields ahead. -/
theorem enter_move (registry : Registry) (walk : ContainmentWalk) (type : DeclaredType) :
    (walk.move r).enter (registry.move r) (type.move r) = (walk.enter registry type).move r := by
  simp only [enter, Registry.containment_move]
  rfl

/-- The part of the path that closes a loop is cut off by number. -/
theorem loop_move (path : List ContainmentFrame) (target : TypeId) :
    loop (path.map (ContainmentFrame.move r)) target =
      (loop path target).map (ContainmentFrame.move r) := by
  simp only [loop, List.takeWhile_map, List.length_map, List.map_reverse, List.map_append,
    List.map_take, List.map_drop]
  rfl

/-- A loop is turned to its smallest name, which does not move. -/
theorem turned_move (links : List StructLink) :
    turned (links.map (StructLink.move r)) = (turned links).map (StructLink.move r) := by
  have hleast (link : StructLink) :
      isLeast (links.map (StructLink.move r)) (link.move r) = isLeast links link := List.all_map
  simp only [turned, List.takeWhile_map, List.length_map, List.map_append, List.map_drop,
    Function.comp_def, hleast]

theorem link?_move (frame : ContainmentFrame) :
    link? (frame.move r) = (link? frame).map (StructLink.move r) := by
  obtain ⟨type, taken, ahead⟩ := frame
  cases taken <;> rfl

/-- A loop is closed at the same struct, and what it reports moves. -/
theorem close_move (walk : ContainmentWalk) (target : TypeId) :
    (walk.move r).close target = (walk.close target).move r := by
  have hids : ((loop walk.path target).map (ContainmentFrame.move r)).map
        (fun frame => frame.type.id) =
      (loop walk.path target).map fun frame => frame.type.id := List.map_map
  have hlinks : ((loop walk.path target).map (ContainmentFrame.move r)).filterMap link? =
      ((loop walk.path target).filterMap link?).map (StructLink.move r) := by
    rw [List.filterMap_map, List.map_filterMap]
    exact congrArg (List.filterMap · _) (funext link?_move)
  have hpath : (walk.move r).path = walk.path.map (ContainmentFrame.move r) := rfl
  simp only [close, hpath, loop_move, hids, hlinks, turned_move]
  rw [apply_ite (move r)]
  simp only [move, List.map_append]
  rfl

/-- One step of the walk commutes with a relocation. -/
theorem step_move (registry : Registry) (walk : ContainmentWalk) :
    (walk.move r).step (registry.move r) = (walk.step registry).move r := by
  obtain ⟨starts, visits, path, cycles, cyclic⟩ := walk
  cases path with
  | nil =>
    cases starts with
    | nil => rfl
    | cons type starts =>
      have hvisit : visit? ⟨starts.map (DeclaredType.move r), visits, [], cycles.map
          (List.map (StructLink.move r)), cyclic⟩ (type.move r).id =
          visit? ⟨starts, visits, [], cycles, cyclic⟩ type.id := rfl
      simp only [step, move, List.map_cons, List.map_nil, hvisit]
      cases visit? ⟨starts, visits, [], cycles, cyclic⟩ type.id with
      | some => rfl
      | none => exact enter_move registry ⟨starts, visits, [], cycles, cyclic⟩ type
  | cons frame path =>
    obtain ⟨type, taken, ahead⟩ := frame
    cases ahead with
    | nil => rfl
    | cons edge ahead =>
      -- the walk with the field followed has met the same structs
      let followed : ContainmentWalk :=
        ⟨starts, visits, ⟨type, edge :: taken, ahead⟩ :: path, cycles, cyclic⟩
      have hvisit : (followed.move r).visit? edge.target = followed.visit? edge.target := rfl
      have htarget : (edge.move r).target = edge.target := rfl
      simp only [followed, move, List.map_cons, ContainmentFrame.move] at hvisit
      simp only [step, move, List.map_cons, ContainmentFrame.move, htarget,
        Registry.struct?_move, hvisit]
      match followed.visit? edge.target with
      | some .inProgress => exact close_move followed edge.target
      | some .done => rfl
      | none =>
        cases registry.struct? edge.target with
        | none => rfl
        | some next => exact enter_move registry followed next

/-- A whole run of the walk commutes with a relocation. -/
theorem run_move (registry : Registry) (steps : Nat) (walk : ContainmentWalk) :
    run (registry.move r) steps (walk.move r) = (run registry steps walk).move r := by
  induction steps generalizing walk with
  | zero => rfl
  | succ steps ih => rw [run, step_move, ih, run]

theorem bound_move (registry : Registry) : bound (registry.move r) = bound registry := by
  rw [bound, Registry.structs_move, total_map, bound]
  refine congrArg (total · registry.structs) (funext fun type => ?_)
  rw [Registry.containment_move, List.length_map]

end ContainmentWalk

namespace Registry

/-- The cycles of structs are the same ones, with their fields moved. -/
theorem structCycles_move (registry : Registry) :
    (registry.move r).structCycles = registry.structCycles.map (List.map (StructLink.move r)) := by
  have hinitial : ContainmentWalk.initial (registry.move r) =
      (ContainmentWalk.initial registry).move r := by
    rw [ContainmentWalk.initial, structs_move]
    rfl
  rw [structCycles, ContainmentWalk.bound_move, hinitial, ContainmentWalk.run_move]
  rfl

/-- The reports of struct cycles move with the fields on them. -/
theorem structCycleProblems_move (registry : Registry) :
    (registry.move r).structCycleProblems =
      registry.structCycleProblems.map (Problem.move r) := by
  rw [structCycleProblems, structCycles_move, List.filterMap_map, structCycleProblems,
    List.map_filterMap]
  exact congrArg (List.filterMap · _) (funext fun links => by cases links <;> rfl)

/-! ### Options, purity and endpoints -/

/-- An option is wrong for what it stands for, wherever it is written. -/
theorem optionProblem?_move (registry : Registry) (type : DeclaredType) (option : UnionOption) :
    (registry.move r).optionProblem? (type.move r) (option.move r) =
      (registry.optionProblem? type option).map (Problem.move r) := by
  have htarget (id : TypeId) :
      (registry.move r).types.aliasTarget? id = registry.types.aliasTarget? id :=
    registry.types.aliasTarget?_move id
  have htype : (option.move r).type = option.type := rfl
  simp only [optionProblem?, htarget, htype, Option.bind_eq_bind]
  cases option.type with
  | none => rfl
  | some id =>
    simp only [Option.bind_some]
    cases registry.types.aliasTarget? id with
    | none => rfl
    | some target =>
      simp only [Option.bind_some]
      rw [apply_ite (Option.map _), apply_ite (Option.map _)]
      rfl

theorem unionProblems_move (registry : Registry) :
    (registry.move r).unionProblems = registry.unionProblems.map (Problem.move r) := by
  have hdeclared : (registry.move r).types.declared = _ := registry.types.declared_move
  rw [unionProblems, hdeclared, List.flatMap_map, unionProblems, List.map_flatMap]
  refine congrArg (List.flatMap · _) (funext fun type => ?_)
  rw [DeclaredType.options_move, List.filterMap_map, List.map_filterMap]
  exact congrArg (List.filterMap · _) (funext (registry.optionProblem?_move type))

/-- A field is impure for its type, wherever it is written. -/
theorem fieldProblem?_move (registry : Registry) (node : GraphNode) :
    (registry.move r).fieldProblem? (node.move r) =
      (registry.fieldProblem? node).map (Problem.move r) := by
  have hpure (id : TypeId) : (registry.move r).types.isPure id = registry.types.isPure id :=
    registry.types.isPure_move id
  have hdesignation (id : TypeId) :
      (registry.move r).types.designation? id = registry.types.designation? id :=
    registry.types.designation?_move id
  obtain ⟨id, kind, name, graphName, position, designation, type, parameters⟩ := node
  cases kind with
  | resolverProperty | query | mutation => rfl
  | structField parent =>
    cases type with
    | none => rfl
    | some type =>
      simp only [fieldProblem?, GraphNode.move, hpure, hdesignation]
      rw [apply_ite (Option.map _)]
      rfl

/-- A parameter is impure for its type, wherever it is written. -/
theorem parameterProblem?_move (registry : Registry) (parameter : Parameter) :
    (registry.move r).parameterProblem? (parameter.move r) =
      (registry.parameterProblem? parameter).map (Problem.move r) := by
  have hpure (id : TypeId) : (registry.move r).types.isPure id = registry.types.isPure id :=
    registry.types.isPure_move id
  have hdesignation (id : TypeId) :
      (registry.move r).types.designation? id = registry.types.designation? id :=
    registry.types.designation?_move id
  obtain ⟨id, target, name, position, designation, type⟩ := parameter
  cases type with
  | none => rfl
  | some type =>
    simp only [parameterProblem?, Parameter.move, hpure, hdesignation, node?_move, Option.map_map]
    rw [apply_ite (Option.map _)]
    rfl

/-- Both kinds of purity reports move. -/
theorem purityProblems_move (registry : Registry) :
    (registry.move r).purityProblems = registry.purityProblems.map (Problem.move r) := by
  have hnodes : (registry.move r).nodes = registry.nodes.map (GraphNode.move r) := rfl
  have hparameters : (registry.move r).parameters = registry.parameters.map (Parameter.move r) :=
    rfl
  rw [purityProblems, hnodes, hparameters, List.filterMap_map, List.filterMap_map, purityProblems,
    List.map_append, List.map_filterMap, List.map_filterMap]
  exact congrArg₂ (List.filterMap · _ ++ List.filterMap · _) (funext registry.fieldProblem?_move)
    (funext registry.parameterProblem?_move)

theorem endpointProblems_move (registry : Registry) (header : Header) :
    (registry.move r).endpointProblems (header.move r) =
      (registry.endpointProblems header).map (Problem.move r) := by
  have hany : (registry.move r).nodes.any GraphNode.isEndpoint =
      registry.nodes.any GraphNode.isEndpoint := List.any_map
  rw [endpointProblems, hany, endpointProblems, apply_ite (List.map _)]
  rfl

/-- What is wrong with the resolved types of a schema moves with it. -/
theorem problems_move (registry : Registry) (header : Header) :
    (registry.move r).problems (header.move r) =
      (registry.problems header).map (Problem.move r) := by
  have haliases : (registry.move r).types.aliasCycleProblems = _ :=
    registry.types.aliasCycleProblems_move
  rw [problems, haliases, structCycleProblems_move, unionProblems_move, purityProblems_move,
    endpointProblems_move, problems]
  simp only [List.map_append]

end Registry

end GraphSchema
