import GraphSchema.Proofs.Relocation.Outcome

/-!
# Places that are shown

All places that diagnostics and models show come from the tokens of a stream and from its end.
Nothing else is needed for this than that what is read and what is found moves with the stream: a
relocation that keeps the places of the stream and moves every other one keeps the stream
(`TokenStream.move_keeping`), so it keeps what is found, which can show none of the others
(`Schema.problems_positions_subset`, `Schema.model_positions_subset`).
-/

namespace GraphSchema

/-! ### The places of a stream and of a model -/

/-- The places of the tokens, and where they end. -/
def TokenStream.positions (stream : TokenStream) : List Cursor :=
  stream.tokens.map Token.start ++ [stream.ending.position]

/-- The places of a designation. -/
def Designation.positions (designation : Designation) : List Cursor :=
  [designation.position, designation.terminalPosition]

/-- The places of an option of a union. -/
def UnionOption.positions (option : UnionOption) : List Cursor :=
  option.designation.positions

/-- The places that stand in the body of a type. -/
def TypeBody.positions : TypeBody → List Cursor
  | typeAlias target _ => target.positions
  | enum values => values.map EnumValue.position
  | union options => options.flatMap UnionOption.positions
  | struct _ | resolver _ => []

/-- The places of a type that is declared. -/
def DeclaredType.positions (type : DeclaredType) : List Cursor :=
  type.position :: type.body.positions

/-- The places of a graph node. -/
def GraphNode.positions (node : GraphNode) : List Cursor :=
  node.position :: node.designation.positions

/-- The places of a parameter. -/
def Parameter.positions (parameter : Parameter) : List Cursor :=
  parameter.position :: parameter.designation.positions

/-- The places of everything that is registered. -/
def Registry.positions (registry : Registry) : List Cursor :=
  registry.types.declared.flatMap DeclaredType.positions ++
  registry.nodes.flatMap GraphNode.positions ++
  registry.parameters.flatMap Parameter.positions ++
  registry.references.flatMap Designation.positions

/-- The places of a model. -/
def SchemaModel.positions (model : SchemaModel) : List Cursor :=
  model.position :: model.registry.positions

/-! ### Places move -/

section

variable {r : Relocation}

theorem flatMap_positions_move {α : Type} {move : α → α} {positions : α → List Cursor}
    (h : ∀ entry, positions (move entry) = (positions entry).map r.start) (entries : List α) :
    (entries.map move).flatMap positions = (entries.flatMap positions).map r.start := by
  rw [List.flatMap_map, List.map_flatMap]
  exact congrArg (List.flatMap · entries) (funext h)

theorem Designation.positions_move (designation : Designation) :
    (designation.move r).positions = designation.positions.map r.start := rfl

theorem UnionOption.positions_move (option : UnionOption) :
    (option.move r).positions = option.positions.map r.start := rfl

theorem GraphNode.positions_move (node : GraphNode) :
    (node.move r).positions = node.positions.map r.start := rfl

theorem Parameter.positions_move (parameter : Parameter) :
    (parameter.move r).positions = parameter.positions.map r.start := rfl

theorem TypeBody.positions_move (body : TypeBody) :
    (body.move r).positions = body.positions.map r.start := by
  cases body with
  | typeAlias | struct | resolver => rfl
  | enum values =>
    simp only [move, positions, List.map_map]
    rfl
  | union options => exact flatMap_positions_move UnionOption.positions_move options

theorem DeclaredType.positions_move (type : DeclaredType) :
    (type.move r).positions = type.positions.map r.start :=
  congrArg (r.start type.position :: ·) type.body.positions_move

theorem Registry.positions_move (registry : Registry) :
    (registry.move r).positions = registry.positions.map r.start := by
  have htypes : (registry.move r).types.declared =
      registry.types.declared.map (DeclaredType.move r) := registry.types.declared_move
  unfold positions
  rw [htypes, flatMap_positions_move DeclaredType.positions_move, List.map_append, List.map_append,
    List.map_append]
  congr 1
  · congr 1
    · exact congrArg _ (flatMap_positions_move GraphNode.positions_move registry.nodes)
    · exact flatMap_positions_move Parameter.positions_move registry.parameters
  · exact flatMap_positions_move Designation.positions_move registry.references

/-- The places of a model move with it. -/
theorem SchemaModel.positions_move (model : SchemaModel) :
    (model.move r).positions = model.positions.map r.start :=
  congrArg (r.start model.position :: ·) model.registry.positions_move

/-- The places that a problem shows move with it. -/
theorem Problem.positions_move (problem : Problem) :
    (problem.move r).diagnostic.positions = problem.diagnostic.positions.map r.start := by
  cases problem with
  | typeRedeclared name position prior => cases prior <;> rfl
  | aliasCycle first others | structCycle first others =>
    simp [move, diagnostic, Diagnostic.positions, position, notes, AliasMember.move,
      StructLink.move, Function.comp_def]
  | _ => rfl

end

/-! ### Places that are kept -/

/-- If a list is mapped to itself, so is each of its entries. -/
theorem eq_self_of_map_eq_self {α : Type} {f : α → α} {entries : List α}
    (h : entries.map f = entries) {entry : α} (hmem : entry ∈ entries) : f entry = entry := by
  have hid : entries.map f = entries.map id := h.trans (List.map_id entries).symm
  exact List.map_inj_left.mp hid entry hmem

namespace Relocation

/-- Keeps some places, and moves every other one to the next line. -/
def keeping (places : List Cursor) : Relocation where
  start place := if place ∈ places then place else { place with line := place.line + 1 }
  stop := id

variable {places : List Cursor}

theorem keeping_start_eq_iff {place : Cursor} :
    (keeping places).start place = place ↔ place ∈ places := by
  constructor
  · intro hkept
    by_contra hother
    have hmoved : (keeping places).start place = { place with line := place.line + 1 } :=
      if_neg hother
    rw [hkept] at hmoved
    exact absurd (congrArg Cursor.line hmoved) (Nat.ne_of_lt (Nat.lt_succ_self _))
  · exact fun hmem => if_pos hmem

/-- What is kept is at places that are kept. -/
theorem subset_of_map_keeping {shown : List Cursor}
    (h : shown.map (keeping places).start = shown) : shown ⊆ places :=
  fun _ hplace => keeping_start_eq_iff.mp (eq_self_of_map_eq_self h hplace)

end Relocation

namespace TokenStream

/-- A stream keeps its places if they are kept. -/
theorem move_keeping (stream : TokenStream) : stream.move (.keeping stream.positions) = stream := by
  obtain ⟨tokens, ending⟩ := stream
  have hkept {place : Cursor} (hmem : place ∈ positions ⟨tokens, ending⟩) :
      (Relocation.keeping (positions ⟨tokens, ending⟩)).start place = place :=
    Relocation.keeping_start_eq_iff.mpr hmem
  have hlast : ending.position ∈ positions ⟨tokens, ending⟩ :=
    List.mem_append_right _ (List.mem_singleton.mpr rfl)
  rw [move, TokenStream.mk.injEq]
  constructor
  · refine (List.map_congr_left fun token htoken => ?_).trans (List.map_id tokens)
    obtain ⟨kind, text, start, stop⟩ := token
    have hstart : start ∈ positions ⟨tokens, ending⟩ :=
      List.mem_append_left _ (List.mem_map_of_mem htoken)
    exact congrArg (Token.mk kind text · stop) (hkept hstart)
  · cases ending with
    | endOfInput position => exact congrArg Ending.endOfInput (hkept hlast)
    | error failure =>
      exact congrArg (fun place => Ending.error ⟨failure.kind, place⟩) (hkept hlast)

/-- What is read of a stream keeps its place if the places of the stream are kept. -/
theorem ofStream_keeping (stream : TokenStream) :
    Prod.map (Reading.move (.keeping stream.positions))
        (Option.map (Problem.move (.keeping stream.positions))) (Reading.ofStream stream) =
      Reading.ofStream stream := by
  rw [← Reading.ofStream_move, move_keeping]

end TokenStream

namespace Schema

/-- Problems show places of the stream only. -/
theorem problems_positions_subset (stream : TokenStream) {problem : Problem}
    (h : problem ∈ problems (Reading.ofStream stream)) :
    problem.diagnostic.positions ⊆ stream.positions := by
  have hproblems := problems_move (r := .keeping stream.positions) (Reading.ofStream stream)
  rw [stream.ofStream_keeping] at hproblems
  have hkept := eq_self_of_map_eq_self hproblems.symm h
  refine Relocation.subset_of_map_keeping ?_
  rw [← Problem.positions_move, hkept]

/-- A model holds places of the stream only. -/
theorem model_positions_subset (stream : TokenStream) {model : SchemaModel}
    (h : outcome (Reading.ofStream stream) = .ok model) :
    model.positions ⊆ stream.positions := by
  have hmoved := outcome_move_ok (r := .keeping stream.positions) h
  rw [stream.ofStream_keeping, h] at hmoved
  refine Relocation.subset_of_map_keeping ?_
  rw [← SchemaModel.positions_move, ← Except.ok.inj hmoved]

end Schema

end GraphSchema
