import GraphSchema.Model.Export
import GraphSchema.Proofs.Relocation.Numbering
import GraphSchema.Proofs.Relocation.Rules
import GraphSchema.Schema

/-!
# Relocation of the outcome

A relocated document is accepted if the document is, and its model is exported alike
(`SchemaModel.json_move`).  If it is rejected, the problems are the same ones at other places; so
the codes that are reported are the same, and they come in the same order if the relocation keeps
the order of places (`Schema.outcome_move_error`).
-/

namespace GraphSchema

variable (r : Relocation)

/-- The model at its new place. -/
def SchemaModel.move (model : SchemaModel) : SchemaModel :=
  ⟨model.name, r.start model.position, model.registry.move r⟩

variable {r}

/-! ### Diagnostics -/

/-- Does a problem come before another one, or with it? -/
def Problem.isBefore (a b : Problem) : Bool :=
  (compare a.diagnostic b.diagnostic).isLE

theorem Diagnostic.ofProblems_eq (problems : List Problem) :
    ofProblems problems = (problems.mergeSort Problem.isBefore).map Problem.diagnostic :=
  (List.map_mergeSort (f := Problem.diagnostic) fun _ _ _ _ => rfl).symm

theorem Problem.isBefore_move (keeps : r.KeepsOrder) (a b : Problem) :
    (a.move r).isBefore (b.move r) = a.isBefore b := by
  have hcompare : compare (a.move r).diagnostic (b.move r).diagnostic =
      compare a.diagnostic b.diagnostic := by
    change (compare (a.move r).position (b.move r).position).then
        (compare (a.move r).code (b.move r).code) =
      (compare a.position b.position).then (compare a.code b.code)
    rw [position_move, position_move, keeps, code_move, code_move]
  rw [isBefore, hcompare, isBefore]

/-- The codes that are reported, in their order. -/
theorem Diagnostic.codes_move (keeps : r.KeepsOrder) (problems : List Problem) :
    (ofProblems (problems.map (Problem.move r))).map Diagnostic.code =
      (ofProblems problems).map Diagnostic.code := by
  have hsorted : (problems.map (Problem.move r)).mergeSort Problem.isBefore =
      (problems.mergeSort Problem.isBefore).map (Problem.move r) :=
    (List.map_mergeSort (f := Problem.move r) fun a _ b _ =>
      (Problem.isBefore_move keeps a b).symm).symm
  rw [ofProblems_eq, ofProblems_eq, hsorted, List.map_map, List.map_map, List.map_map]
  exact congrArg (List.map · _) (funext (Problem.code_move r))

/-! ### Acceptance -/

namespace Schema

/-- The problems of a complete document move with it. -/
theorem problemsOf_move (document : Document) :
    problemsOf (document.move r) = (problemsOf document).map (Problem.move r) := by
  simp only [problemsOf, Document.move, Registry.ofDeclarations_move, Registry.linked_move,
    Registry.undefinedProblems_move, Registry.problems_move, List.map_append]

/-- The model of a document moves with it. -/
theorem modelOf_move (document : Document) :
    modelOf (document.move r) = (modelOf document).move r := by
  rw [modelOf, Document.move, Registry.ofDeclarations_move, Registry.linked_move]
  rfl

/-- The problems of what was read move with it. -/
theorem problems_move (read : Reading × Option Problem) :
    problems (Prod.map (Reading.move r) (Option.map (Problem.move r)) read) =
      (problems read).map (Problem.move r) := by
  obtain ⟨reading, fatal⟩ := read
  cases fatal with
  | some fatal =>
    simp only [problems, Prod.map_apply, Option.map_some, Reading.problems_move, List.map_append,
      List.map_cons, List.map_nil]
  | none =>
    simp only [problems, Prod.map_apply, Option.map_none, Reading.problems_move,
      Reading.document?_move, List.map_append]
    cases reading.document? with
    | none => rfl
    | some document => exact congrArg _ (problemsOf_move document)

/-- What is accepted is accepted at another place. -/
theorem outcome_move_ok {read : Reading × Option Problem} {model : SchemaModel}
    (h : outcome read = .ok model) :
    outcome (Prod.map (Reading.move r) (Option.map (Problem.move r)) read) =
      .ok (model.move r) := by
  unfold outcome at h ⊢
  rw [problems_move, Prod.map_fst, Reading.document?_move]
  cases hproblems : problems read with
  | cons => simp [hproblems] at h
  | nil =>
    cases hdocument : read.1.document? with
    | none => simp [hproblems, hdocument] at h
    | some document =>
      simp only [hproblems, hdocument, Except.ok.injEq] at h
      rw [← h]
      exact congrArg Except.ok (modelOf_move document)

/-- What is rejected is rejected at another place, with the same codes. -/
theorem outcome_move_error (keeps : r.KeepsOrder) {read : Reading × Option Problem}
    {found : List Diagnostic} (h : outcome read = .error found) :
    ∃ others, outcome (Prod.map (Reading.move r) (Option.map (Problem.move r)) read) =
        .error others ∧ others.map Diagnostic.code = found.map Diagnostic.code := by
  have hcodes := Diagnostic.codes_move keeps (problems read)
  refine ⟨Diagnostic.ofProblems ((problems read).map (Problem.move r)), ?_, ?_⟩
  · unfold outcome at h ⊢
    rw [problems_move, Prod.map_fst, Reading.document?_move]
    cases hproblems : problems read with
    | cons => rfl
    | nil =>
      cases hdocument : read.1.document? with
      | none => rfl
      | some document => simp [hproblems, hdocument] at h
  · rw [hcodes]
    unfold outcome at h
    cases hproblems : problems read with
    | cons =>
      simp only [hproblems, Except.error.injEq] at h
      rw [← h]
    | nil =>
      cases hdocument : read.1.document? with
      | none =>
        simp only [hproblems, hdocument, Except.error.injEq] at h
        rw [← h]
      | some document => simp [hproblems, hdocument] at h

end Schema

/-! ### The export -/

theorem sortedBy_map {α β : Type} {key : α → String} {other : β → String} {f : β → α}
    (keys : ∀ entry, key (f entry) = other entry) (entries : List β) :
    sortedBy key (entries.map f) = (sortedBy other entries).map f :=
  (List.map_mergeSort (f := f) fun a _ b _ => by rw [keys, keys]).symm

namespace SchemaModel

/-- The types of a category are the same ones in the same order, which is that of their names. -/
theorem declaredOf_move (model : SchemaModel) {select : TypeBody → Bool}
    (selects : ∀ body : TypeBody, select (body.move r) = select body) :
    (model.move r).declaredOf select = (model.declaredOf select).map (DeclaredType.move r) := by
  have hdeclared : (model.move r).declared = model.declared.map (DeclaredType.move r) :=
    model.registry.types.declared_move
  have hselect : (fun type : DeclaredType => select type.body) ∘ DeclaredType.move r =
      fun type => select type.body := funext fun type => selects type.body
  rw [declaredOf, hdeclared, List.filter_map, hselect, declaredOf]
  exact sortedBy_map (fun _ => rfl) _

theorem containers_move (model : SchemaModel) : (model.move r).containers = model.containers :=
  congrArg (sortedBy Container.designation) model.registry.types.containers_move

theorem nodesWhere_move (model : SchemaModel) {select : GraphNode → Bool}
    (selects : ∀ node : GraphNode, select (node.move r) = select node) :
    sortedBy GraphNode.graphName ((model.move r).registry.nodes.filter select) =
      (sortedBy GraphNode.graphName (model.registry.nodes.filter select)).map
        (GraphNode.move r) := by
  have hnodes : (model.move r).registry.nodes = model.registry.nodes.map (GraphNode.move r) := rfl
  have hselect : select ∘ GraphNode.move r = select := funext selects
  rw [hnodes, List.filter_map, hselect]
  exact sortedBy_map (fun _ => rfl) _

theorem parametersOf_move (model : SchemaModel) (node : GraphNode) :
    (model.move r).parametersOf (node.move r) =
      (model.parametersOf node).map (Parameter.move r) := by
  rw [parametersOf, parametersOf, List.map_filterMap]
  exact congrArg (List.filterMap · node.parameters) (funext model.registry.parameter?_move)

theorem nodesOf_move (model : SchemaModel) (ids : List NodeId) :
    (model.move r).nodesOf ids = (model.nodesOf ids).map (GraphNode.move r) := by
  rw [nodesOf, nodesOf, List.map_filterMap]
  exact congrArg (List.filterMap · ids) (funext model.registry.node?_move)

/-- The export of a graph node shows no place. -/
theorem nodeJson_move (model : SchemaModel) (node : GraphNode) :
    (model.move r).nodeJson (node.move r) = model.nodeJson node := by
  rw [nodeJson, parametersOf_move, List.map_map]
  rfl

theorem enumJson_move (type : DeclaredType) : enumJson (type.move r) = enumJson type := by
  obtain ⟨_, _, _, body⟩ := type
  cases body with
  | enum values =>
    simp only [enumJson, DeclaredType.values, DeclaredType.move, TypeBody.move, List.map_map]
    rfl
  | typeAlias | union | struct | resolver => rfl

theorem aliasJson_move (type : DeclaredType) : aliasJson (type.move r) = aliasJson type := by
  obtain ⟨_, _, _, body⟩ := type
  cases body <;> rfl

theorem unionJson_move (type : DeclaredType) : unionJson (type.move r) = unionJson type := by
  rw [unionJson, DeclaredType.options_move, List.filterMap_map]
  rfl

theorem membersJson_move (model : SchemaModel) (label : String) (type : DeclaredType) :
    (model.move r).membersJson label (type.move r) = model.membersJson label type := by
  have hjson : (model.move r).nodeJson ∘ GraphNode.move r = model.nodeJson :=
    funext model.nodeJson_move
  rw [membersJson, DeclaredType.members_move, nodesOf_move, List.map_map, hjson]
  rfl

/-- The export of a model shows no places. -/
theorem json_move (model : SchemaModel) : (model.move r).json = model.json := by
  have hcategory {select : TypeBody → Bool} {json moved : DeclaredType → Json}
      (selects : ∀ body : TypeBody, select (body.move r) = select body)
      (jsons : ∀ type : DeclaredType, moved (type.move r) = json type) :
      ((model.move r).declaredOf select).map moved = (model.declaredOf select).map json := by
    rw [declaredOf_move model selects, List.map_map]
    exact congrArg (List.map · _) (funext jsons)
  have hendpoints {select : GraphNode → Bool}
      (selects : ∀ node : GraphNode, select (node.move r) = select node) :
      (sortedBy GraphNode.graphName ((model.move r).registry.nodes.filter select)).map
          (model.move r).nodeJson =
        (sortedBy GraphNode.graphName (model.registry.nodes.filter select)).map
          model.nodeJson := by
    rw [nodesWhere_move model selects, List.map_map]
    exact congrArg (List.map · _) (funext model.nodeJson_move)
  have haliases : (model.move r).aliases.map aliasJson = model.aliases.map aliasJson :=
    hcategory (fun body => by cases body <;> rfl) aliasJson_move
  have henums : (model.move r).enums.map enumJson = model.enums.map enumJson :=
    hcategory (fun body => by cases body <;> rfl) enumJson_move
  have hunions : (model.move r).unions.map unionJson = model.unions.map unionJson :=
    hcategory (fun body => by cases body <;> rfl) unionJson_move
  have hstructs : (model.move r).structs.map ((model.move r).membersJson "fields") =
      model.structs.map (model.membersJson "fields") :=
    hcategory (fun body => by cases body <;> rfl) (model.membersJson_move "fields")
  have hresolvers : (model.move r).resolvers.map ((model.move r).membersJson "properties") =
      model.resolvers.map (model.membersJson "properties") :=
    hcategory (fun body => by cases body <;> rfl) (model.membersJson_move "properties")
  have hqueries : (model.move r).queries.map (model.move r).nodeJson =
      model.queries.map model.nodeJson := hendpoints fun _ => rfl
  have hmutations : (model.move r).mutations.map (model.move r).nodeJson =
      model.mutations.map model.nodeJson := hendpoints fun _ => rfl
  rw [json, haliases, henums, hunions, hstructs, hresolvers, containers_move, hqueries, hmutations,
    json]
  rfl

end SchemaModel

end GraphSchema
