import GraphSchema.Proofs.Registry.Linked
import GraphSchema.Proofs.Token.Words
import GraphSchema.Proofs.Grammar.Written

/-!
# Resolved registries

When the names of a document are distinct and every reference names a type, the linked registry of
the document is resolved (`Registry.Resolved`, `Registry.resolved_linked`): everything is recorded,
and every reference has a type that is spelled like it and wraps the type that it names
(`Registry.Resolved.reference?_spec`).
-/

namespace GraphSchema

/-! ### Names of types -/

/-- The names of the types of a grammatical document have the shape that the naming rule asks for if
its tokens are words of a text. -/
theorem ofWord_typeNames {document : Document} (grammatical : document.Grammatical)
    (words : ∀ token ∈ document.tokens,
      token.kind.isWord = true → token.kind = .ofWord token.text) :
    ∀ text ∈ Document.typeNames document.declarations, TokenKind.ofWord text = .typeName := by
  intro text htext
  obtain ⟨name, hname, rfl⟩ := List.mem_map.mp htext
  obtain ⟨declaration, hdeclaration, hname⟩ := List.mem_filterMap.mp hname
  obtain ⟨hkind, htoken⟩ := (grammatical.declarations declaration hdeclaration).typeName hname
  have hmem : name ∈ document.tokens :=
    List.mem_append_right _ (List.mem_flatMap.mpr ⟨declaration, hdeclaration, htoken⟩)
  rw [← words name hmem (by rw [hkind]; rfl), hkind]

/-- The names of the types of a grammatical document are plain if its tokens are words of a text. -/
theorem plainNames_of_grammatical {document : Document} (grammatical : document.Grammatical)
    (words : ∀ token ∈ document.tokens,
      token.kind.isWord = true → token.kind = .ofWord token.text) :
    Registry.PlainNames document.declarations :=
  fun text htext => TokenKind.plainName_of_ofWord (ofWord_typeNames grammatical words text htext)

theorem TypeTable.filterMap_declared? (types : List DeclaredType) (formed : List Container) :
    (types.map SchemaType.declared ++ formed.map SchemaType.container).filterMap
      SchemaType.declared? = types := by
  have hnone : (formed.map SchemaType.container).filterMap SchemaType.declared? = [] := by
    simp [SchemaType.declared?]
  rw [List.filterMap_append, hnone, List.append_nil, List.filterMap_map]
  exact List.filterMap_some

theorem TypeTable.filterMap_container? (types : List DeclaredType) (formed : List Container) :
    (types.map SchemaType.declared ++ formed.map SchemaType.container).filterMap
      SchemaType.container? = formed := by
  have hnone : (types.map SchemaType.declared).filterMap SchemaType.container? = [] := by
    simp [SchemaType.container?]
  rw [List.filterMap_append, hnone, List.nil_append, List.filterMap_map]
  exact List.filterMap_some

namespace Registry

variable {registry : Registry} {declarations : List Declaration}

/-! ### Types before linking -/

theorem types_addNodes (owner : String) (kind : NodeKind) (drafts : List NodeDraft)
    (registry : Registry) :
    (drafts.foldl (addNode owner kind) registry).types = registry.types := by
  induction drafts generalizing registry with
  | nil => rfl
  | cons draft drafts ih =>
    rw [List.foldl_cons, ih, addNode_eq]

/-- A declaration adds a declared type or none. -/
theorem add_assigned (registry : Registry) (declaration : Declaration) :
    ∃ types : List DeclaredType, (registry.add declaration).types.assigned =
      registry.types.assigned ++ types.map .declared := by
  have hnone : registry.types.assigned = registry.types.assigned ++ [].map .declared :=
    (List.append_nil _).symm
  cases declaration with
  | typeAlias keyword name equals target =>
    unfold add
    dsimp only
    split
    · exact ⟨[], hnone⟩
    case h_2 hdeclare =>
      obtain ⟨-, -, rfl⟩ := TypeTable.declare_eq_ok hdeclare
      exact ⟨[_], rfl⟩
  | block keyword name opening body closing =>
    unfold add
    dsimp only
    split
    · exact ⟨[], hnone⟩
    case h_2 hdeclare =>
      obtain ⟨-, -, rfl⟩ := TypeTable.declare_eq_ok hdeclare
      rw [types_addNodes]
      cases body <;> exact ⟨[_], rfl⟩
  | endpoint kind keyword signature =>
    unfold add
    dsimp only
    split
    · exact ⟨[], hnone⟩
    · exact ⟨[], hnone⟩

/-- Before linking all types but the primitive ones are declared. -/
theorem assigned_ofDeclarations (declarations : List Declaration) :
    ∃ types : List DeclaredType,
      (ofDeclarations declarations).types.assigned = types.map .declared := by
  induction declarations using List.reverseRecOn with
  | nil => exact ⟨[], rfl⟩
  | append_singleton declarations declaration ih =>
    obtain ⟨types, htypes⟩ := ih
    obtain ⟨more, hmore⟩ := add_assigned (ofDeclarations declarations) declaration
    refine ⟨types ++ more, ?_⟩
    rw [ofDeclarations, List.foldl_append, List.foldl_cons, List.foldl_nil, List.map_append,
      ← htypes]
    exact hmore

theorem containers_ofDeclarations (declarations : List Declaration) :
    (ofDeclarations declarations).types.containers = [] := by
  obtain ⟨types, htypes⟩ := assigned_ofDeclarations declarations
  have hempty := TypeTable.filterMap_container? types []
  rw [List.map_nil, List.append_nil] at hempty
  rw [TypeTable.containers, htypes, hempty]

/-- The types of a linked registry are the primitive types, the declared ones and the containers. -/
theorem types_linked (declarations : List Declaration) :
    (ofDeclarations declarations).linked.types.types = Primitive.all.map .primitive ++
      ((ofDeclarations declarations).linked.types.declared.map .declared ++
        (ofDeclarations declarations).linked.types.containers.map .container) := by
  have hconsistent := consistent_ofDeclarations declarations
  obtain ⟨types, htypes⟩ := assigned_ofDeclarations declarations
  generalize ofDeclarations declarations = registry at *
  obtain ⟨formed, hformed⟩ := (hconsistent.types.resolveAll registry.references).2.1
  have hassigned : registry.linked.types.assigned =
      (types.map (registry.types.resolveAll registry.references).linkDeclared).map .declared ++
        formed.map .container := by
    rw [linked_types, TypeTable.link, hformed, htypes, List.map_append, List.map_map, List.map_map,
      List.map_map]
    rfl
  have hdeclared : registry.linked.types.declared =
      types.map (registry.types.resolveAll registry.references).linkDeclared := by
    rw [TypeTable.declared, hassigned, TypeTable.filterMap_declared?]
  have hcontainers : registry.linked.types.containers = formed := by
    rw [TypeTable.containers, hassigned, TypeTable.filterMap_container?]
  rw [hdeclared, hcontainers, ← hassigned]
  rfl

/-! ### What every reference refers to -/

/-- Everything that is declared is recorded, and every reference has the type that it is written
for. -/
structure Resolved (declarations : List Declaration) (registry : Registry) : Prop where
  consistent : registry.Consistent
  records : Records declarations registry
  filled : registry.Filled
  plain : registry.types.Plain
  known : ∀ reference ∈ declarations.flatMap Declaration.references,
    (registry.types.named? reference.terminal).isSome
  parts : ∀ reference ∈ declarations.flatMap Declaration.references,
    ∀ text, reference.HasPart text →
      ∃ container ∈ registry.types.containers, container.designation = text

/-- A reference has a type that is spelled like it and has the type that it names as its
terminal. -/
theorem Resolved.reference?_spec (h : Resolved declarations registry) {reference : Designation}
    (hmem : reference ∈ declarations.flatMap Declaration.references) :
    ∃ base type, registry.types.named? reference.terminal = some base ∧
      type ∈ registry.types.types ∧ registry.types.reference? reference = some type.id ∧
      type.designation = reference.canonical ∧ type.terminal = base.id ∧
      (reference.modifiers = [] → type = base) ∧
      (reference.modifiers ≠ [] → type.isAnonymous = true) := by
  obtain ⟨base, hbase⟩ := Option.isSome_iff_exists.mp (h.known reference hmem)
  obtain ⟨type, htype, hspec⟩ :=
    h.consistent.types.reference?_spec h.plain hbase (h.parts reference hmem)
  exact ⟨base, type, hbase, htype, hspec⟩

/-- No reference is undefined if and only if every reference names a type. -/
theorem undefinedProblems_eq_nil_iff (registry : Registry) :
    registry.undefinedProblems = [] ↔
      ∀ reference ∈ registry.references, (registry.types.named? reference.terminal).isSome := by
  unfold undefinedProblems
  rw [List.filterMap_eq_nil_iff]
  refine forall_congr' fun reference => forall_congr' fun _ => ?_
  cases registry.types.named? reference.terminal <;> simp

theorem isSome_named?_linked (h : registry.Consistent) (name : String) :
    (registry.linked.types.named? name).isSome = (registry.types.named? name).isSome := by
  obtain ⟨hresolved, hextends, -⟩ := h.types.resolveAll registry.references
  rw [linked_types, TypeTable.named?_link hresolved, hextends.named?_eq, Option.isSome_map]

/-- The linked registry of a document is resolved if names are distinct and nothing is undefined. -/
theorem resolved_linked (names : Document.NamesDistinct declarations)
    (members : ∀ declaration ∈ declarations, declaration.MembersDistinct)
    (plain : PlainNames declarations)
    (defined : (ofDeclarations declarations).undefinedProblems = []) :
    Resolved declarations (ofDeclarations declarations).linked := by
  have hconsistent := consistent_ofDeclarations declarations
  have hrecords := records_ofDeclarations declarations names members
  rw [undefinedProblems_eq_nil_iff] at defined
  generalize ofDeclarations declarations = registry at *
  have hlinked := hrecords.linked hconsistent
  refine ⟨hconsistent.linked, hlinked, filled_linked hconsistent, hlinked.plain plain, ?_, ?_⟩
  · intro reference hmem
    rw [← hrecords.references] at hmem
    rw [isSome_named?_linked hconsistent]
    exact defined reference hmem
  · intro reference hmem text hpart
    rw [← hrecords.references] at hmem
    refine linked_parts hconsistent hmem ?_ hpart
    rw [isSome_named?_linked hconsistent]
    exact defined reference hmem

end Registry

end GraphSchema
