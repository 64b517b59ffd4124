import GraphSchema.Proofs.Integrity
import GraphSchema.Proofs.Order.Described
import GraphSchema.Proofs.Order.GraphNames

/-!
# Names are looked up

In an accepted model, looking up by name inverts naming (`SchemaModel.InvertsNames`): a name, a
designation and a graph name are each found if and only if something has them, and no two types and
graph nodes are named alike.  The names of the types stand for the same numbers as in the registry,
whatever has been resolved in it (`SchemaModel.NamedAsRegistered`).

Types and graph nodes are told apart by their shapes.  The spelling of a type has no dot and does
not begin with a lower-case letter (`IsTypeSpelling`), whereas a graph name has a dot, if it is that
of a member, or begins with a lower-case letter (`IsGraphName`).
-/

namespace GraphSchema

/-! ### The shapes of names -/

/-- There is no dot in a text and no lower-case letter at its front. -/
structure IsTypeSpelling (text : String) : Prop where
  undotted : Undotted text
  front : ∀ c ∈ text.toList.head?, ¬ IsLowerLetter c

/-- There is a dot in a text, or a lower-case letter at its front. -/
def IsGraphName (text : String) : Prop :=
  ¬ Undotted text ∨ ∃ c ∈ text.toList.head?, IsLowerLetter c

theorem IsTypeSpelling.not_isGraphName {text : String} (h : IsTypeSpelling text) :
    ¬ IsGraphName text := by
  rintro (hdotted | ⟨c, hc, hlower⟩)
  · exact hdotted h.undotted
  · exact h.front c hc hlower

/-- The name of a type is spelled like a type. -/
theorem isTypeSpelling_of_ofWord {word : String} (h : TokenKind.ofWord word = .typeName) :
    IsTypeSpelling word := by
  have hkind := wordKind_ofWord word
  refine ⟨hkind.undotted (.inl h), ?_⟩
  obtain ⟨first, rest, hword, hupper⟩ := TokenKind.exists_upper_of_ofWord h
  rw [hword]
  rintro c hc hlower
  obtain rfl := Option.some.inj hc
  have hle : 'a' ≤ 'Z' := Char.le_trans hlower.1 (isUpper_iff.mp hupper).2
  exact absurd hle (by decide)

/-- Modifiers in front of the name of a type make the spelling of a type. -/
theorem IsTypeSpelling.spell {name : String} (h : IsTypeSpelling name)
    (modifiers : List Modifier) : IsTypeSpelling (Designation.spell modifiers name) := by
  induction modifiers with
  | nil => exact h
  | cons modifier modifiers ih =>
    have hspell : (Designation.spell (modifier :: modifiers) name).toList =
        modifier.text.toList ++ (Designation.spell modifiers name).toList :=
      String.toList_append
    have hundotted := ih.undotted
    unfold Undotted at hundotted
    constructor
    · rw [Undotted, hspell, List.mem_append]
      cases modifier <;> simpa [Modifier.text] using hundotted
    · rw [hspell]
      cases modifier <;> simp [Modifier.text, IsLowerLetter]

/-- A word that may be a lower-camel-case name begins with a lower-case letter. -/
theorem isGraphName_of_isLowerName {word : String}
    (h : (TokenKind.ofWord word).isLowerName = true) : IsGraphName word := by
  have hkind := wordKind_ofWord word
  refine .inr ?_
  cases hword : TokenKind.ofWord word with
  | keyword keyword =>
    rw [(hkind.keyword keyword).mp hword]
    cases keyword <;> exact ⟨_, rfl, by decide, by decide⟩
  | lowerName =>
    obtain ⟨-, hshape⟩ := hkind.lowerName.mp hword
    cases htext : word.toList with
    | nil =>
      rw [htext] at hshape
      exact hshape.elim
    | cons first rest =>
      rw [htext] at hshape
      exact ⟨first, rfl, hshape.1⟩
  | _ =>
    rw [hword] at h
    cases h

/-! ### The names of a document -/

/-- The graph names of a document have a dot or begin with a lower-case letter. -/
theorem TokenStream.Spells.isGraphName {file : Path} {source : String} {document : Document}
    (h : (Schema.stream file source).Spells document) {written : WrittenNode}
    (hmem : written ∈ document.declarations.flatMap Declaration.writtenNodes) :
    IsGraphName written.graphName := by
  obtain ⟨declaration, hdeclaration, hwritten⟩ := List.mem_flatMap.mp hmem
  rcases Declaration.graphName_cases hwritten with ⟨name, -, hgraphName⟩ | ⟨name, hname, hgraphName⟩
  · rw [hgraphName]
    refine .inl fun hundotted => hundotted ?_
    simp
  · obtain ⟨hkind, htoken⟩ :=
      (h.grammatical.declarations declaration hdeclaration).endpointName hname
    have hmem : name ∈ document.tokens :=
      List.mem_append_right _ (List.mem_flatMap.mpr ⟨declaration, hdeclaration, htoken⟩)
    rw [hgraphName]
    apply isGraphName_of_isLowerName
    rw [← h.words name hmem (TokenKind.isWord_of_isLowerName hkind)]
    exact hkind

/-! ### Tables of names -/

namespace TypeTable

variable {table other : TypeTable}

/-- The names of the types, each beside the number of the type that it stands for. -/
def nameTable (table : TypeTable) : List (String × TypeId) :=
  table.named.map fun type => (type.designation, type.id)

theorem keys_nameTable : table.nameTable.map Prod.fst = table.named.map SchemaType.designation := by
  rw [nameTable, List.map_map]
  rfl

/-- A table of the names, in any order, finds what the table of types finds. -/
theorem Consistent.lookup_of_perm (h : table.Consistent) {entries : List (String × TypeId)}
    (perm : entries.Perm table.nameTable) (name : String) :
    entries.lookup name = (table.named? name).map SchemaType.id := by
  have hdistinct : (entries.map Prod.fst).Nodup := by
    rw [(perm.map Prod.fst).nodup_iff, keys_nameTable]
    exact h.names
  ext id
  rw [lookup_eq_some_iff hdistinct, perm.mem_iff, nameTable, List.mem_map, Option.map_eq_some_iff]
  constructor
  · rintro ⟨type, htype, hentry⟩
    obtain ⟨rfl, rfl⟩ := Prod.mk.inj hentry
    exact ⟨type, h.named?_eq_some_iff.mpr ⟨htype, rfl⟩, rfl⟩
  · rintro ⟨type, hfound, rfl⟩
    obtain ⟨htype, rfl⟩ := h.named?_eq_some_iff.mp hfound
    exact ⟨type, htype, rfl⟩

theorem nameTable_link : table.link.nameTable = table.nameTable := by
  rw [nameTable, named_link, List.map_map, nameTable]
  refine List.map_congr_left fun type _ => ?_
  simp

theorem Extends.nameTable_eq (h : table.Extends other) : other.nameTable = table.nameTable := by
  rw [nameTable, h.named_eq, nameTable]

end TypeTable

/-! ### Looking up inverts naming -/

theorem GraphNode.parent?_of_isEndpoint {node : GraphNode} (h : node.isEndpoint = true) :
    node.kind.parent? = none := by
  rw [isEndpoint, isQuery, isMutation, Bool.or_eq_true, beq_iff_eq, beq_iff_eq] at h
  rcases h with hkind | hkind <;> rw [hkind] <;> rfl

/-- The containers may be searched in the order of their designations. -/
theorem TypeTable.Consistent.find?_containers {model : SchemaModel}
    (h : model.types.Consistent) (text : String) :
    model.containers.find? (fun container => container.designation == text) =
      model.anonymous? text := by
  have hperm : model.containers.Perm model.types.containers := List.mergeSort_perm _ _
  have hdistinct : (model.containers.map Container.designation).Nodup :=
    (hperm.map _).nodup_iff.mpr h.spellings
  ext container
  rw [find?_key_eq_some_iff hdistinct, hperm.mem_iff, SchemaModel.anonymous?,
    h.anonymous?_eq_some_iff]

namespace SchemaModel

/-- Looking up by name finds what has the name, and no two types and graph nodes have one name. -/
structure InvertsNames (model : SchemaModel) : Prop where
  types : ∀ name type, model.typeNamed? name = some type ↔
    type ∈ model.types.types ∧ type.isAnonymous = false ∧ type.designation = name
  containers : ∀ text container, model.anonymous? text = some container ↔
    container ∈ model.types.containers ∧ container.designation = text
  nodes : ∀ graphName node, model.nodeNamed? graphName = some node ↔
    node ∈ model.registry.nodes ∧ node.graphName = graphName
  apart : (model.types.types.map SchemaType.designation ++
    model.registry.nodes.map GraphNode.graphName).Nodup
  /-- The numbers of the types may be looked up in any table that is made of their names. -/
  rebuilt : ∀ entries : List (String × TypeId), entries.Perm model.types.nameTable → ∀ name,
    (entries.lookup name).bind model.type? = model.typeNamed? name
  /-- The containers may be searched in the order of their designations. -/
  sorted : ∀ text, model.containers.find? (fun container => container.designation == text) =
    model.anonymous? text
  /-- A member has its name behind that of its type. -/
  members : ∀ node ∈ model.registry.nodes, ∀ parent, node.kind.parent? = some parent →
    ∃ type, model.type? parent = some (.declared type) ∧
      node.graphName = type.name ++ "." ++ node.name
  endpoints : ∀ node ∈ model.registry.nodes, node.isEndpoint = true → node.graphName = node.name
  /-- No endpoint has the graph name of a member. -/
  dotted : ∀ node ∈ model.registry.nodes, node.isEndpoint = true →
    ∀ member ∈ model.registry.nodes, ∀ parent, member.kind.parent? = some parent →
      ∀ type, model.type? parent = some (.declared type) →
        node.graphName ≠ type.name ++ "." ++ member.name

/-- The names of the types stand for the numbers that they stand for in the registry, whatever has
been resolved in it. -/
structure NamedAsRegistered (model : SchemaModel) (registry : Registry) : Prop where
  linked : model.registry = registry.linked
  found : ∀ references name, (model.typeNamed? name).map SchemaType.id =
    ((registry.types.resolveAll references).named? name).map SchemaType.id

variable {model : SchemaModel} {document : Document}

namespace Describes

variable (h : model.Describes document)
include h

/-- The graph names of a model are those that are written. -/
theorem graphNames_eq : model.registry.nodes.map GraphNode.graphName =
    (document.declarations.flatMap Declaration.writtenNodes).map WrittenNode.graphName :=
  (map_eq_map_of_forall₂ h.nodes fun _ _ described => described.graphName.symm).symm

/-- The name of a declared type is written. -/
theorem name_mem {type : DeclaredType} (mem : type ∈ model.declared) :
    type.name ∈ Document.typeNames document.declarations := by
  obtain ⟨declaration, hmem, -, hdescribed⟩ := exists_left_of_forall₂ h.declared mem
  have hdeclaration := List.mem_of_mem_filter hmem
  have hname (name : Token) (htype : declaration.typeName? = some name) :
      name.text ∈ Document.typeNames document.declarations :=
    List.mem_map_of_mem (List.mem_filterMap.mpr ⟨declaration, hdeclaration, htype⟩)
  cases declaration with
  | typeAlias keyword name equals target =>
    rw [hdescribed.1]
    exact hname name rfl
  | block keyword name opening body closing =>
    rw [hdescribed.1]
    exact hname name rfl
  | endpoint kind keyword signature => exact hdescribed.elim

/-- The types of a model are not spelled like graph nodes. -/
theorem isTypeSpelling (consistent : model.types.Consistent)
    (names : ∀ text ∈ Document.typeNames document.declarations,
      TokenKind.ofWord text = .typeName) {type : SchemaType} (mem : type ∈ model.types.types) :
    IsTypeSpelling type.designation := by
  have hnamed {base : SchemaType} (hbase : base ∈ model.types.named) :
      IsTypeSpelling base.designation := by
    obtain ⟨hmem, hanonymous⟩ := TypeTable.mem_named.mp hbase
    apply isTypeSpelling_of_ofWord
    cases base with
    | primitive primitive => cases primitive <;> decide +kernel
    | declared declared =>
      exact names _ (h.name_mem (TypeTable.declared_mem_types_iff.mp hmem))
    | container container => cases hanonymous
  cases type with
  | primitive primitive => exact hnamed (TypeTable.mem_named.mpr ⟨mem, rfl⟩)
  | declared declared => exact hnamed (TypeTable.mem_named.mpr ⟨mem, rfl⟩)
  | container container =>
    obtain ⟨modifiers, base, -, hbase, -, hspelled⟩ :=
      consistent.spelled (TypeTable.container_mem_types_iff.mp mem)
    rw [SchemaType.designation, hspelled]
    exact (hnamed hbase).spell modifiers

/-- A graph node is named after its type, or by its name alone. -/
theorem graphName_cases {node : GraphNode} (mem : node ∈ model.registry.nodes) :
    (∃ type, node.kind.parent? = some type.id ∧ model.type? type.id = some (.declared type) ∧
      node.graphName = type.name ++ "." ++ node.name) ∨
    node.kind.parent? = none ∧ node.graphName = node.name := by
  obtain ⟨written, -, hdescribed⟩ := exists_left_of_forall₂ h.nodes mem
  obtain ⟨-, hplace, hname, hgraphName, -⟩ := hdescribed
  have hnumber {type : DeclaredType} (htype : type ∈ model.declared) :
      model.type? type.id = some (.declared type) :=
    h.numbers _ (TypeTable.declared_mem_types_iff.mpr htype)
  rw [hgraphName, hname, WrittenNode.graphName]
  cases hwritten : written.place with
  | field owner =>
    rw [hwritten] at hplace
    obtain ⟨type, htype, howner, hkind⟩ := hplace
    exact .inl ⟨type, by rw [hkind]; rfl, hnumber htype, by rw [howner]⟩
  | property owner =>
    rw [hwritten] at hplace
    obtain ⟨type, htype, howner, hkind⟩ := hplace
    exact .inl ⟨type, by rw [hkind]; rfl, hnumber htype, by rw [howner]⟩
  | endpoint kind =>
    rw [hwritten] at hplace
    have hkind : node.kind = kind.nodeKind := hplace
    refine .inr ⟨?_, String.empty_append⟩
    rw [hkind]
    cases kind <;> rfl

/-- No two types and graph nodes are named alike if the graph names are distinct. -/
theorem names_nodup_append (consistent : model.types.Consistent)
    (names : ∀ text ∈ Document.typeNames document.declarations,
      TokenKind.ofWord text = .typeName)
    (distinct : (model.registry.nodes.map GraphNode.graphName).Nodup)
    (shapes : ∀ node ∈ model.registry.nodes, IsGraphName node.graphName) :
    (model.types.types.map SchemaType.designation ++
      model.registry.nodes.map GraphNode.graphName).Nodup := by
  refine List.nodup_append.mpr ⟨h.spellings, distinct, ?_⟩
  rintro text htext graphName hgraphName rfl
  obtain ⟨type, htype, rfl⟩ := List.mem_map.mp htext
  obtain ⟨node, hnode, hsame⟩ := List.mem_map.mp hgraphName
  refine (h.isTypeSpelling consistent names htype).not_isGraphName ?_
  rw [← hsame]
  exact shapes node hnode

/-- Looking up a number in a table that is made of the names, and then the type, finds the type. -/
theorem lookup_bind_type? (consistent : model.types.Consistent) {entries : List (String × TypeId)}
    (perm : entries.Perm model.types.nameTable) (name : String) :
    (entries.lookup name).bind model.type? = model.typeNamed? name := by
  rw [consistent.lookup_of_perm perm, Option.bind_map, typeNamed?]
  cases hfound : model.types.named? name with
  | none => rfl
  | some type =>
    obtain ⟨htype, -⟩ := consistent.named?_eq_some_iff.mp hfound
    exact h.numbers type (TypeTable.mem_named.mp htype).1

/-- No endpoint is named like a member if the graph names are distinct. -/
theorem graphName_ne_member (distinct : (model.registry.nodes.map GraphNode.graphName).Nodup)
    {node member : GraphNode} (mem : node ∈ model.registry.nodes)
    (endpoint : node.isEndpoint = true) (memMember : member ∈ model.registry.nodes)
    {parent : TypeId} (hparent : member.kind.parent? = some parent) {type : DeclaredType}
    (htype : model.type? parent = some (.declared type)) :
    node.graphName ≠ type.name ++ "." ++ member.name := by
  intro hsame
  rcases h.graphName_cases memMember with ⟨owner, hkind, howner, hgraphName⟩ | ⟨hkind, -⟩
  · obtain rfl := Option.some.inj (hkind.symm.trans hparent)
    obtain rfl : owner = type :=
      SchemaType.declared.inj (Option.some.inj (howner.symm.trans htype))
    -- the endpoint would be the member
    obtain rfl : node = member :=
      eq_of_key_eq distinct mem memMember (hsame.trans hgraphName.symm)
    rw [GraphNode.parent?_of_isEndpoint endpoint] at hparent
    cases hparent
  · rw [hkind] at hparent
    cases hparent

/-- Looking up inverts naming in a consistent model whose graph nodes have distinct graph names. -/
theorem invertsNames (consistent : model.types.Consistent)
    (names : ∀ text ∈ Document.typeNames document.declarations,
      TokenKind.ofWord text = .typeName)
    (distinct : (model.registry.nodes.map GraphNode.graphName).Nodup)
    (shapes : ∀ node ∈ model.registry.nodes, IsGraphName node.graphName) :
    model.InvertsNames := by
  refine ⟨?_, ?_, ?_, h.names_nodup_append consistent names distinct shapes, ?_, ?_, ?_, ?_, ?_⟩
  · intro name type
    rw [← and_assoc, ← TypeTable.mem_named]
    exact consistent.named?_eq_some_iff
  · exact fun text container => consistent.anonymous?_eq_some_iff
  · exact fun graphName node => find?_key_eq_some_iff distinct
  · exact fun entries hperm name => h.lookup_bind_type? consistent hperm name
  · exact consistent.find?_containers
  · intro node hnode parent hparent
    rcases h.graphName_cases hnode with ⟨type, hkind, htype, hgraphName⟩ | ⟨hkind, -⟩
    · obtain rfl := Option.some.inj (hkind.symm.trans hparent)
      exact ⟨type, htype, hgraphName⟩
    · rw [hkind] at hparent
      cases hparent
  · intro node hnode hendpoint
    rcases h.graphName_cases hnode with ⟨type, hkind, -⟩ | ⟨-, hgraphName⟩
    · rw [GraphNode.parent?_of_isEndpoint hendpoint] at hkind
      cases hkind
    · exact hgraphName
  · intro node hnode hendpoint member hmember parent hparent type htype
    exact h.graphName_ne_member distinct hnode hendpoint hmember hparent htype

end Describes

end SchemaModel

/-- The graph nodes of a faultless document have distinct graph names. -/
theorem Document.Faultless.graphNames_nodup {file : Path} {source : String} {document : Document}
    (h : document.Faultless) (spells : (Schema.stream file source).Spells document) :
    ((Schema.modelOf document).registry.nodes.map GraphNode.graphName).Nodup := by
  obtain ⟨hnames, hmembers⟩ :=
    (problems_body_eq_nil_iff document.header document.declarations).mp h.reading
  rw [(h.describes spells.plainNames).graphNames_eq]
  exact Document.graphNames_nodup (fun _ => spells.undottedName) hnames
    fun declaration hmem => (hmembers declaration hmem).1

namespace Registry

/-- The names of the types are not changed while references are resolved. -/
theorem Consistent.named?_linked {registry : Registry} (h : registry.Consistent)
    (references : List Designation) (name : String) :
    (registry.linked.types.named? name).map SchemaType.id =
      ((registry.types.resolveAll references).named? name).map SchemaType.id := by
  obtain ⟨-, hextends, -⟩ := h.types.resolveAll registry.references
  obtain ⟨hconsistent, hextendsHere, -⟩ := h.types.resolveAll references
  have hsame : registry.linked.types.nameTable =
      (registry.types.resolveAll references).nameTable := by
    rw [linked_types, TypeTable.nameTable_link, hextends.nameTable_eq, hextendsHere.nameTable_eq]
  rw [← h.linked.types.lookup_of_perm (.refl _), ← hconsistent.lookup_of_perm (.refl _), hsame]

end Registry

namespace Schema

/-- In the model of an accepted source text, looking up by name inverts naming. -/
theorem check_invertsNames {file : Path} {source : String} {model : SchemaModel}
    (accepted : (check file source).model = .ok model) :
    model.InvertsNames ∧ ∃ document, (stream file source).Spells document ∧
      model.NamedAsRegistered (.ofDeclarations document.declarations) := by
  obtain ⟨document, hspells, hfaultless, rfl⟩ := check_eq_ok_iff.mp accepted
  have hregistered := Registry.consistent_ofDeclarations document.declarations
  have hdescribes := hfaultless.describes hspells.plainNames
  refine ⟨?_, document, hspells, rfl, hregistered.named?_linked⟩
  refine hdescribes.invertsNames hregistered.linked.types
    (ofWord_typeNames hspells.grammatical hspells.words) (hfaultless.graphNames_nodup hspells) ?_
  intro node hnode
  obtain ⟨written, hwritten, hdescribed⟩ := exists_left_of_forall₂ hdescribes.nodes hnode
  rw [hdescribed.graphName]
  exact hspells.isGraphName hwritten

/-- A field of a struct and a query may have one name. -/
theorem check_invertsNames_homonyms : ∃ model,
    (check default "schema shop query item ?Item struct Item \x7b item []String \x7d").model =
      .ok model ∧ model.InvertsNames ∧
    ∃ document,
      (stream default "schema shop query item ?Item struct Item \x7b item []String \x7d").Spells
        document ∧ model.NamedAsRegistered (.ofDeclarations document.declarations) := by
  have hsome : (check default
      "schema shop query item ?Item struct Item \x7b item []String \x7d"
      ).model.toOption.isSome = true := by
    decide +kernel
  cases haccepted : (check default
      "schema shop query item ?Item struct Item \x7b item []String \x7d").model with
  | ok model => exact ⟨model, rfl, check_invertsNames haccepted⟩
  | error diagnostics =>
    rw [haccepted] at hsome
    cases hsome

end Schema

end GraphSchema
