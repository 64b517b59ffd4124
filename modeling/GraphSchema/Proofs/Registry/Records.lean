import GraphSchema.Registry
import Mathlib.Data.List.Forall2

/-!
# What a registry records

What is written in a document: the graph nodes of its declarations and the designations by which
they refer to types.  And what it means that a registry records it (`Registry.Records`): the
declared types, the graph nodes and the parameters are those that are written, in the order in which
they are written, and the references are the designations that are written.

What is recorded stays recorded while a registry grows (`Registry.RecordsType.mono`), and it does
not depend on the types that references are resolved to.
-/

namespace GraphSchema

/-! ### What is written -/

/-- Where a graph node is written: in a struct, in a resolver, or by itself. -/
inductive NodePlace where
  | field (owner : Token)
  | property (owner : Token)
  | endpoint (kind : EndpointKind)

/-- A graph node as it is written. -/
structure WrittenNode where
  place : NodePlace
  name : Token
  parameters : List TypedName
  type : TypeReference

/-- A field of a struct as a graph node. -/
def TypedName.written (owner : Token) (field : TypedName) : WrittenNode :=
  ⟨.field owner, field.name, [], field.type⟩

/-- A property of a resolver or an endpoint as a graph node. -/
def Signature.written (place : NodePlace) (signature : Signature) : WrittenNode :=
  ⟨place, signature.name, signature.parameterList, signature.type⟩

/-- The graph nodes of the members of a declaration. -/
def Body.writtenNodes (owner : Token) : Body → List WrittenNode
  | enum _ | union _ => []
  | struct fields => fields.map (TypedName.written owner)
  | resolver properties => properties.map (Signature.written (.property owner))

/-- The graph nodes that a declaration writes. -/
def Declaration.writtenNodes : Declaration → List WrittenNode
  | typeAlias _ _ _ _ => []
  | block _ name _ body _ => body.writtenNodes name
  | endpoint kind _ signature => [signature.written (.endpoint kind)]

/-- The designations of a graph node: those of its parameters, then its own. -/
def WrittenNode.references (node : WrittenNode) : List Designation :=
  node.parameters.map (fun parameter => parameter.type.designation) ++ [node.type.designation]

/-- The designations that a declaration writes. -/
def Declaration.references : Declaration → List Designation
  | typeAlias _ _ _ target => [target.bareDesignation]
  | block _ _ _ (.union options) _ => options.map TypeReference.designation
  | declaration => declaration.writtenNodes.flatMap WrittenNode.references

/-- What a graph node refers to is written by its declaration. -/
theorem Declaration.writtenNodes_references {declaration : Declaration} {written : WrittenNode}
    (h : written ∈ declaration.writtenNodes) : written.references ⊆ declaration.references := by
  have hall : declaration.writtenNodes.flatMap WrittenNode.references = declaration.references := by
    cases declaration with
    | typeAlias keyword name equals target => cases h
    | block keyword name opening body closing =>
      cases body with
      | union options => cases h
      | enum values => rfl
      | struct fields => rfl
      | resolver properties => rfl
    | endpoint kind keyword signature => rfl
  intro reference hreference
  rw [← hall]
  exact List.mem_flatMap.mpr ⟨written, h, hreference⟩

/-- What a graph node of a document refers to is written in the document. -/
theorem Document.references_subset {declarations : List Declaration} {written : WrittenNode}
    (h : written ∈ declarations.flatMap Declaration.writtenNodes) :
    written.references ⊆ declarations.flatMap Declaration.references := by
  intro reference hreference
  obtain ⟨declaration, hdeclaration, hwritten⟩ := List.mem_flatMap.mp h
  exact List.mem_flatMap.mpr
    ⟨declaration, hdeclaration, Declaration.writtenNodes_references hwritten hreference⟩

/-- A graph node that is written as an endpoint has the name that its declaration introduces. -/
theorem Declaration.endpointName?_of_place {declaration : Declaration} {written : WrittenNode}
    {kind : EndpointKind} (h : written ∈ declaration.writtenNodes)
    (place : written.place = .endpoint kind) : declaration.endpointName? = some written.name := by
  cases declaration with
  | typeAlias keyword name equals target => cases h
  | block keyword name opening body closing =>
    -- members of types are no endpoints
    exfalso
    cases body with
    | enum values => cases h
    | union options => cases h
    | struct fields =>
      obtain ⟨field, -, rfl⟩ := List.mem_map.mp h
      cases place
    | resolver properties =>
      obtain ⟨property, -, rfl⟩ := List.mem_map.mp h
      cases place
  | endpoint sort keyword signature =>
    obtain rfl := List.mem_singleton.mp h
    rfl

/-- A graph node as it is added to a registry. -/
def WrittenNode.draft (node : WrittenNode) : NodeDraft :=
  ⟨node.name, node.parameters, node.type⟩

/-- The name of a graph node in the whole schema. -/
def WrittenNode.graphName (node : WrittenNode) : String :=
  match node.place with
  | .field owner | .property owner => owner.text ++ "." ++ node.name.text
  | .endpoint _ => "" ++ node.name.text

/-- Does the declaration declare a type? -/
def Declaration.declaresType (declaration : Declaration) : Bool :=
  declaration.typeName?.isSome

/-! ### What is recorded -/

/-- The kind of a graph node is that of its place, and its parent is the type it is written in. -/
def NodePlace.Matches (types : List DeclaredType) (place : NodePlace) (kind : NodeKind) : Prop :=
  match place with
  | field owner => ∃ type ∈ types, type.name = owner.text ∧ kind = .structField type.id
  | property owner => ∃ type ∈ types, type.name = owner.text ∧ kind = .resolverProperty type.id
  | endpoint sort => kind = sort.nodeKind

/-- A parameter of a graph node is recorded as it is written. -/
structure RecordsParameter (target : NodeId) (written : TypedName) (parameter : Parameter) :
    Prop where
  target : parameter.target = target
  name : parameter.name = written.name.text
  position : parameter.position = written.name.start
  designation : parameter.designation = written.type.designation

/-- A graph node is recorded as it is written, with its parameters in order. -/
structure RecordsNode (types : List DeclaredType) (parameters : List Parameter)
    (written : WrittenNode) (node : GraphNode) : Prop where
  place : written.place.Matches types node.kind
  name : node.name = written.name.text
  graphName : node.graphName = written.graphName
  position : node.position = written.name.start
  designation : node.designation = written.type.designation
  parameters : List.Forall₂ (fun parameter id => ∃ recorded ∈ parameters, recorded.id = id ∧
    RecordsParameter node.id parameter recorded) written.parameters node.parameters

theorem NodePlace.Matches.mono {types others : List DeclaredType} {place : NodePlace}
    {kind : NodeKind} (h : place.Matches types kind) (sub : types ⊆ others) :
    place.Matches others kind := by
  cases place with
  | field owner =>
    obtain ⟨type, hmem, hrest⟩ := h
    exact ⟨type, sub hmem, hrest⟩
  | property owner =>
    obtain ⟨type, hmem, hrest⟩ := h
    exact ⟨type, sub hmem, hrest⟩
  | endpoint sort => exact h

theorem RecordsNode.mono {types others : List DeclaredType} {parameters more : List Parameter}
    {written : WrittenNode} {node : GraphNode} (h : RecordsNode types parameters written node)
    (subTypes : types ⊆ others) (subParameters : parameters ⊆ more) :
    RecordsNode others more written node := by
  refine ⟨h.place.mono subTypes, h.name, h.graphName, h.position, h.designation, ?_⟩
  refine h.parameters.imp ?_
  rintro parameter id ⟨recorded, hmem, hrest⟩
  exact ⟨recorded, subParameters hmem, hrest⟩

/-- A graph node is an endpoint if and only if it is written as one. -/
theorem RecordsNode.isEndpoint_iff {types : List DeclaredType} {parameters : List Parameter}
    {written : WrittenNode} {node : GraphNode} (h : RecordsNode types parameters written node) :
    node.isEndpoint = true ↔ ∃ kind, written.place = .endpoint kind := by
  have hmatches := h.place
  unfold GraphNode.isEndpoint GraphNode.isQuery GraphNode.isMutation
  cases hplace : written.place with
  | field owner =>
    rw [hplace] at hmatches
    obtain ⟨type, -, -, hkind⟩ := hmatches
    simp [hkind]
  | property owner =>
    rw [hplace] at hmatches
    obtain ⟨type, -, -, hkind⟩ := hmatches
    simp [hkind]
  | endpoint kind =>
    rw [hplace] at hmatches
    have hkind : node.kind = kind.nodeKind := hmatches
    cases kind <;> simp [hkind, EndpointKind.nodeKind]

namespace Registry

/-- A graph node of a registry is recorded as it is written. -/
def RecordsMember (registry : Registry) (written : WrittenNode) (id : NodeId) : Prop :=
  ∃ node ∈ registry.nodes, node.id = id ∧
    RecordsNode registry.types.declared registry.parameters written node

/-- What a declared type consists of is recorded as it is written. -/
def RecordsBody (registry : Registry) (owner : Token) : Body → TypeBody → Prop
  | .enum values, body => body = .enum (values.map fun value => ⟨value.text, value.start⟩)
  | .union options, body => ∃ recorded, body = .union recorded ∧
      recorded.map UnionOption.designation = options.map TypeReference.designation
  | .struct fields, body => ∃ ids, body = .struct ids ∧
      List.Forall₂ (fun field => registry.RecordsMember (field.written owner)) fields ids
  | .resolver properties, body => ∃ ids, body = .resolver ids ∧
      List.Forall₂ (fun property => registry.RecordsMember (property.written (.property owner)))
        properties ids

/-- A declared type is recorded as it is written. -/
def RecordsType (registry : Registry) (declaration : Declaration) (type : DeclaredType) : Prop :=
  match declaration with
  | .typeAlias _ name _ target => type.name = name.text ∧ type.position = name.start ∧
      ∃ aliased, type.body = .typeAlias target.bareDesignation aliased
  | .block _ name _ body _ => type.name = name.text ∧ type.position = name.start ∧
      registry.RecordsBody name body type.body
  | .endpoint _ _ _ => False

/-- Declarations are recorded as they are written, and nothing else is. -/
structure Records (declarations : List Declaration) (registry : Registry) : Prop where
  types : List.Forall₂ registry.RecordsType (declarations.filter Declaration.declaresType)
    registry.types.declared
  nodes : List.Forall₂ (RecordsNode registry.types.declared registry.parameters)
    (declarations.flatMap Declaration.writtenNodes) registry.nodes
  parameters : registry.parameters.map Parameter.id =
    registry.nodes.flatMap GraphNode.parameters
  references : registry.references = declarations.flatMap Declaration.references

variable {registry next : Registry}

/-! ### What a recorded body is -/

theorem RecordsBody.not_alias {owner : Token} {body : Body} {target : Designation}
    {aliased : Option TypeId} (h : registry.RecordsBody owner body (.typeAlias target aliased)) :
    False := by
  cases body with
  | enum values => cases h
  | union options =>
    obtain ⟨recorded, hbody, -⟩ := h
    cases hbody
  | struct fields =>
    obtain ⟨ids, hbody, -⟩ := h
    cases hbody
  | resolver properties =>
    obtain ⟨ids, hbody, -⟩ := h
    cases hbody

theorem RecordsBody.exists_options {owner : Token} {body : Body} {recorded : List UnionOption}
    (h : registry.RecordsBody owner body (.union recorded)) : ∃ options, body = .union options := by
  cases body with
  | enum values => cases h
  | union options => exact ⟨options, rfl⟩
  | struct fields =>
    obtain ⟨ids, hbody, -⟩ := h
    cases hbody
  | resolver properties =>
    obtain ⟨ids, hbody, -⟩ := h
    cases hbody

theorem RecordsBody.exists_fields {owner : Token} {body : Body} {ids : List NodeId}
    (h : registry.RecordsBody owner body (.struct ids)) : ∃ fields, body = .struct fields := by
  cases body with
  | enum values => cases h
  | union options =>
    obtain ⟨recorded, hbody, -⟩ := h
    cases hbody
  | struct fields => exact ⟨fields, rfl⟩
  | resolver properties =>
    obtain ⟨others, hbody, -⟩ := h
    cases hbody

theorem RecordsBody.exists_properties {owner : Token} {body : Body} {ids : List NodeId}
    (h : registry.RecordsBody owner body (.resolver ids)) :
    ∃ properties, body = .resolver properties := by
  cases body with
  | enum values => cases h
  | union options =>
    obtain ⟨recorded, hbody, -⟩ := h
    cases hbody
  | struct fields =>
    obtain ⟨others, hbody, -⟩ := h
    cases hbody
  | resolver properties => exact ⟨properties, rfl⟩

/-! ### Recording goes on -/

/-- Nothing that a registry holds is missing in another one. -/
structure GrowsTo (registry next : Registry) : Prop where
  types : registry.types.declared ⊆ next.types.declared
  nodes : registry.nodes ⊆ next.nodes
  parameters : registry.parameters ⊆ next.parameters

theorem GrowsTo.refl (registry : Registry) : registry.GrowsTo registry :=
  ⟨List.Subset.refl _, List.Subset.refl _, List.Subset.refl _⟩

theorem GrowsTo.trans {last : Registry} (h : registry.GrowsTo next) (hlast : next.GrowsTo last) :
    registry.GrowsTo last :=
  ⟨List.Subset.trans h.types hlast.types, List.Subset.trans h.nodes hlast.nodes,
    List.Subset.trans h.parameters hlast.parameters⟩

theorem RecordsMember.mono {written : WrittenNode} {id : NodeId}
    (h : registry.RecordsMember written id) (grows : registry.GrowsTo next) :
    next.RecordsMember written id := by
  obtain ⟨node, hmem, hid, hrecords⟩ := h
  exact ⟨node, grows.nodes hmem, hid, hrecords.mono grows.types grows.parameters⟩

theorem RecordsBody.mono {owner : Token} {body : Body} {recorded : TypeBody}
    (h : registry.RecordsBody owner body recorded) (grows : registry.GrowsTo next) :
    next.RecordsBody owner body recorded := by
  cases body with
  | enum values => exact h
  | union options => exact h
  | struct fields =>
    obtain ⟨ids, hids, hall⟩ := h
    exact ⟨ids, hids, hall.imp fun _ _ hmember => hmember.mono grows⟩
  | resolver properties =>
    obtain ⟨ids, hids, hall⟩ := h
    exact ⟨ids, hids, hall.imp fun _ _ hmember => hmember.mono grows⟩

theorem RecordsType.mono {declaration : Declaration} {type : DeclaredType}
    (h : registry.RecordsType declaration type) (grows : registry.GrowsTo next) :
    next.RecordsType declaration type := by
  cases declaration with
  | typeAlias keyword name equals target => exact h
  | block keyword name opening body closing =>
    obtain ⟨hname, hposition, hbody⟩ := h
    exact ⟨hname, hposition, hbody.mono grows⟩
  | endpoint kind keyword signature => exact h

end Registry

end GraphSchema
