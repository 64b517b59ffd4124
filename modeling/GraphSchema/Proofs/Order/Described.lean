import GraphSchema.Proofs.Fidelity
import GraphSchema.Proofs.Order.Views

/-!
# Views of described documents

What a document writes has a view of its own, and a model that describes the document shows it
(`SchemaModel.Describes.declared_view`, `SchemaModel.Describes.nodes_view`).  So what a model shows
is known from the texts of its document.
-/

namespace GraphSchema

/-! ### Views of what is written -/

/-- The view of a written parameter. -/
def TypedName.view (parameter : TypedName) : ParameterView :=
  ⟨parameter.name.text, some parameter.type.designation.canonical⟩

namespace NodePlace

/-- The word for the kind of a graph node that is written at a place. -/
def kindName : NodePlace → String
  | field _ => "struct field"
  | property _ => "resolver property"
  | endpoint kind => kind.nodeKind.kindName

/-- The name of the type that a graph node is written in. -/
def owner? : NodePlace → Option String
  | field owner | property owner => some owner.text
  | endpoint _ => none

end NodePlace

/-- The view of a written graph node. -/
def WrittenNode.view (written : WrittenNode) : NodeView where
  kind := written.place.kindName
  parent := written.place.owner?
  name := written.name.text
  graphName := written.graphName
  type := some written.type.designation.canonical
  parameters := written.parameters.map TypedName.view

/-- The view of what is written between braces. -/
def Body.view (owner : Token) : Body → BodyView
  | enum values => .enum (values.map Token.text)
  | union options => .union (options.map fun option => some option.designation.canonical)
  | struct fields => .struct (fields.map fun field => (field.written owner).view)
  | resolver properties =>
    .resolver (properties.map fun property => (property.written (.property owner)).view)

/-- The view of the type that is declared; an endpoint declares none. -/
def Declaration.view? : Declaration → Option TypeView
  | typeAlias _ name _ target => some ⟨name.text, .typeAlias (some target.text)⟩
  | block _ name _ body _ => some ⟨name.text, body.view name⟩
  | endpoint _ _ _ => none

/-! ### Models show what is written -/

namespace SchemaModel

variable {model : SchemaModel} {document : Document}

theorem GivesType.typeText {reference : Designation} {type : Option TypeId}
    (h : model.GivesType reference type) : model.typeText type = some reference.canonical := by
  obtain ⟨id, rfl, hdesignation⟩ := h
  exact hdesignation

namespace Describes

variable (h : model.Describes document)
include h

theorem designation?_id {type : SchemaType} (mem : type ∈ model.types.types) :
    model.types.designation? type.id = some type.designation := by
  have hnumber : model.types.type? type.id = some type := h.numbers type mem
  rw [TypeTable.designation?, hnumber, Option.map_some]

theorem typeText_declared {type : DeclaredType} (mem : type ∈ model.declared) :
    model.typeText (some type.id) = some type.name :=
  h.designation?_id (TypeTable.declared_mem_types_iff.mpr mem)

theorem kind_view {place : NodePlace} {kind : NodeKind}
    (matching : place.Matches model.declared kind) :
    kind.kindName = place.kindName ∧ model.typeText kind.parent? = place.owner? := by
  cases place with
  | field owner =>
    obtain ⟨type, hmem, hname, rfl⟩ := matching
    exact ⟨rfl, (h.typeText_declared hmem).trans (congrArg some hname)⟩
  | property owner =>
    obtain ⟨type, hmem, hname, rfl⟩ := matching
    exact ⟨rfl, (h.typeText_declared hmem).trans (congrArg some hname)⟩
  | endpoint sort =>
    obtain rfl := matching
    cases sort <;> exact ⟨rfl, rfl⟩

theorem node_view {written : WrittenNode} {node : GraphNode}
    (described : model.DescribesNode written node) : model.nodeView node = written.view := by
  obtain ⟨-, hplace, hname, hgraphName, -, -, htype, hparameters⟩ := described
  obtain ⟨hkind, hparent⟩ := h.kind_view hplace
  have hviews : (model.parametersOf node).map model.parameterView =
      written.parameters.map TypedName.view := by
    refine map_filterMap_eq_map_of_forall₂ (hparameters.imp ?_)
    rintro parameter id ⟨described, hfound, hdescribed⟩
    refine ⟨described, hfound, ?_⟩
    rw [parameterView, hdescribed.name, hdescribed.type.typeText, TypedName.view]
  rw [nodeView, hkind, hparent, hname, hgraphName, htype.typeText, hviews, WrittenNode.view]

theorem members_view {α : Type} {write : α → WrittenNode} {members : List α} {ids : List NodeId}
    (described : List.Forall₂ (fun member => model.DescribesMember (write member)) members ids) :
    (model.nodesOf ids).map model.nodeView = members.map fun member => (write member).view := by
  refine map_filterMap_eq_map_of_forall₂ (described.imp ?_)
  rintro member id ⟨node, hfound, hdescribed⟩
  exact ⟨node, hfound, h.node_view hdescribed⟩

theorem body_view {owner : Token} {body : Body} {described : TypeBody}
    (describes : model.DescribesBody owner body described) :
    model.bodyView described = body.view owner := by
  cases body with
  | enum values =>
    obtain rfl := describes
    rw [bodyView, List.map_map, Body.view]
    rfl
  | union options =>
    obtain ⟨described, rfl, hoptions⟩ := describes
    refine congrArg BodyView.union (map_eq_map_of_forall₂ hoptions ?_).symm
    intro option other hdescribed
    exact hdescribed.type.typeText.symm
  | struct fields =>
    obtain ⟨ids, rfl, hfields⟩ := describes
    exact congrArg BodyView.struct (h.members_view hfields)
  | resolver properties =>
    obtain ⟨ids, rfl, hproperties⟩ := describes
    exact congrArg BodyView.resolver (h.members_view hproperties)

theorem type_view {declaration : Declaration} {type : DeclaredType}
    (described : model.DescribesType declaration type) :
    declaration.view? = some (model.typeView type) := by
  cases declaration with
  | typeAlias keyword name equals target =>
    obtain ⟨-, hname, -, aliased, hfound, hbody⟩ := described
    have hfind : model.types.types.find?
        (fun type => !type.isAnonymous && type.designation == target.text) = some aliased := hfound
    have hmem := List.mem_of_find?_eq_some hfind
    have hnamed := List.find?_some hfind
    rw [Bool.and_eq_true, beq_iff_eq] at hnamed
    have htarget : model.typeText (some aliased.id) = some target.text :=
      (h.designation?_id hmem).trans (congrArg some hnamed.2)
    rw [typeView, hname, hbody, bodyView, htarget, Declaration.view?]
  | block keyword name opening body closing =>
    obtain ⟨-, hname, -, hbody⟩ := described
    rw [typeView, hname, h.body_view hbody, Declaration.view?]
  | endpoint kind keyword signature => exact absurd described.2 id

/-- A model shows the types that its document declares. -/
theorem declared_view :
    model.declared.map model.typeView = document.declarations.filterMap Declaration.view? := by
  have hnone (declaration : Declaration) (htype : declaration.declaresType = false) :
      declaration.view? = none := by
    cases declaration with
    | endpoint kind keyword signature => rfl
    | typeAlias | block => cases htype
  have hfilter : document.declarations.filterMap Declaration.view? =
      (document.declarations.filter Declaration.declaresType).filterMap Declaration.view? := by
    rw [List.filterMap_filter]
    refine List.filterMap_congr ?_
    intro declaration _
    split
    · rfl
    case isFalse htype => exact hnone declaration (Bool.eq_false_iff.mpr htype)
  have hviews : ((document.declarations.filter Declaration.declaresType).filterMap
      Declaration.view?).map id = model.declared.map model.typeView := by
    refine map_filterMap_eq_map_of_forall₂ (h.declared.flip.imp ?_)
    intro type declaration hdescribed
    exact ⟨_, h.type_view hdescribed, rfl⟩
  rw [hfilter, ← hviews, List.map_id]

/-- A model shows the graph nodes that its document writes. -/
theorem nodes_view : model.registry.nodes.map model.nodeView =
    (document.declarations.flatMap Declaration.writtenNodes).map WrittenNode.view :=
  (map_eq_map_of_forall₂ h.nodes fun _ _ described => (h.node_view described).symm).symm

/-- No two containers of a model are spelled alike. -/
theorem designations_nodup : (model.types.containers.map Container.designation).Nodup := by
  have hall := h.spellings
  rw [h.types, List.map_append, List.map_append, List.map_map, List.map_map] at hall
  have hcontainers := (List.nodup_append.mp (List.nodup_append.mp hall).2.1).2.1
  rwa [List.map_map] at hcontainers

end Describes

end SchemaModel

end GraphSchema
