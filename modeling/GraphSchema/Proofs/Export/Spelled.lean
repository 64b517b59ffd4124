import GraphSchema.Proofs.Integrity
import GraphSchema.Proofs.Order.Described

/-!
# Spelled-out models

In an accepted model everything that the export leaves out is spelled out by names and numbers
(`SchemaModel.Spelled`): a reference is written like the type that it is given, and a graph name
consists of the name of the parent and the name of the graph node.
-/

namespace GraphSchema

namespace SchemaModel

variable {model : SchemaModel} {document : Document}

/-- A reference is spelled like the type that it is given, and it names a type that no modifier
begins. -/
structure Denotes (model : SchemaModel) (reference : Designation) (type : Option TypeId) :
    Prop where
  type : model.GivesType reference type
  plain : PlainName reference.terminal

/-- What stands in front of the name of a graph node in its graph name. -/
def ownerPrefix (model : SchemaModel) (kind : NodeKind) : String :=
  ((model.typeText kind.parent?).map (· ++ ".")).getD ""

/-- References are spelled like their types, and graph names like parents and names. -/
structure Spelled (model : SchemaModel) : Prop where
  intact : model.Intact
  consistent : model.registry.Consistent
  plain : model.types.Plain
  aliases : ∀ type ∈ model.declared, ∀ target aliased, type.body = .typeAlias target aliased →
    model.Denotes target aliased
  options : ∀ type ∈ model.declared, ∀ option ∈ type.options,
    model.Denotes option.designation option.type
  nodes : ∀ node ∈ model.registry.nodes, model.Denotes node.designation node.type
  parameters : ∀ parameter ∈ model.registry.parameters,
    model.Denotes parameter.designation parameter.type
  graphNames : ∀ node ∈ model.registry.nodes,
    node.graphName = model.ownerPrefix node.kind ++ node.name

/-- A field has no parameters. -/
theorem Intact.parameters_of_isField (h : model.Intact) {node : GraphNode}
    (hnode : node ∈ model.registry.nodes) (hfield : node.isField = true) :
    node.parameters = [] := by
  refine List.eq_nil_iff_forall_not_mem.mpr fun id hid => ?_
  obtain ⟨parameter, hfound, -⟩ := h.listed node hnode id hid
  obtain ⟨owner, -, howner, -, hunique⟩ :=
    h.owners parameter (List.mem_of_find?_eq_some hfound)
  obtain rfl := parameter?_id hfound
  rw [← hunique node hnode hid, hfield] at howner
  cases howner

/-! ### Accepted models -/

theorem Resolves.denotes {reference : Designation} {type : Option TypeId}
    (h : model.Resolves document reference type)
    (resolved : Registry.Resolved document.declarations model.registry) :
    model.Denotes reference type := by
  obtain ⟨base, -, hbase, -⟩ := resolved.reference?_spec h.written
  obtain ⟨hnamed, hname⟩ := resolved.consistent.types.named?_eq_some_iff.mp hbase
  refine ⟨h.type, ?_⟩
  rw [← hname]
  exact resolved.plain base hnamed

theorem Describes.graphName (h : model.Describes document) {node : GraphNode}
    (hnode : node ∈ model.registry.nodes) :
    node.graphName = model.ownerPrefix node.kind ++ node.name := by
  obtain ⟨written, -, hdescribed⟩ := exists_left_of_forall₂ h.nodes hnode
  rw [hdescribed.graphName, hdescribed.name, ownerPrefix, (h.kind_view hdescribed.place).2,
    WrittenNode.graphName]
  cases written.place <;> rfl

end SchemaModel

/-- The model of a faultless document is spelled out. -/
theorem Document.Faultless.spelled {document : Document} (h : document.Faultless)
    (plain : Registry.PlainNames document.declarations) : (Schema.modelOf document).Spelled := by
  have hdescribes := h.describes plain
  have hresolved : Registry.Resolved document.declarations (Schema.modelOf document).registry :=
    h.resolved plain
  have hconsistent := hresolved.consistent
  refine ⟨h.intact plain, hconsistent, hresolved.plain, ?_, ?_, ?_, ?_, ?_⟩
  · exact fun type htype target aliased body =>
      (hdescribes.aliased hconsistent htype body).denotes hresolved
  · exact fun type htype option hoption => (hdescribes.options htype hoption).denotes hresolved
  · exact fun node hnode => (hdescribes.nodeTypes hnode).denotes hresolved
  · exact fun parameter hparameter =>
      (hdescribes.parameterTypes hconsistent hparameter).denotes hresolved
  · exact fun node hnode => hdescribes.graphName hnode

end GraphSchema
