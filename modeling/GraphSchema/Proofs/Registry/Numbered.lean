import GraphSchema.Proofs.Document.Places
import GraphSchema.Proofs.Registry.Kept
import GraphSchema.Proofs.Registry.Resolved
import GraphSchema.Proofs.Types.Formation

/-!
# Numbers

The numbers of a linked registry follow from what is kept of a document and nothing else
(`Registry.numbered_linked`).  Types that are kept are numbered in their order, and behind them the
containers in the order in which they are needed first; graph nodes and parameters are each numbered
from one in their order.  So nothing that is left out takes a number, and no number is given twice.
-/

namespace GraphSchema

namespace Document

/-- The name is that of a primitive type or of one that is declared. -/
def Defines (declarations : List Declaration) (name : String) : Prop :=
  (Primitive.ofName? name).isSome ∨ name ∈ typeNames declarations

instance (declarations : List Declaration) (name : String) :
    Decidable (Defines declarations name) :=
  inferInstanceAs (Decidable (_ ∨ _))

/-- The parts of designations with a defined name, each at the first place where it is needed. -/
def containers (declarations : List Declaration) : List String :=
  firsts id ((declarations.flatMap Declaration.references).flatMap fun reference =>
    if Defines declarations reference.terminal then reference.parts else [])

end Document

/-- What declarations introduce is numbered in order and without gaps, the containers behind the
declared types. -/
structure Registry.Numbered (declarations : List Declaration) (registry : Registry) : Prop where
  types : registry.types.declared.map (fun type => (type.id, type.name, type.position)) =
    (declarations.filterMap Declaration.typeName?).mapIdx fun index name =>
      (⟨100 + index⟩, name.text, name.start)
  containers : registry.types.containers.map (fun type => (type.id, type.designation)) =
    (Document.containers declarations).mapIdx fun index designation =>
      (⟨100 + (declarations.filterMap Declaration.typeName?).length + index⟩, designation)
  nodes : registry.nodes.map (fun node => (node.id, node.graphName, node.position)) =
    (declarations.flatMap Declaration.writtenNodes).mapIdx fun index written =>
      (⟨1 + index⟩, written.graphName, written.name.start)
  parameters : registry.parameters.map (fun parameter =>
      (parameter.id, parameter.name, parameter.position)) =
    (Document.parameters declarations).mapIdx fun index entry =>
      (⟨1 + index⟩, entry.2.name.text, entry.2.name.start)
  /-- There are no other types than the primitive ones, the declared ones and the containers. -/
  all : registry.types.types = Primitive.all.map .primitive ++
    (registry.types.declared.map .declared ++ registry.types.containers.map .container)
  /-- No type has the number of another one. -/
  distinct : (registry.types.types.map SchemaType.id).Nodup

/-- Entries with consecutive numbers are numbered in their order. -/
theorem map_numbered {α β ν κ : Type} {entries : List α} {others : List β} {number : α → ν}
    {key : α → κ} {other : β → κ} {make : Nat → ν} {first : Nat}
    (consecutive : entries.map number = (List.range' first entries.length).map make)
    (keys : others.map other = entries.map key) :
    entries.map (fun entry => (number entry, key entry)) =
      others.mapIdx fun index found => (make (first + index), other found) := by
  have hlength : others.length = entries.length := by simpa using congrArg List.length keys
  refine List.ext_getElem (by simpa using hlength.symm) ?_
  intro index hentry hother
  rw [List.length_map] at hentry
  rw [List.length_mapIdx] at hother
  have hnumber : number entries[index] = make (first + index) := by
    have hsame := List.getElem_of_eq consecutive (by rwa [List.length_map])
    simpa using hsame
  have hkey : other others[index] = key entries[index] := by
    have hsame := List.getElem_of_eq keys (by rwa [List.length_map])
    simpa using hsame
  rw [List.getElem_map, List.getElem_mapIdx, hnumber, hkey]

/-- The declared types of a consistent table have the first numbers that are given, the containers
the next ones, if they stand behind them. -/
theorem TypeTable.Consistent.numbers {table : TypeTable} (h : table.Consistent)
    (all : table.types = Primitive.all.map .primitive ++
      (table.declared.map .declared ++ table.containers.map .container)) :
    table.declared.map DeclaredType.id =
        (List.range' 100 table.declared.length).map TypeId.mk ∧
      table.containers.map Container.id =
        (List.range' (100 + table.declared.length) table.containers.length).map TypeId.mk := by
  have hassigned : table.assigned =
      table.declared.map .declared ++ table.containers.map .container :=
    List.append_cancel_left all
  have hlength : table.assigned.length = table.declared.length + table.containers.length := by
    rw [hassigned, List.length_append, List.length_map, List.length_map]
  have hnumbered := h.numbered
  rw [hlength, ← List.range'_append_1, hassigned, List.map_append, List.map_append, List.map_map,
    List.map_map] at hnumbered
  exact List.append_inj hnumbered (by simp)

namespace Registry

variable {registry : Registry} {declarations : List Declaration}

/-- Every parameter is recorded with the graph node that has it, in the order in which they are
written. -/
theorem Records.parameter_entries (h : Records declarations registry)
    (consistent : registry.Consistent) :
    List.Forall₂ (fun entry parameter => ∃ node ∈ registry.nodes,
      RecordsNode registry.types.declared registry.parameters entry.1 node ∧
        RecordsParameter node.id entry.2 parameter)
      (Document.parameters declarations) registry.parameters := by
  have hids : List.Forall₂ (fun entry id => ∃ node ∈ registry.nodes,
      RecordsNode registry.types.declared registry.parameters entry.1 node ∧
        ∃ parameter ∈ registry.parameters, parameter.id = id ∧
          RecordsParameter node.id entry.2 parameter)
      (Document.parameters declarations) (registry.nodes.flatMap GraphNode.parameters) := by
    have hnodes := forall₂_imp_of_mem h.nodes
      fun written _ node hnode hrecords => And.intro hnode hrecords
    refine List.rel_flatMap hnodes ?_
    rintro written node ⟨hnode, hrecords⟩
    rw [List.forall₂_map_left_iff]
    exact hrecords.parameters.imp fun _ _ hparameter => ⟨node, hnode, hrecords, hparameter⟩
  rw [← h.parameters, List.forall₂_map_right_iff] at hids
  -- a parameter is determined by its number
  refine forall₂_imp_of_mem hids ?_
  rintro entry - parameter hparameter ⟨node, hnode, hrecords, recorded, hmem, hid, hentry⟩
  obtain rfl := eq_of_key_eq consistent.parameter_ids hmem hparameter hid
  exact ⟨node, hnode, hrecords, hentry⟩

/-- The containers of a linked registry are formed in the order in which they are needed. -/
theorem Records.wrappings_linked (h : Records declarations registry)
    (consistent : registry.Consistent) (fresh : registry.types.containers = []) :
    registry.linked.types.wrappings = Document.containers declarations := by
  have hnone : registry.types.wrappings = [] := congrArg (List.map Container.designation) fresh
  have hneeds : registry.types.needs = fun reference =>
      if Document.Defines declarations reference.terminal then reference.parts else [] := by
    funext reference
    rw [TypeTable.needs]
    exact if_congr (h.isSome_named?_iff consistent reference.terminal) rfl rfl
  rw [linked_types, TypeTable.wrappings, TypeTable.containers_link, ← TypeTable.wrappings,
    consistent.types.wrappings_resolveAll, hnone, h.references, hneeds, List.nil_append]
  rfl

/-- What is kept of declarations is numbered in its order. -/
theorem numbered_linked (declarations : List Declaration) :
    (ofDeclarations declarations).linked.Numbered (Document.kept declarations) := by
  have hrecords := records_kept declarations
  have hlinked := records_kept_linked declarations
  have hconsistent := consistent_linked declarations
  have hall := types_linked declarations
  have hwrappings := hrecords.wrappings_linked (consistent_ofDeclarations declarations)
    (containers_ofDeclarations declarations)
  generalize (ofDeclarations declarations).linked = registry at *
  obtain ⟨hdeclared, hcontainers⟩ := hconsistent.types.numbers hall
  have hplaces := hlinked.declared_places
  have hcount : registry.types.declared.length =
      ((Document.kept declarations).filterMap Declaration.typeName?).length := by
    simpa using congrArg List.length hplaces
  have hnodes : ((Document.kept declarations).flatMap Declaration.writtenNodes).map
        (fun written => (written.graphName, written.name.start)) =
      registry.nodes.map fun node => (node.graphName, node.position) :=
    map_eq_map_of_forall₂ hlinked.nodes fun written node hnode => by
      rw [hnode.graphName, hnode.position]
  have hparameters : (Document.parameters (Document.kept declarations)).map
        (fun entry => (entry.2.name.text, entry.2.name.start)) =
      registry.parameters.map fun parameter => (parameter.name, parameter.position) :=
    map_eq_map_of_forall₂ (hlinked.parameter_entries hconsistent) fun entry parameter hentry => by
      obtain ⟨_, -, -, hparameter⟩ := hentry
      rw [hparameter.name, hparameter.position]
  refine ⟨map_numbered hdeclared hplaces.symm, ?_, map_numbered hconsistent.nodes hnodes,
    map_numbered hconsistent.parameters hparameters, hall, hconsistent.types.ids⟩
  rw [← hcount]
  refine map_numbered hcontainers ?_
  rw [← hwrappings]
  exact List.map_id _

end Registry

end GraphSchema
