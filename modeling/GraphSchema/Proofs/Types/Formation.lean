import GraphSchema.Proofs.Types.Interning

/-!
# The order in which containers are formed

A designation needs a container for each of its parts, and wrapping forms them from the innermost
modifier outward (`Designation.parts`).  Resolving designations one after the other forms the
containers in the order in which their spellings are needed for the first time; a container that
was formed before is not formed again (`TypeTable.Consistent.wrappings_resolveAll`).
-/

namespace GraphSchema

namespace Designation

/-- The spellings of modifiers in front of a name, from the innermost modifier outward. -/
def layers (terminal : String) : List Modifier → List String
  | [] => []
  | modifier :: inner => layers terminal inner ++ [spell (modifier :: inner) terminal]

/-- What is left of a designation without some of its outer modifiers, the shortest part first. -/
def parts (designation : Designation) : List String :=
  layers designation.terminal designation.modifiers

end Designation

namespace TypeTable

variable {table : TypeTable}

/-- The designations of the containers in the order of their numbers. -/
def wrappings (table : TypeTable) : List String :=
  table.containers.map Container.designation

theorem anonymous?_eq_none_iff {text : String} :
    table.anonymous? text = none ↔ text ∉ table.wrappings := by
  rw [anonymous?, List.find?_eq_none, wrappings, List.mem_map]
  constructor
  · rintro h ⟨container, hmem, rfl⟩
    exact h container hmem (beq_self_eq_true _)
  · intro h container hmem hsame
    exact h ⟨container, hmem, beq_iff_eq.mp hsame⟩

/-- A container is formed unless there is one with the same spelling. -/
theorem Consistent.wrappings_intern (h : table.Consistent) (modifier : Modifier)
    {store : SchemaType} (hstore : store ∈ table.types) :
    (table.intern modifier store.id).1.wrappings = table.wrappings ++
      firstsAfter id table.wrappings [modifier.text ++ store.designation] := by
  rw [firstsAfter, firstsAfter, firstsAfter]
  cases hfound : table.anonymous? (modifier.text ++ store.designation) with
  | some container =>
    obtain ⟨hmem, hdesignation⟩ := h.anonymous?_eq_some_iff.mp hfound
    have hold : id (modifier.text ++ store.designation) ∈ table.wrappings := by
      rw [← hdesignation]
      exact List.mem_map_of_mem hmem
    rw [intern_of_some h hstore hfound, if_pos hold, List.append_nil]
  | none =>
    have hnew : id (modifier.text ++ store.designation) ∉ table.wrappings :=
      anonymous?_eq_none_iff.mp hfound
    rw [intern_of_none h hstore hfound, if_neg hnew, wrappings, containers, List.filterMap_append,
      List.map_append]
    rfl

/-- Wrapping forms the containers from the innermost modifier outward. -/
theorem Consistent.wrappings_wrap (h : table.Consistent) {base : SchemaType}
    (hbase : base ∈ table.types) (modifiers : List Modifier) :
    (table.wrap base.id modifiers).1.wrappings = table.wrappings ++
      firstsAfter id table.wrappings (Designation.layers base.designation modifiers) := by
  induction modifiers with
  | nil => exact (List.append_nil _).symm
  | cons modifier inner ih =>
    obtain ⟨hinner, -, ⟨store, hstore, hid, hspelled⟩, -⟩ := h.wrap_spec hbase inner
    have hwrapped : table.wrap base.id (modifier :: inner) =
        (table.wrap base.id inner).1.intern modifier (table.wrap base.id inner).2 := rfl
    have hwhole : modifier.text ++ store.designation =
        Designation.spell (modifier :: inner) base.designation := by
      rw [hspelled]
      rfl
    rw [hwrapped, hid, hinner.wrappings_intern modifier hstore, ih, hwhole, Designation.layers,
      firstsAfter_append, List.map_id, List.append_assoc]

/-- The parts that a designation needs containers for: none unless its name is known. -/
def needs (table : TypeTable) (designation : Designation) : List String :=
  if (table.named? designation.terminal).isSome then designation.parts else []

theorem Consistent.wrappings_resolve (h : table.Consistent) (designation : Designation) :
    (table.resolve designation).1.wrappings =
      table.wrappings ++ firstsAfter id table.wrappings (table.needs designation) := by
  unfold resolve needs
  cases hbase : table.named? designation.terminal with
  | none => exact (List.append_nil _).symm
  | some base =>
    obtain ⟨hnamed, hname⟩ := h.named?_eq_some_iff.mp hbase
    rw [Option.isSome_some, if_pos rfl, Designation.parts, ← hname]
    exact h.wrappings_wrap (mem_named.mp hnamed).1 designation.modifiers

/-- Resolving designations forms containers in the order in which they are needed first. -/
theorem Consistent.wrappings_resolveAll (h : table.Consistent) (designations : List Designation) :
    (table.resolveAll designations).wrappings = table.wrappings ++
      firstsAfter id table.wrappings (designations.flatMap table.needs) := by
  induction designations generalizing table with
  | nil => exact (List.append_nil _).symm
  | cons first others ih =>
    obtain ⟨hmiddle, hextends, -⟩ := h.resolve_spec first
    have hstep : table.resolveAll (first :: others) =
        (table.resolve first).1.resolveAll others := rfl
    -- no name becomes known when containers are formed
    have hneeds : (table.resolve first).1.needs = table.needs := by
      funext designation
      rw [needs, hextends.named?_eq, needs]
    rw [hstep, ih hmiddle, hneeds, h.wrappings_resolve first, List.flatMap_cons,
      firstsAfter_append, List.map_id, List.append_assoc]

end TypeTable

end GraphSchema
