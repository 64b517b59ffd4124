import GraphSchema.Proofs.Types.Consistent

/-!
# Forming containers

Resolving designations adds nothing but containers to a table (`TypeTable.Extends`), and keeps it
consistent.  The *parts* of a designation are what is left of it when some of its outer modifiers
are taken away, as long as one is left.  After designations were resolved there is a container for
every part of every one whose name is declared, and there are no other new ones
(`TypeTable.Consistent.resolveAll`).
-/

namespace GraphSchema

/-- A text is what is left of a designation without some of its outer modifiers; one at least is
left. -/
def Designation.HasPart (designation : Designation) (text : String) : Prop :=
  ∃ suffix, suffix ≠ [] ∧ suffix <:+ designation.modifiers ∧
    text = Designation.spell suffix designation.terminal

theorem Designation.hasPart_canonical {designation : Designation} (h : designation.modifiers ≠ []) :
    designation.HasPart designation.canonical :=
  ⟨designation.modifiers, h, List.suffix_rfl, rfl⟩

namespace TypeTable

/-- Nothing but containers was added to a table. -/
def Extends (table other : TypeTable) : Prop :=
  ∃ formed : List Container, other.assigned = table.assigned ++ formed.map .container

variable {table other : TypeTable}

/-! ### Extensions -/

theorem Extends.refl (table : TypeTable) : table.Extends table :=
  ⟨[], by simp⟩

theorem Extends.trans {last : TypeTable} (h : table.Extends other) (hlast : other.Extends last) :
    table.Extends last := by
  obtain ⟨formed, hformed⟩ := h
  obtain ⟨others, hothers⟩ := hlast
  exact ⟨formed ++ others, by rw [hothers, hformed, List.map_append, List.append_assoc]⟩

theorem Extends.types_subset (h : table.Extends other) : table.types ⊆ other.types := by
  obtain ⟨formed, hformed⟩ := h
  rw [types, types, hformed, ← List.append_assoc]
  exact List.subset_append_left _ _

theorem Extends.containers_subset (h : table.Extends other) :
    table.containers ⊆ other.containers := by
  intro container hmem
  rw [← container_mem_types_iff] at hmem ⊢
  exact h.types_subset hmem

/-- The declared types and those with names stay as they are. -/
theorem Extends.named_eq (h : table.Extends other) : other.named = table.named := by
  obtain ⟨formed, hformed⟩ := h
  have hnone : (formed.map SchemaType.container).filter (fun type => !type.isAnonymous) = [] := by
    simp [SchemaType.isAnonymous]
  rw [named, named, types, types, hformed, ← List.append_assoc, List.filter_append _ (formed.map _),
    hnone, List.append_nil]

theorem Extends.declared_eq (h : table.Extends other) : other.declared = table.declared := by
  obtain ⟨formed, hformed⟩ := h
  have hnone : (formed.map SchemaType.container).filterMap SchemaType.declared? = [] := by
    simp [SchemaType.declared?]
  rw [declared, declared, hformed, List.filterMap_append, hnone, List.append_nil]

theorem Extends.named?_eq (h : table.Extends other) (name : String) :
    other.named? name = table.named? name := by
  rw [named?_eq_find?, named?_eq_find?, h.named_eq]

/-! ### One container -/

theorem intern_of_some {modifier : Modifier} {store : SchemaType} (h : table.Consistent)
    (hstore : store ∈ table.types) {container : Container}
    (hfound : table.anonymous? (modifier.text ++ store.designation) = some container) :
    table.intern modifier store.id = (table, container.id) := by
  simp [intern, h.designation?_id hstore, hfound]

theorem intern_of_none {modifier : Modifier} {store : SchemaType} (h : table.Consistent)
    (hstore : store ∈ table.types)
    (hfound : table.anonymous? (modifier.text ++ store.designation) = none) :
    table.intern modifier store.id =
      (⟨table.assigned ++ [.container ⟨table.nextId, modifier, modifier.text ++ store.designation,
        store.id, store.terminal⟩]⟩, table.nextId) := by
  simp [intern, h.designation?_id hstore, hfound, h.terminal_id hstore]

/-- The types of a table are older than the next one. -/
theorem Consistent.number_lt (h : table.Consistent) {type : SchemaType}
    (hmem : type ∈ table.types) :
    type.id.number < table.nextId.number := by
  rw [types, List.mem_append] at hmem
  have hnext : table.nextId.number = TypeId.firstAssigned + table.assigned.length := rfl
  rcases hmem with hmem | hmem
  · obtain ⟨primitive, -, rfl⟩ := List.mem_map.mp hmem
    have hlow := Primitive.id_lt primitive
    rw [SchemaType.id]
    omega
  · have hhigh := (h.firstAssigned_le hmem).2
    omega

/-- Interning gives the container that a modifier makes of a type; only that one may be new. -/
theorem Consistent.intern_spec (h : table.Consistent) (modifier : Modifier) {store : SchemaType}
    (hstore : store ∈ table.types) :
    ∃ container, (table.intern modifier store.id).2 = container.id ∧
      container ∈ (table.intern modifier store.id).1.containers ∧
      container.designation = modifier.text ++ store.designation ∧
      (table.intern modifier store.id).1.Consistent ∧
      table.Extends (table.intern modifier store.id).1 ∧
      ∀ formed ∈ (table.intern modifier store.id).1.containers,
        formed ∈ table.containers ∨ formed = container := by
  cases hfound : table.anonymous? (modifier.text ++ store.designation) with
  | some container =>
    -- the container was formed before
    obtain ⟨hmem, hdesignation⟩ := h.anonymous?_eq_some_iff.mp hfound
    rw [intern_of_some h hstore hfound]
    exact ⟨container, rfl, hmem, hdesignation, h, Extends.refl table, fun _ => Or.inl⟩
  | none =>
    rw [intern_of_none h hstore hfound]
    refine ⟨⟨table.nextId, modifier, modifier.text ++ store.designation, store.id, store.terminal⟩,
      rfl, mem_containers.mpr (by simp), rfl, ?_, ⟨[_], rfl⟩, ?_⟩
    · exact h.append_container rfl hfound ⟨hstore, rfl, h.number_lt hstore, rfl, rfl⟩
    · intro formed hformed
      rw [mem_containers] at hformed ⊢
      rcases List.mem_append.mp hformed with hold | hnew
      · exact .inl hold
      · exact .inr (SchemaType.container.inj (List.mem_singleton.mp hnew))

/-! ### One designation -/

/-- Wrapping a type in modifiers forms the containers for all suffixes of the modifiers. -/
theorem Consistent.wrap_spec (h : table.Consistent) {base : SchemaType} (hbase : base ∈ table.types)
    (modifiers : List Modifier) :
    (table.wrap base.id modifiers).1.Consistent ∧
      table.Extends (table.wrap base.id modifiers).1 ∧
      (∃ type ∈ (table.wrap base.id modifiers).1.types, (table.wrap base.id modifiers).2 = type.id ∧
        type.designation = Designation.spell modifiers base.designation) ∧
      (∀ suffix, suffix ≠ [] → suffix <:+ modifiers →
        ∃ container ∈ (table.wrap base.id modifiers).1.containers,
          container.designation = Designation.spell suffix base.designation) ∧
      ∀ container ∈ (table.wrap base.id modifiers).1.containers, container ∈ table.containers ∨
        ∃ suffix, suffix ≠ [] ∧ suffix <:+ modifiers ∧
          container.designation = Designation.spell suffix base.designation := by
  induction modifiers with
  | nil =>
    refine ⟨h, Extends.refl table, ⟨base, hbase, rfl, rfl⟩, ?_, fun _ => Or.inl⟩
    intro suffix hne hsuffix
    exact absurd (List.suffix_nil.mp hsuffix) hne
  | cons modifier inner ih =>
    -- the inner modifiers are wrapped first
    obtain ⟨hinner, hextends, ⟨store, hstore, hid, hspelled⟩, hparts, honly⟩ := ih
    rw [wrap]
    dsimp only
    generalize table.wrap base.id inner = wrapped at *
    obtain ⟨middle, id⟩ := wrapped
    dsimp only at *
    subst hid
    obtain ⟨container, hcontainer, hmem, hdesignation, hlast, hgrown, hnew⟩ :=
      hinner.intern_spec modifier hstore
    have hwhole :
        container.designation = Designation.spell (modifier :: inner) base.designation := by
      rw [hdesignation, hspelled]
      rfl
    refine ⟨hlast, hextends.trans hgrown, ⟨.container container, container_mem_types hmem, ?_⟩,
      ?_, ?_⟩
    · exact ⟨hcontainer, hwhole⟩
    · intro suffix hne hsuffix
      -- either all modifiers are left, or some of the inner ones
      rcases List.suffix_cons_iff.mp hsuffix with rfl | hsuffix
      · exact ⟨container, hmem, hwhole⟩
      · obtain ⟨part, hpart, hspelling⟩ := hparts suffix hne hsuffix
        exact ⟨part, hgrown.containers_subset hpart, hspelling⟩
    · intro formed hformed
      rcases hnew formed hformed with hold | rfl
      · rcases honly formed hold with hold | ⟨suffix, hne, hsuffix, hspelling⟩
        · exact .inl hold
        · exact .inr ⟨suffix, hne, hsuffix.trans (List.suffix_cons ..), hspelling⟩
      · exact .inr ⟨modifier :: inner, List.cons_ne_nil _ _, List.suffix_rfl, hwhole⟩

/-- Resolving a designation forms the containers for its parts. -/
theorem Consistent.resolve_spec (h : table.Consistent) (designation : Designation) :
    (table.resolve designation).1.Consistent ∧ table.Extends (table.resolve designation).1 ∧
      (∀ text, (table.named? designation.terminal).isSome → designation.HasPart text →
        ∃ container ∈ (table.resolve designation).1.containers, container.designation = text) ∧
      ∀ container ∈ (table.resolve designation).1.containers, container ∈ table.containers ∨
        (table.named? designation.terminal).isSome ∧ designation.HasPart container.designation := by
  unfold resolve
  cases hbase : table.named? designation.terminal with
  | none =>
    refine ⟨h, Extends.refl table, ?_, fun _ => Or.inl⟩
    intro text hsome
    cases hsome
  | some base =>
    obtain ⟨hnamed, hname⟩ := h.named?_eq_some_iff.mp hbase
    obtain ⟨hlast, hextends, -, hparts, honly⟩ :=
      h.wrap_spec (mem_named.mp hnamed).1 designation.modifiers
    rw [hname] at hparts honly
    refine ⟨hlast, hextends, ?_, ?_⟩
    · rintro text - ⟨suffix, hne, hsuffix, rfl⟩
      exact hparts suffix hne hsuffix
    · intro container hmem
      rcases honly container hmem with hold | hnew
      · exact .inl hold
      · exact .inr ⟨rfl, hnew⟩

/-! ### Many designations -/

/-- Resolving designations forms the containers for all their parts. -/
theorem Consistent.resolveAll (h : table.Consistent) (designations : List Designation) :
    (table.resolveAll designations).Consistent ∧ table.Extends (table.resolveAll designations) ∧
      (∀ designation ∈ designations, (table.named? designation.terminal).isSome →
        ∀ text, designation.HasPart text →
          ∃ container ∈ (table.resolveAll designations).containers, container.designation = text) ∧
      ∀ container ∈ (table.resolveAll designations).containers, container ∈ table.containers ∨
        ∃ designation ∈ designations, (table.named? designation.terminal).isSome ∧
          designation.HasPart container.designation := by
  induction designations generalizing table with
  | nil =>
    refine ⟨h, Extends.refl table, ?_, fun _ => Or.inl⟩
    intro designation hmem
    cases hmem
  | cons first others ih =>
    obtain ⟨hmiddle, hextends, hparts, honly⟩ := h.resolve_spec first
    obtain ⟨hlast, hgrown, hothers, hnew⟩ := ih hmiddle
    have hstep : table.resolveAll (first :: others) =
        (table.resolve first).1.resolveAll others := rfl
    rw [hstep]
    refine ⟨hlast, hextends.trans hgrown, ?_, ?_⟩
    · intro designation hmem hsome text hpart
      rcases List.mem_cons.mp hmem with rfl | hmem
      · obtain ⟨container, hcontainer, hspelling⟩ := hparts text hsome hpart
        exact ⟨container, hgrown.containers_subset hcontainer, hspelling⟩
      · -- the name was declared before the first designation was resolved, too
        rw [← hextends.named?_eq] at hsome
        exact hothers designation hmem hsome text hpart
    · intro container hmem
      rcases hnew container hmem with hold | ⟨designation, hdesignation, hsome, hpart⟩
      · rcases honly container hold with hold | ⟨hsome, hpart⟩
        · exact .inl hold
        · exact .inr ⟨first, List.mem_cons_self .., hsome, hpart⟩
      · rw [hextends.named?_eq] at hsome
        exact .inr ⟨designation, List.mem_cons_of_mem _ hdesignation, hsome, hpart⟩

end TypeTable

end GraphSchema
