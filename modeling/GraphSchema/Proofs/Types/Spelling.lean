import GraphSchema.Proofs.Types.Interning

/-!
# Spellings

The name of a type begins with neither of the two modifiers, so a canonical designation can be read
in one way only: it determines the modifiers and the name (`Designation.spell_injective`).  A type
of a table can be unwrapped down to one that has a name (`TypeTable.Consistent.exists_unwraps`), and
it is spelled by what is taken away (`TypeTable.Unwraps.spelled`).  In a table all of whose names
are plain, the container for a designation wraps the type that the designation names
(`TypeTable.Consistent.reference?_spec`).
-/

namespace GraphSchema

/-- A name that no modifier begins. -/
def PlainName (name : String) : Prop :=
  ∃ first rest, name.toList = first :: rest ∧ first ≠ '?' ∧ first ≠ '['

theorem Modifier.text_append_injective {modifier other : Modifier} {text rest : String}
    (h : modifier.text ++ text = other.text ++ rest) : modifier = other ∧ text = rest := by
  have hlist : (modifier.text ++ text).toList = (other.text ++ rest).toList := by rw [h]
  rw [String.toList_append, String.toList_append] at hlist
  cases modifier <;> cases other
  · refine ⟨rfl, String.toList_injective ?_⟩
    simpa [Modifier.text] using hlist
  · simp [Modifier.text] at hlist
  · simp [Modifier.text] at hlist
  · refine ⟨rfl, String.toList_injective ?_⟩
    simpa [Modifier.text] using hlist

theorem PlainName.ne_modifier {name : String} (h : PlainName name) (modifier : Modifier)
    (text : String) : name ≠ modifier.text ++ text := by
  intro heq
  obtain ⟨first, rest, hname, hquestion, hbracket⟩ := h
  rw [heq, String.toList_append] at hname
  cases modifier with
  | optional =>
    obtain ⟨hfirst, -⟩ := List.cons.inj hname
    exact hquestion hfirst.symm
  | list =>
    obtain ⟨hfirst, -⟩ := List.cons.inj hname
    exact hbracket hfirst.symm

/-- A spelling in front of a plain name can be read in one way only. -/
theorem Designation.spell_injective {modifiers others : List Modifier} {name other : String}
    (h : spell modifiers name = spell others other) (plain : PlainName name)
    (otherPlain : PlainName other) : modifiers = others ∧ name = other := by
  induction modifiers generalizing others with
  | nil =>
    cases others with
    | nil => exact ⟨rfl, h⟩
    | cons modifier others => exact absurd h (plain.ne_modifier modifier _)
  | cons modifier modifiers ih =>
    cases others with
    | nil => exact absurd h.symm (otherPlain.ne_modifier modifier _)
    | cons first others =>
      obtain ⟨rfl, hrest⟩ := Modifier.text_append_injective h
      obtain ⟨rfl, hname⟩ := ih hrest
      exact ⟨rfl, hname⟩

namespace TypeTable

variable {table : TypeTable}

/-- Taking away the modifiers of a type, the outermost first, leaves a type that has a name. -/
inductive Unwraps (table : TypeTable) : SchemaType → List Modifier → SchemaType → Prop
  | named {base : SchemaType} (named : base ∈ table.named) : Unwraps table base [] base
  | container {container : Container} {store base : SchemaType} {modifiers : List Modifier}
      (wraps : table.Wraps container store) (rest : Unwraps table store modifiers base) :
      Unwraps table (.container container) (container.modifier :: modifiers) base

theorem terminal_of_named {type : SchemaType} (h : type ∈ table.named) :
    type.terminal = type.id := by
  have hanonymous := (mem_named.mp h).2
  cases type with
  | container _ => cases hanonymous
  | primitive _ => rfl
  | declared _ => rfl

/-- A type is spelled by its modifiers in front of the name of its terminal. -/
theorem Unwraps.spelled {type base : SchemaType} {modifiers : List Modifier}
    (h : table.Unwraps type modifiers base) :
    base ∈ table.named ∧ type.terminal = base.id ∧
      type.designation = Designation.spell modifiers base.designation := by
  induction h with
  | named hnamed => exact ⟨hnamed, terminal_of_named hnamed, rfl⟩
  | container wraps _ ih =>
    obtain ⟨hnamed, hterminal, hdesignation⟩ := ih
    refine ⟨hnamed, wraps.terminal.trans hterminal, ?_⟩
    rw [SchemaType.designation, wraps.designation, hdesignation]
    rfl

/-- Every type of a consistent table can be unwrapped. -/
theorem Consistent.exists_unwraps (h : table.Consistent) {type : SchemaType}
    (mem : type ∈ table.types) : ∃ modifiers base, table.Unwraps type modifiers base := by
  -- a container wraps an older type, so the numbers decrease
  induction hnumber : type.id.number using Nat.strongRecOn generalizing type with
  | _ number ih =>
    cases type with
    | primitive primitive => exact ⟨[], _, .named (mem_named.mpr ⟨mem, rfl⟩)⟩
    | declared declared => exact ⟨[], _, .named (mem_named.mpr ⟨mem, rfl⟩)⟩
    | container container =>
      obtain ⟨store, hstore⟩ := h.wraps container (container_mem_types_iff.mp mem)
      obtain ⟨modifiers, base, hunwraps⟩ :=
        ih store.id.number (by rw [← hnumber]; exact hstore.older) hstore.mem rfl
      exact ⟨_, base, .container hstore hunwraps⟩

/-- Every container is spelled by modifiers in front of the name of its terminal. -/
theorem Consistent.spelled (h : table.Consistent) {container : Container}
    (hmem : container ∈ table.containers) :
    ∃ modifiers base, modifiers ≠ [] ∧ base ∈ table.named ∧ container.terminal = base.id ∧
      container.designation = Designation.spell modifiers base.designation := by
  obtain ⟨modifiers, base, hunwraps⟩ := h.exists_unwraps (container_mem_types hmem)
  obtain ⟨hnamed, hterminal, hdesignation⟩ := hunwraps.spelled
  refine ⟨modifiers, base, ?_, hnamed, hterminal, hdesignation⟩
  rintro rfl
  cases hunwraps with
  | named hcontainer => exact absurd (mem_named.mp hcontainer).2 Bool.true_eq_false.mp

/-- No name of a table begins like a modifier. -/
def Plain (table : TypeTable) : Prop :=
  ∀ type ∈ table.named, PlainName type.designation

/-- A designation with a declared name for which there are containers refers to a type that is
spelled like it and has the declared type as its terminal. -/
theorem Consistent.reference?_spec (h : table.Consistent) (plain : table.Plain)
    {designation : Designation} {base : SchemaType}
    (hbase : table.named? designation.terminal = some base)
    (parts : ∀ text, designation.HasPart text →
      ∃ container ∈ table.containers, container.designation = text) :
    ∃ type ∈ table.types, table.reference? designation = some type.id ∧
      type.designation = designation.canonical ∧ type.terminal = base.id ∧
      (designation.modifiers = [] → type = base) ∧
      (designation.modifiers ≠ [] → type.isAnonymous = true) := by
  obtain ⟨hnamed, hname⟩ := h.named?_eq_some_iff.mp hbase
  unfold reference?
  cases hmodifiers : designation.modifiers with
  | nil =>
    -- without modifiers it is the declared type itself
    refine ⟨base, (mem_named.mp hnamed).1, by rw [hbase, Option.map_some], ?_,
      terminal_of_named hnamed, fun _ => rfl, fun hne => absurd rfl hne⟩
    rw [Designation.canonical, hmodifiers, hname]
    rfl
  | cons modifier inner =>
    have hne : designation.modifiers ≠ [] := by
      rw [hmodifiers]
      exact List.cons_ne_nil _ _
    obtain ⟨container, hmem, hspelling⟩ :=
      parts designation.canonical (Designation.hasPart_canonical hne)
    obtain ⟨others, other, -, hother, hterminal, hspelled⟩ := h.spelled hmem
    -- the container is spelled in one way only
    have hsame : designation.terminal = other.designation := by
      rw [hspelling] at hspelled
      refine (Designation.spell_injective hspelled ?_ (plain other hother)).2
      rw [← hname]
      exact plain base hnamed
    have hbaseSame : base = other :=
      eq_of_key_eq h.names hnamed hother (hname.trans hsame)
    refine ⟨.container container, container_mem_types hmem, ?_, hspelling, ?_, ?_, fun _ => rfl⟩
    · rw [h.anonymous?_eq_some_iff.mpr ⟨hmem, hspelling⟩]
      rfl
    · rw [hbaseSame]
      exact hterminal
    · intro hnil
      cases hnil

end TypeTable

end GraphSchema
