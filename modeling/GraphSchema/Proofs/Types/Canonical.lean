import GraphSchema.Proofs.Token.Words

/-!
# Canonical containers

A table is used by calls: types are declared under names of types, and designations are resolved, in
any order (`TableCall`).  Calls only add types to a table, and they keep it consistent and its names
plain (`TypeTable.Consistent.calls`, `TypeTable.Plain.calls`).

A designation is *formed* in a table if its name is declared and there is a container for each of
its parts.  Resolving forms a designation, which then stays formed, whatever is called
(`TypeTable.Formed.calls`).  A formed designation is resolved to the type that is spelled like it,
and nothing is added (`TypeTable.Formed.resolve_eq`).  As no two types of such a table are spelled
alike (`TypeTable.Consistent.eq_of_designation_eq`), designations and their types correspond to each
other: `TypeTable.calls_settle`.
-/

namespace GraphSchema

/-- A call to a table: a type is declared under the name of a type, or a designation is resolved. -/
inductive TableCall where
  | declare (name : String) (position : Cursor) (body : TypeBody)
      (rule : NamingRule.typeName.accepts name = true)
  | resolve (designation : Designation)

namespace TypeTable

/-- The table after a call; a declaration is left out if its name is taken. -/
def call (table : TypeTable) : TableCall → TypeTable
  | .declare name position body _ =>
    match table.declare name position body with
    | .ok (next, _) => next
    | .error _ => table
  | .resolve designation => (table.resolve designation).1

/-- The table after calls, one after the other. -/
def calls (table : TypeTable) (row : List TableCall) : TypeTable :=
  row.foldl call table

/-- A designation is resolved in a table, and its type is what the designation says. -/
structure Settles (table : TypeTable) (designation : Designation) (id : TypeId) : Prop where
  /-- Resolving it once more gives the same type and changes nothing. -/
  again : table.resolve designation = (table, some id)
  /-- The type is spelled like the designation. -/
  spelled : table.designation? id = some designation.canonical
  /-- Its terminal is the type with the name, which is no container. -/
  terminal : ∃ base, table.named? designation.terminal = some base ∧ table.terminal id = base.id ∧
    table.type? base.id = some base ∧ base.isAnonymous = false
  /-- Without modifiers it is that type itself. -/
  bare : designation.modifiers = [] → table.terminal id = id
  /-- With modifiers it is a container of the kind of the outermost one, and its store is the older
  type to which the designation without that modifier is resolved. -/
  wrapped : ∀ modifier inner, designation.modifiers = modifier :: inner →
    ∃ container, table.type? id = some (.container container) ∧ container.modifier = modifier ∧
      table.resolve { designation with modifiers := inner } = (table, some container.store) ∧
      container.store.number < id.number

variable {table : TypeTable}

/-! ### What calls keep -/

theorem Consistent.call (h : table.Consistent) (call : TableCall) :
    (table.call call).Consistent := by
  cases call with
  | declare name position body rule =>
    unfold TypeTable.call
    dsimp only
    split
    case h_1 hdeclare => exact h.declare hdeclare
    case h_2 => exact h
  | resolve designation => exact (h.resolve_spec designation).1

theorem plainName_of_accepts {name : String} (h : NamingRule.typeName.accepts name = true) :
    PlainName name :=
  TokenKind.plainName_of_ofWord (beq_iff_eq.mp h)

theorem Plain.call (plain : table.Plain) (h : table.Consistent) (call : TableCall) :
    (table.call call).Plain := by
  cases call with
  | declare name position body rule =>
    unfold TypeTable.call
    dsimp only
    split
    case h_1 hdeclare =>
      obtain ⟨-, -, rfl⟩ := declare_eq_ok hdeclare
      intro type htype
      rw [named, types_append, List.filter_append] at htype
      rcases List.mem_append.mp htype with hold | hnew
      · exact plain type hold
      · obtain rfl := List.mem_singleton.mp (List.mem_of_mem_filter hnew)
        exact plainName_of_accepts rule
    case h_2 => exact plain
  | resolve designation =>
    intro type htype
    rw [TypeTable.call, (h.resolve_spec designation).2.1.named_eq] at htype
    exact plain type htype

theorem Consistent.types_subset_call (h : table.Consistent) (call : TableCall) :
    table.types ⊆ (table.call call).types := by
  cases call with
  | declare name position body rule =>
    unfold TypeTable.call
    dsimp only
    split
    case h_1 hdeclare =>
      obtain ⟨-, -, rfl⟩ := declare_eq_ok hdeclare
      rw [types_append]
      exact List.subset_append_left _ _
    case h_2 => exact List.Subset.refl _
  | resolve designation => exact (h.resolve_spec designation).2.1.types_subset

/-- Calls add types to a table, and they keep it consistent and its names plain. -/
theorem Consistent.calls (h : table.Consistent) (plain : table.Plain) (row : List TableCall) :
    (table.calls row).Consistent ∧ (table.calls row).Plain ∧
      table.types ⊆ (table.calls row).types := by
  induction row generalizing table with
  | nil => exact ⟨h, plain, List.Subset.refl _⟩
  | cons call row ih =>
    obtain ⟨hconsistent, hplain, hsub⟩ := ih (h.call call) (plain.call h call)
    exact ⟨hconsistent, hplain, List.Subset.trans (h.types_subset_call call) hsub⟩

theorem plain_empty : empty.Plain := by
  intro type htype
  obtain ⟨hmem, -⟩ := mem_named.mp htype
  obtain ⟨primitive, -, rfl⟩ := List.mem_map.mp (by simpa [types, empty] using hmem)
  cases primitive <;> exact ⟨_, _, rfl, by decide, by decide⟩

/-! ### Spellings of types -/

/-- A container is spelled like no type that has a name. -/
theorem Consistent.designation_ne (h : table.Consistent) (plain : table.Plain)
    {container : Container} (hcontainer : container ∈ table.containers) {type : SchemaType}
    (htype : type ∈ table.named) : container.designation ≠ type.designation := by
  obtain ⟨store, hstore⟩ := h.wraps container hcontainer
  intro hsame
  rw [hstore.designation] at hsame
  exact (plain type htype).ne_modifier _ _ hsame.symm

/-- No two types are spelled alike. -/
theorem Consistent.eq_of_designation_eq (h : table.Consistent) (plain : table.Plain)
    {type other : SchemaType} (htype : type ∈ table.types) (hother : other ∈ table.types)
    (hsame : type.designation = other.designation) : type = other := by
  have hmixed {container : Container} {named : SchemaType}
      (hcontainer : .container container ∈ table.types) (hnamed : named ∈ table.types)
      (hanonymous : named.isAnonymous = false) : container.designation ≠ named.designation :=
    h.designation_ne plain (container_mem_types_iff.mp hcontainer)
      (mem_named.mpr ⟨hnamed, hanonymous⟩)
  cases hleft : type.isAnonymous with
  | false =>
    cases hright : other.isAnonymous with
    | false =>
      exact eq_of_key_eq h.names (mem_named.mpr ⟨htype, hleft⟩) (mem_named.mpr ⟨hother, hright⟩)
        hsame
    | true =>
      cases other with
      | container container => exact absurd hsame.symm (hmixed hother htype hleft)
      | primitive _ => cases hright
      | declared _ => cases hright
  | true =>
    cases type with
    | primitive _ => cases hleft
    | declared _ => cases hleft
    | container container =>
      cases hright : other.isAnonymous with
      | false => exact absurd hsame (hmixed htype hother hright)
      | true =>
        cases other with
        | primitive _ => cases hright
        | declared _ => cases hright
        | container second =>
          exact congrArg SchemaType.container (eq_of_key_eq h.spellings
            (container_mem_types_iff.mp htype) (container_mem_types_iff.mp hother) hsame)

/-! ### Formed designations -/

/-- The name of a designation is declared, and there is a container for each of its parts. -/
structure Formed (table : TypeTable) (designation : Designation) : Prop where
  known : (table.named? designation.terminal).isSome
  parts : ∀ text, designation.HasPart text →
    ∃ container ∈ table.containers, container.designation = text

theorem Consistent.formed_resolve (h : table.Consistent) {designation : Designation}
    (known : (table.named? designation.terminal).isSome) :
    (table.resolve designation).1.Formed designation := by
  obtain ⟨-, hextends, hparts, -⟩ := h.resolve_spec designation
  refine ⟨?_, fun text hpart => hparts text known hpart⟩
  rw [hextends.named?_eq]
  exact known

theorem Consistent.named?_mono (h : table.Consistent) {other : TypeTable}
    (consistent : other.Consistent) (sub : table.types ⊆ other.types) {name : String}
    {type : SchemaType} (hfound : table.named? name = some type) :
    other.named? name = some type := by
  obtain ⟨hnamed, hname⟩ := h.named?_eq_some_iff.mp hfound
  obtain ⟨hmem, hanonymous⟩ := mem_named.mp hnamed
  exact consistent.named?_eq_some_iff.mpr ⟨mem_named.mpr ⟨sub hmem, hanonymous⟩, hname⟩

theorem Formed.mono {designation : Designation} (formed : table.Formed designation)
    (h : table.Consistent) {other : TypeTable} (consistent : other.Consistent)
    (sub : table.types ⊆ other.types) : other.Formed designation := by
  refine ⟨?_, ?_⟩
  · obtain ⟨base, hbase⟩ := Option.isSome_iff_exists.mp formed.known
    rw [h.named?_mono consistent sub hbase]
    rfl
  · intro text hpart
    obtain ⟨container, hcontainer, hspelled⟩ := formed.parts text hpart
    refine ⟨container, ?_, hspelled⟩
    rw [← container_mem_types_iff] at hcontainer ⊢
    exact sub hcontainer

/-- A designation without its outermost modifier is formed, too. -/
theorem Formed.inner {designation : Designation} (formed : table.Formed designation)
    {modifier : Modifier} {inner : List Modifier}
    (hmodifiers : designation.modifiers = modifier :: inner) :
    table.Formed { designation with modifiers := inner } := by
  refine ⟨formed.known, ?_⟩
  rintro text ⟨suffix, hne, hsuffix, rfl⟩
  refine formed.parts _ ⟨suffix, hne, ?_, rfl⟩
  rw [hmodifiers]
  exact hsuffix.trans (List.suffix_cons modifier inner)

/-- Wrapping adds nothing if there is a container for every row of modifiers that is left. -/
theorem Consistent.wrap_eq (h : table.Consistent) {base : SchemaType} (hbase : base ∈ table.types)
    {modifiers : List Modifier}
    (parts : ∀ suffix, suffix ≠ [] → suffix <:+ modifiers → ∃ container ∈ table.containers,
      container.designation = Designation.spell suffix base.designation) :
    ∃ type ∈ table.types, type.designation = Designation.spell modifiers base.designation ∧
      table.wrap base.id modifiers = (table, type.id) := by
  induction modifiers with
  | nil => exact ⟨base, hbase, rfl, rfl⟩
  | cons modifier inner ih =>
    obtain ⟨store, hstore, hspelled, hinner⟩ := ih fun suffix hne hsuffix =>
      parts suffix hne (hsuffix.trans (List.suffix_cons modifier inner))
    obtain ⟨container, hcontainer, hwhole⟩ :=
      parts (modifier :: inner) (List.cons_ne_nil _ _) List.suffix_rfl
    have hfound : table.anonymous? (modifier.text ++ store.designation) = some container := by
      rw [h.anonymous?_eq_some_iff, hspelled]
      exact ⟨hcontainer, hwhole⟩
    refine ⟨.container container, container_mem_types hcontainer, hwhole, ?_⟩
    rw [wrap, hinner]
    exact intern_of_some h hstore hfound

/-- A formed designation is resolved to the type that is spelled like it, and nothing is added. -/
theorem Formed.resolve_eq {designation : Designation} (formed : table.Formed designation)
    (h : table.Consistent) : ∃ type ∈ table.types, type.designation = designation.canonical ∧
      table.resolve designation = (table, some type.id) := by
  obtain ⟨base, hbase⟩ := Option.isSome_iff_exists.mp formed.known
  obtain ⟨hnamed, hname⟩ := h.named?_eq_some_iff.mp hbase
  obtain ⟨type, htype, hspelled, hwrap⟩ :=
    h.wrap_eq (mem_named.mp hnamed).1 fun suffix hne hsuffix =>
      formed.parts _ ⟨suffix, hne, hsuffix, by rw [hname]⟩
  refine ⟨type, htype, ?_, ?_⟩
  · rw [hspelled, hname]
    rfl
  · simp only [resolve, hbase, hwrap]

/-- A designation is resolved only if its name is declared. -/
theorem isSome_named?_of_resolve {designation : Designation} {id : TypeId}
    (h : (table.resolve designation).2 = some id) :
    (table.named? designation.terminal).isSome := by
  unfold resolve at h
  split at h
  case h_1 => cases h
  case h_2 hfound =>
    rw [hfound]
    rfl

/-- Resolving gives a type that is spelled like the designation. -/
theorem Consistent.exists_of_resolve (h : table.Consistent) {designation : Designation}
    {id : TypeId} (hresolve : (table.resolve designation).2 = some id) :
    ∃ type ∈ (table.resolve designation).1.types, type.id = id ∧
      type.designation = designation.canonical := by
  unfold resolve at hresolve ⊢
  cases hbase : table.named? designation.terminal with
  | none =>
    rw [hbase] at hresolve
    cases hresolve
  | some base =>
    rw [hbase] at hresolve
    obtain ⟨hnamed, hname⟩ := h.named?_eq_some_iff.mp hbase
    obtain ⟨-, -, ⟨type, htype, hid, hspelled⟩, -⟩ :=
      h.wrap_spec (mem_named.mp hnamed).1 designation.modifiers
    rw [hname] at hspelled
    exact ⟨type, htype, hid.symm.trans (Option.some.inj hresolve), hspelled⟩

/-- A formed designation and the type that is spelled like it. -/
theorem Formed.settles {designation : Designation} (formed : table.Formed designation)
    (h : table.Consistent) (plain : table.Plain) {type : SchemaType} (htype : type ∈ table.types)
    (hspelled : type.designation = designation.canonical) :
    table.Settles designation type.id := by
  have hresolve {other : Designation} (otherFormed : table.Formed other) {found : SchemaType}
      (hfound : found ∈ table.types) (hother : found.designation = other.canonical) :
      table.resolve other = (table, some found.id) := by
    obtain ⟨same, hsame, hcanonical, heq⟩ := otherFormed.resolve_eq h
    rw [h.eq_of_designation_eq plain hfound hsame (hother.trans hcanonical.symm)]
    exact heq
  obtain ⟨base, hbase⟩ := Option.isSome_iff_exists.mp formed.known
  obtain ⟨hnamed, -⟩ := h.named?_eq_some_iff.mp hbase
  obtain ⟨hmem, hanonymous⟩ := mem_named.mp hnamed
  obtain ⟨same, hsame, -, hcanonical, hterminal, hbare, hwrapped⟩ :=
    h.reference?_spec plain hbase formed.parts
  obtain rfl := h.eq_of_designation_eq plain htype hsame (hspelled.trans hcanonical.symm)
  refine ⟨hresolve formed htype hspelled, ?_, ⟨base, hbase, ?_, h.type?_id hmem, hanonymous⟩,
    ?_, ?_⟩
  · rw [h.designation?_id htype, hspelled]
  · rw [h.terminal_id htype, hterminal]
  · intro hnil
    rw [h.terminal_id htype, hterminal, hbare hnil]
  · intro modifier inner hmodifiers
    have hne : designation.modifiers ≠ [] := by
      rw [hmodifiers]
      exact List.cons_ne_nil _ _
    cases type with
    | primitive _ => cases hwrapped hne
    | declared _ => cases hwrapped hne
    | container container =>
      obtain ⟨store, hstore⟩ := h.wraps container (container_mem_types_iff.mp htype)
      -- the spelling tells the modifier from what is wrapped
      have hspelling : container.modifier.text ++ store.designation =
          modifier.text ++ Designation.spell inner designation.terminal := by
        rw [← hstore.designation]
        refine hspelled.trans ?_
        rw [Designation.canonical, hmodifiers]
        rfl
      obtain ⟨hmodifier, hinner⟩ := Modifier.text_append_injective hspelling
      refine ⟨container, h.type?_id htype, hmodifier, ?_, ?_⟩
      · rw [hstore.id]
        exact hresolve (formed.inner hmodifiers) hstore.mem hinner
      · rw [hstore.id]
        exact hstore.older

/-! ### Calls to a table -/

/-- Once a designation was resolved, it is settled for all that is called later.  Another
designation is resolved to the same type if and only if it has the same modifiers and the same
name. -/
theorem calls_settle (before between : List TableCall) {designation : Designation} {id : TypeId}
    (resolved : ((empty.calls before).resolve designation).2 = some id) {later : TypeTable}
    (following : later = ((empty.calls before).resolve designation).1.calls between) :
    later.Settles designation id ∧
      ∀ other otherId, (later.resolve other).2 = some otherId →
        (id = otherId ↔ designation.modifiers = other.modifiers ∧
          designation.terminal = other.terminal) := by
  obtain ⟨hbefore, hplain, -⟩ := empty_consistent.calls plain_empty before
  generalize empty.calls before = table at *
  obtain ⟨type, htype, rfl, hspelled⟩ := hbefore.exists_of_resolve resolved
  have hformed := hbefore.formed_resolve (isSome_named?_of_resolve resolved)
  have hmiddle := hbefore.call (.resolve designation)
  have hmiddlePlain := hplain.call hbefore (.resolve designation)
  rw [call] at hmiddle hmiddlePlain
  obtain ⟨hlater, hlaterPlain, hsub⟩ := hmiddle.calls hmiddlePlain between
  rw [← following] at hlater hlaterPlain hsub
  have hlaterFormed := hformed.mono hmiddle hlater hsub
  refine ⟨hlaterFormed.settles hlater hlaterPlain (hsub htype) hspelled, ?_⟩
  intro other otherId hother
  -- both types are types of the table in which the other designation is resolved
  obtain ⟨second, hsecond, rfl, hsecondSpelled⟩ := hlater.exists_of_resolve hother
  obtain ⟨hlast, hextends, -⟩ := hlater.resolve_spec other
  have hlastPlain := hlaterPlain.call hlater (.resolve other)
  rw [call] at hlastPlain
  have hfirst := hextends.types_subset (hsub htype)
  constructor
  · intro hsame
    obtain rfl := eq_of_key_eq hlast.ids hfirst hsecond hsame
    have hplainTerminal {found : Designation} (known : (later.named? found.terminal).isSome) :
        PlainName found.terminal := by
      obtain ⟨base, hbase⟩ := Option.isSome_iff_exists.mp known
      obtain ⟨hnamed, hname⟩ := hlater.named?_eq_some_iff.mp hbase
      rw [← hname]
      exact hlaterPlain base hnamed
    exact Designation.spell_injective (hspelled.symm.trans hsecondSpelled)
      (hplainTerminal hlaterFormed.known) (hplainTerminal (isSome_named?_of_resolve hother))
  · rintro ⟨hmodifiers, hterminal⟩
    refine congrArg SchemaType.id (hlast.eq_of_designation_eq hlastPlain hfirst hsecond ?_)
    rw [hspelled, hsecondSpelled, Designation.canonical, hmodifiers, hterminal]
    rfl

/-- What is declared and resolved in between does not change the type of `?[]Item`, and the optional
of the optional of another type is another one. -/
theorem calls_settle_interleaved : ∃ later,
    ((empty.calls [.declare "Item" default (.struct []) (by decide +kernel)]).resolve
      ⟨[.optional, .list], "Item", default, default⟩).2 = some ⟨102⟩ ∧
    later = ((empty.calls [.declare "Item" default (.struct []) (by decide +kernel)]).resolve
      ⟨[.optional, .list], "Item", default, default⟩).1.calls
        [.resolve ⟨[.list, .list], "Item", default, default⟩,
          .declare "Other" default (.enum []) (by decide +kernel)] ∧
    later.Settles ⟨[.optional, .list], "Item", default, default⟩ ⟨102⟩ ∧
    (later.resolve ⟨[.optional, .optional], "Other", default, default⟩).2 = some ⟨106⟩ ∧
    ((⟨102⟩ : TypeId) = ⟨106⟩ ↔
      [Modifier.optional, .list] = [.optional, .optional] ∧ "Item" = "Other") := by
  have hresolved : ((empty.calls [.declare "Item" default (.struct [])
      (by decide +kernel)]).resolve ⟨[.optional, .list], "Item", default, default⟩).2 =
      some ⟨102⟩ := by
    decide +kernel
  obtain ⟨hsettles, hothers⟩ := calls_settle
    [.declare "Item" default (.struct []) (by decide +kernel)]
    [.resolve ⟨[.list, .list], "Item", default, default⟩,
      .declare "Other" default (.enum []) (by decide +kernel)] hresolved rfl
  have hother : ((((empty.calls [.declare "Item" default (.struct [])
      (by decide +kernel)]).resolve ⟨[.optional, .list], "Item", default, default⟩).1.calls
        [.resolve ⟨[.list, .list], "Item", default, default⟩,
          .declare "Other" default (.enum []) (by decide +kernel)]).resolve
      ⟨[.optional, .optional], "Other", default, default⟩).2 = some ⟨106⟩ := by
    decide +kernel
  exact ⟨_, hresolved, rfl, hsettles, hother, hothers _ _ hother⟩

end TypeTable

end GraphSchema
