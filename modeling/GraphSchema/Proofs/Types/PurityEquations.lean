import GraphSchema.Proofs.Pointwise
import GraphSchema.Proofs.Types.Bodies
import GraphSchema.Proofs.Types.Purity

/-!
# Purity as a solution of equations

A container uses its terminal, an alias the type that it stands for, a union the types of its
options (`TypeTable.Uses`).  Resolvers and `None` are dataless.  Whether a type is pure satisfies
the equations one expects: what uses other types is pure if and only if all of these are
(`TypeTable.Solves`).  There may be several solutions if types use each other in a circle, and
purity is the greatest one, for it holds of everything from which nothing dataless can be reached.

The search stops by itself, long before it has made as many steps as it may
(`TypeTable.Consistent.searches`), and its answer does not depend on the order of options
(`TypeTable.Consistent.isPure_reorders`).
-/

namespace GraphSchema

open Relation

/-- A type with the options of a union in another order. -/
inductive SchemaType.Reorders : SchemaType → SchemaType → Prop
  | same (type : SchemaType) : Reorders type type
  | union {id : TypeId} {name : String} {position : Cursor} {options others : List UnionOption}
      (perm : options.Perm others) :
      Reorders (.declared ⟨id, name, position, .union options⟩)
        (.declared ⟨id, name, position, .union others⟩)

namespace TypeTable

/-- A table with the options of unions in another order. -/
def Reorders (table other : TypeTable) : Prop :=
  List.Forall₂ SchemaType.Reorders table.assigned other.assigned

/-- A type uses another one: as its terminal, as the type that it stands for, or as an option.
Unknown types and references that are not resolved use nothing. -/
inductive Uses (table : TypeTable) : TypeId → TypeId → Prop
  | terminal {id : TypeId} {container : Container}
      (found : table.type? id = some (.container container)) : Uses table id container.terminal
  | aliased {id next : TypeId} {type : DeclaredType} {target : Designation}
      (found : table.type? id = some (.declared type))
      (body : type.body = .typeAlias target (some next)) : Uses table id next
  | option {id next : TypeId} {type : DeclaredType} {options : List UnionOption}
      {option : UnionOption} (found : table.type? id = some (.declared type))
      (body : type.body = .union options) (mem : option ∈ options)
      (resolved : option.type = some next) : Uses table id next

/-- A type carries no data by itself: it is `None` or a resolver. -/
def IsDataless (table : TypeTable) (id : TypeId) : Prop :=
  id = Primitive.nothing.id ∨
    ∃ type properties, table.type? id = some (.declared type) ∧ type.body = .resolver properties

/-- A property of types that holds of a container, an alias or a union if and only if it holds of
everything that is directly referred to, and of everything else but resolvers and `None`. -/
structure Solves (table : TypeTable) (pure : TypeId → Prop) : Prop where
  container : ∀ id container, table.type? id = some (.container container) →
    (pure id ↔ pure container.terminal)
  typeAlias : ∀ id type target aliased, table.type? id = some (.declared type) →
    type.body = .typeAlias target aliased → (pure id ↔ ∀ next ∈ aliased, pure next)
  union : ∀ id type options, table.type? id = some (.declared type) → type.body = .union options →
    (pure id ↔ ∀ option ∈ options, ∀ next ∈ option.type, pure next)
  enum : ∀ id type values, table.type? id = some (.declared type) → type.body = .enum values →
    pure id
  struct : ∀ id type fields, table.type? id = some (.declared type) → type.body = .struct fields →
    pure id
  resolver : ∀ id type properties, table.type? id = some (.declared type) →
    type.body = .resolver properties → ¬ pure id
  primitive : ∀ primitive : Primitive, pure primitive.id ↔ primitive ≠ .nothing
  unknown : ∀ id, table.type? id = none → pure id

/-- The search for impure types, step by step, until nothing is pending or one is found.  What was
visited before is not looked at again. -/
inductive Searches (table : TypeTable) : List TypeId → List TypeId → Bool → Prop
  | finished (visited : List TypeId) : Searches table visited [] true
  | skip {visited pending : List TypeId} {id : TypeId} {answer : Bool} (mem : id ∈ visited)
      (rest : Searches table visited pending answer) : Searches table visited (id :: pending) answer
  | impure {visited pending : List TypeId} {id : TypeId} (new : id ∉ visited)
      (found : table.isImpure id = true) : Searches table visited (id :: pending) false
  | visit {visited pending : List TypeId} {id : TypeId} {answer : Bool} (new : id ∉ visited)
      (harmless : table.isImpure id = false)
      (rest : Searches table (id :: visited) (table.purityReferences id ++ pending) answer) :
      Searches table visited (id :: pending) answer

variable {table other : TypeTable}

/-! ### What types use -/

theorem purityReferences_eq {id : TypeId} {type : SchemaType} (h : table.type? id = some type) :
    table.purityReferences id = type.purityReferences := by
  rw [purityReferences, h]
  rfl

theorem isImpure_eq {id : TypeId} {type : SchemaType} (h : table.type? id = some type) :
    table.isImpure id = type.isImpure := by
  rw [isImpure, h]
  rfl

theorem refers_iff_uses {id next : TypeId} : table.Refers id next ↔ table.Uses id next := by
  constructor
  · intro h
    unfold Refers at h
    cases hfound : table.type? id with
    | none =>
      rw [purityReferences, hfound] at h
      cases h
    | some type =>
      rw [purityReferences_eq hfound] at h
      rcases SchemaType.mem_purityReferences h with ⟨container, rfl, rfl⟩ | ⟨declared, rfl, hbody⟩
      · exact .terminal hfound
      · rcases hbody with ⟨target, hbody⟩ | ⟨options, hbody, option, hoption, hnext⟩
        · exact .aliased hfound hbody
        · exact .option hfound hbody hoption hnext
  · intro h
    unfold Refers
    cases h with
    | terminal found =>
      rw [purityReferences_eq found]
      exact List.mem_singleton.mpr rfl
    | aliased found body =>
      rw [purityReferences_eq found, SchemaType.purityReferences_of_alias body]
      exact List.mem_singleton.mpr rfl
    | option found body mem resolved =>
      rw [purityReferences_eq found, SchemaType.purityReferences_of_union body]
      exact List.mem_filterMap.mpr ⟨_, mem, resolved⟩

theorem Consistent.type?_primitive (h : table.Consistent) (primitive : Primitive) :
    table.type? primitive.id = some (.primitive primitive) :=
  h.type?_id (primitive_mem_types primitive)

theorem Consistent.isImpure_iff_isDataless (h : table.Consistent) {id : TypeId} :
    table.isImpure id = true ↔ table.IsDataless id := by
  constructor
  · intro himpure
    cases hfound : table.type? id with
    | none =>
      rw [isImpure, hfound] at himpure
      cases himpure
    | some type =>
      rw [isImpure_eq hfound] at himpure
      rcases SchemaType.exists_impure himpure with rfl | ⟨declared, properties, rfl, hbody⟩
      · exact .inl (h.type?_eq_some_iff.mp hfound).2.symm
      · exact .inr ⟨declared, properties, hfound, hbody⟩
  · rintro (rfl | ⟨type, properties, hfound, hbody⟩)
    · rw [isImpure_eq (h.type?_primitive .nothing)]
      rfl
    · rw [isImpure_eq hfound]
      exact SchemaType.isImpure_of_body hbody

/-- A type is not pure if and only if a resolver or `None` can be reached from it. -/
theorem Consistent.isPure_eq_false_iff (h : table.Consistent) {id : TypeId} :
    table.isPure id = false ↔
      ∃ last, ReflTransGen table.Uses id last ∧ table.IsDataless last := by
  have hrefers : table.Refers = table.Uses := by
    funext first next
    exact propext refers_iff_uses
  rw [← Bool.not_eq_true, h.isPure_eq_true_iff, hrefers]
  simp only [not_forall, Bool.not_eq_false, h.isImpure_iff_isDataless, exists_prop]

/-! ### The equations -/

/-- A type is pure if and only if it is not dataless and everything that it uses is pure. -/
theorem Consistent.isPure_step (h : table.Consistent) {id : TypeId} :
    table.isPure id = true ↔
      ¬ table.IsDataless id ∧ ∀ next, table.Uses id next → table.isPure next = true := by
  rw [← Bool.not_eq_false, h.isPure_eq_false_iff]
  constructor
  · intro hnone
    refine ⟨fun hdataless => hnone ⟨id, .refl, hdataless⟩, ?_⟩
    intro next huses
    rw [← Bool.not_eq_false, h.isPure_eq_false_iff]
    rintro ⟨last, hreaches, hlast⟩
    exact hnone ⟨last, .head huses hreaches, hlast⟩
  · rintro ⟨hdata, hall⟩ ⟨last, hreaches, hlast⟩
    rcases ReflTransGen.cases_head hreaches with rfl | ⟨next, huses, hrest⟩
    · exact hdata hlast
    · have hpure := hall next huses
      rw [← Bool.not_eq_false, h.isPure_eq_false_iff] at hpure
      exact hpure ⟨last, hrest, hlast⟩

/-- What is found under a number that is dataless. -/
theorem Consistent.isDataless_iff (h : table.Consistent) {id : TypeId} {type : SchemaType}
    (hfound : table.type? id = some type) : table.IsDataless id ↔ type.isImpure = true := by
  rw [← h.isImpure_iff_isDataless, isImpure_eq hfound]

/-- What a type uses is what it refers to. -/
theorem uses_iff {id next : TypeId} {type : SchemaType} (hfound : table.type? id = some type) :
    table.Uses id next ↔ next ∈ type.purityReferences := by
  rw [← refers_iff_uses, Refers, purityReferences_eq hfound]

theorem Consistent.solves_isPure (h : table.Consistent) :
    table.Solves fun id => table.isPure id = true := by
  have hstep {id : TypeId} {type : SchemaType} (hfound : table.type? id = some type) :
      table.isPure id = true ↔
        type.isImpure = false ∧ ∀ next ∈ type.purityReferences, table.isPure next = true := by
    rw [h.isPure_step, h.isDataless_iff hfound, Bool.not_eq_true]
    simp only [uses_iff hfound]
  refine ⟨?_, ?_, ?_, ?_, ?_, ?_, ?_, ?_⟩
  · intro id container hfound
    rw [hstep hfound]
    simp [SchemaType.isImpure, SchemaType.purityReferences]
  · rintro id ⟨number, name, position, body⟩ target aliased hfound rfl
    rw [hstep hfound]
    simp [SchemaType.isImpure, SchemaType.purityReferences]
  · rintro id ⟨number, name, position, body⟩ options hfound rfl
    rw [hstep hfound]
    simp only [SchemaType.isImpure, SchemaType.purityReferences, true_and, List.mem_filterMap,
      Option.mem_def]
    constructor
    · intro hall option hoption next hnext
      exact hall next ⟨option, hoption, hnext⟩
    · rintro hall next ⟨option, hoption, hnext⟩
      exact hall option hoption next hnext
  · rintro id ⟨number, name, position, body⟩ values hfound rfl
    rw [hstep hfound]
    simp [SchemaType.isImpure, SchemaType.purityReferences]
  · rintro id ⟨number, name, position, body⟩ fields hfound rfl
    rw [hstep hfound]
    simp [SchemaType.isImpure, SchemaType.purityReferences]
  · rintro id ⟨number, name, position, body⟩ properties hfound rfl
    rw [hstep hfound]
    simp [SchemaType.isImpure]
  · intro primitive
    rw [hstep (h.type?_primitive primitive)]
    cases primitive <;> simp [SchemaType.isImpure, SchemaType.purityReferences, Primitive.isPure]
  · intro id hfound
    rw [h.isPure_step]
    refine ⟨?_, ?_⟩
    · rw [← h.isImpure_iff_isDataless, isImpure, hfound]
      exact Bool.false_ne_true
    · intro next huses
      rw [← refers_iff_uses, Refers, purityReferences, hfound] at huses
      cases huses

/-- Whatever solves the equations holds of nothing dataless, and passes from a type to those that it
uses. -/
theorem Solves.closed {pure : TypeId → Prop} (solves : table.Solves pure) {id : TypeId}
    (hpure : pure id) :
    ¬ table.IsDataless id ∧ ∀ next, table.Uses id next → pure next := by
  refine ⟨?_, ?_⟩
  · rintro (rfl | ⟨type, properties, hfound, hbody⟩)
    · exact (solves.primitive .nothing).mp hpure rfl
    · exact solves.resolver id type properties hfound hbody hpure
  · intro next huses
    cases huses with
    | terminal found => exact (solves.container id _ found).mp hpure
    | aliased found body => exact (solves.typeAlias id _ _ _ found body).mp hpure next rfl
    | option found body mem resolved =>
      exact (solves.union id _ _ found body).mp hpure _ mem next resolved

/-- Purity is the greatest solution. -/
theorem Consistent.isPure_of_solves (h : table.Consistent) {pure : TypeId → Prop}
    (solves : table.Solves pure) {id : TypeId} (hpure : pure id) : table.isPure id = true := by
  rw [← Bool.not_eq_false, h.isPure_eq_false_iff]
  rintro ⟨last, hreaches, hlast⟩
  have hlastPure : pure last := by
    clear hlast
    induction hreaches with
    | refl => exact hpure
    | tail _ huses ih => exact (solves.closed ih).2 _ huses
  exact (solves.closed hlastPure).1 hlast

/-! ### The end of the search -/

/-- A search with steps enough for everything that can become pending stops by itself. -/
theorem Consistent.searches_of_le (h : table.Consistent) {steps : Nat}
    {visited pending : List TypeId} (enough : pending.length + table.unvisited visited < steps) :
    table.Searches visited pending (table.pureWithin steps visited pending) := by
  induction steps generalizing visited pending with
  | zero => exact absurd enough (Nat.not_lt_zero _)
  | succ steps ih =>
    cases pending with
    | nil => exact .finished visited
    | cons id pending =>
      rw [List.length_cons] at enough
      rw [pureWithin]
      by_cases hvisited : id ∈ visited
      · rw [if_pos hvisited]
        exact .skip hvisited (ih (by omega))
      · rw [if_neg hvisited]
        by_cases himpure : table.isImpure id = true
        · rw [if_pos himpure]
          exact .impure hvisited himpure
        · rw [if_neg himpure]
          -- what becomes pending is no longer counted among the unvisited
          have hfewer := h.unvisited_cons hvisited
          refine .visit hvisited (Bool.eq_false_iff.mpr himpure) (ih ?_)
          rw [List.length_append]
          omega

/-- The search from a type stops by itself, with the answer that is given. -/
theorem Consistent.searches (h : table.Consistent) (id : TypeId) :
    table.Searches [] [id] (table.isPure id) := by
  have hcount :
      table.unvisited [] = total (fun type => type.purityReferences.length) table.types := rfl
  refine h.searches_of_le ?_
  rw [hcount, purityBound, List.length_singleton]
  exact Nat.lt_succ_self _

/-! ### The order of options -/

end TypeTable

namespace SchemaType.Reorders

variable {type other : SchemaType}

theorem id_eq (h : type.Reorders other) : type.id = other.id := by
  cases h <;> rfl

theorem designation_eq (h : type.Reorders other) : type.designation = other.designation := by
  cases h <;> rfl

theorem isAnonymous_eq (h : type.Reorders other) : type.isAnonymous = other.isAnonymous := by
  cases h <;> rfl

theorem terminal_eq (h : type.Reorders other) : type.terminal = other.terminal := by
  cases h <;> rfl

theorem container?_eq (h : type.Reorders other) : type.container? = other.container? := by
  cases h <;> rfl

theorem isImpure_eq (h : type.Reorders other) : type.isImpure = other.isImpure := by
  cases h <;> rfl

theorem purityReferences_perm (h : type.Reorders other) :
    type.purityReferences.Perm other.purityReferences := by
  cases h with
  | same => exact .refl _
  | union perm => exact perm.filterMap _

end SchemaType.Reorders

namespace TypeTable

variable {table other : TypeTable}

theorem Reorders.types (h : table.Reorders other) :
    List.Forall₂ SchemaType.Reorders table.types other.types :=
  List.rel_append (List.forall₂_same.mpr fun type _ => .same type) h

theorem Reorders.named (h : table.Reorders other) :
    List.Forall₂ SchemaType.Reorders table.named other.named := by
  refine List.rel_filter ?_ h.types
  intro type second hsame
  simp only [hsame.isAnonymous_eq]

theorem Reorders.containers_eq (h : table.Reorders other) : table.containers = other.containers :=
  filterMap_eq_filterMap_of_forall₂ h fun _ _ hsame => hsame.container?_eq

/-- A table stays consistent when the options of unions are put into another order. -/
theorem Consistent.reorders (h : table.Consistent) (reorders : table.Reorders other) :
    other.Consistent := by
  refine ⟨?_, ?_, ?_, ?_⟩
  · have hids : table.assigned.map SchemaType.id = other.assigned.map SchemaType.id :=
      map_eq_map_of_forall₂ reorders fun _ _ hsame => hsame.id_eq
    rw [← hids, h.numbered, List.Forall₂.length_eq reorders]
  · have hnames : table.named.map SchemaType.designation =
        other.named.map SchemaType.designation :=
      map_eq_map_of_forall₂ reorders.named fun _ _ hsame => hsame.designation_eq
    rw [← hnames]
    exact h.names
  · rw [← reorders.containers_eq]
    exact h.spellings
  · intro container hcontainer
    rw [← reorders.containers_eq] at hcontainer
    obtain ⟨store, hstore⟩ := h.wraps container hcontainer
    obtain ⟨second, hsecond, hsame⟩ := exists_right_of_forall₂ reorders.types hstore.mem
    exact ⟨second, hsecond, hstore.id.trans hsame.id_eq, hsame.id_eq ▸ hstore.older,
      by rw [hstore.designation, hsame.designation_eq], hstore.terminal.trans hsame.terminal_eq⟩

/-- What is found under a number differs in the order of options only. -/
theorem Consistent.type?_reorders (h : table.Consistent) (reorders : table.Reorders other)
    (id : TypeId) :
    (table.type? id = none ∧ other.type? id = none) ∨
      ∃ type second, table.type? id = some type ∧ other.type? id = some second ∧
        type.Reorders second := by
  have hother := h.reorders reorders
  cases hfound : table.type? id with
  | some type =>
    obtain ⟨hmem, rfl⟩ := h.type?_eq_some_iff.mp hfound
    obtain ⟨second, hsecond, hsame⟩ := exists_right_of_forall₂ reorders.types hmem
    exact .inr ⟨type, second, rfl, hother.type?_eq_some_iff.mpr ⟨hsecond, hsame.id_eq.symm⟩, hsame⟩
  | none =>
    refine .inl ⟨rfl, ?_⟩
    rw [Option.eq_none_iff_forall_ne_some]
    intro second hsecond
    obtain ⟨hmem, rfl⟩ := hother.type?_eq_some_iff.mp hsecond
    obtain ⟨type, htype, hsame⟩ := exists_left_of_forall₂ reorders.types hmem
    rw [← hsame.id_eq, h.type?_id htype] at hfound
    cases hfound

/-- Purity does not depend on the order of options. -/
theorem Consistent.isPure_reorders (h : table.Consistent) (reorders : table.Reorders other)
    (id : TypeId) : other.isPure id = table.isPure id := by
  have himpure : other.isImpure = table.isImpure := by
    funext id
    rcases h.type?_reorders reorders id with ⟨hleft, hright⟩ | ⟨type, second, hleft, hright, hsame⟩
    · rw [isImpure, isImpure, hleft, hright]
    · rw [isImpure_eq hleft, isImpure_eq hright, hsame.isImpure_eq]
  have hrefers : other.Refers = table.Refers := by
    funext id next
    unfold Refers
    rcases h.type?_reorders reorders id with ⟨hleft, hright⟩ | ⟨type, second, hleft, hright, hsame⟩
    · rw [purityReferences, purityReferences, hleft, hright]
    · rw [purityReferences_eq hleft, purityReferences_eq hright]
      exact propext hsame.purityReferences_perm.mem_iff.symm
  rw [Bool.eq_iff_iff, (h.reorders reorders).isPure_eq_true_iff, h.isPure_eq_true_iff, hrefers,
    himpure]

/-- What is known of purity in a table. -/
structure PurityDecided (table : TypeTable) : Prop where
  /-- The search from every type stops by itself. -/
  searches : ∀ id, table.Searches [] [id] (table.isPure id)
  /-- A type is not pure if and only if a resolver or `None` can be reached from it. -/
  reaches : ∀ id, table.isPure id = false ↔
    ∃ last, ReflTransGen table.Uses id last ∧ table.IsDataless last
  /-- The order of options does not matter. -/
  reorders : ∀ other, table.Reorders other → ∀ id, other.isPure id = table.isPure id
  /-- A type is pure if and only if everything is that it directly refers to. -/
  solves : table.Solves fun id => table.isPure id = true
  /-- Nothing that satisfies these equations holds of more types. -/
  greatest : ∀ pure, table.Solves pure → ∀ id, pure id → table.isPure id = true

theorem Consistent.purityDecided (h : table.Consistent) : table.PurityDecided :=
  ⟨h.searches, fun _ => h.isPure_eq_false_iff, fun _ => h.isPure_reorders, h.solves_isPure,
    fun _ solves _ => h.isPure_of_solves solves⟩

end TypeTable

end GraphSchema
