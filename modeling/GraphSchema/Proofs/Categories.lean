import GraphSchema.Proofs.Names
import GraphSchema.Proofs.Order.Bytes
import Mathlib.Data.List.Perm.Basic

/-!
# Categories

The categories of an accepted model divide what is in it (`SchemaModel.Categorized`): every type
that is not primitive is in the category of its kind and in no other, the graph nodes are listed
once, and the queries and mutations are those among them.  A category stands in the order of the
bytes of its names, and the types stand in the order of their numbers, the primitive ones first.

Strictness comes from names that are distinct (`ascending_sortedBy`), and the division from the
kinds, of which a type has one only (`filter_key_perm`).
-/

namespace GraphSchema

/-! ### Sorting and dividing -/

/-- Entries that are sorted by distinct keys stand in the strict order of the bytes of their
keys. -/
theorem ascending_sortedBy {α : Type} {key : α → String} {entries : List α}
    (distinct : (entries.map key).Nodup) :
    (sortedBy key entries).Pairwise fun a b => Text.bytes (key a) < Text.bytes (key b) := by
  have hperm : (sortedBy key entries).Perm entries := List.mergeSort_perm entries _
  have hdistinct : ((sortedBy key entries).map key).Nodup :=
    (hperm.map key).nodup_iff.mpr distinct
  have hordered := pairwise_mergeSort_key key entries
  refine hordered.imp₂ ?_ (List.pairwise_map.mp hdistinct)
  intro a b hle hne
  rw [Text.bytes_lt_iff]
  cases hcompare : compare (key a) (key b) with
  | lt => exact compare_lt_iff_lt.mp hcompare
  | eq => exact absurd (Std.LawfulEqCmp.compare_eq_iff_eq.mp hcompare) hne
  | gt =>
    rw [hcompare] at hle
    cases hle

/-- Sorting what is selected is selecting from what is sorted. -/
theorem sortedBy_filter {α : Type} {key : α → String} {entries : List α}
    (distinct : (entries.map key).Nodup) (select : α → Bool) :
    sortedBy key (entries.filter select) = (sortedBy key entries).filter select := by
  symm
  refine eq_sortedBy ((List.mergeSort_perm entries _).filter select) ?_ ?_
  · exact distinct.sublist (List.filter_sublist.map key)
  · exact (pairwise_mergeSort_key key entries).filter select

/-- Entries are divided by a key that takes some values only. -/
theorem filter_key_perm {α κ : Type} [DecidableEq κ] {key : α → κ} {kinds : List κ}
    {entries : List α} (distinct : kinds.Nodup) (nodup : entries.Nodup)
    (covered : ∀ entry ∈ entries, key entry ∈ kinds) :
    (kinds.flatMap fun kind => entries.filter fun entry => key entry == kind).Perm entries := by
  refine (List.perm_ext_iff_of_nodup (List.nodup_flatMap.mpr ⟨?_, ?_⟩) nodup).mpr ?_
  · exact fun kind _ => nodup.filter _
  · refine distinct.imp ?_
    intro kind other hne entry hentry hother
    have hkind := (List.mem_filter.mp hentry).2
    have hsame := (List.mem_filter.mp hother).2
    exact hne ((beq_iff_eq.mp hkind).symm.trans (beq_iff_eq.mp hsame))
  · intro entry
    simp only [List.mem_flatMap, List.mem_filter, beq_iff_eq]
    constructor
    · rintro ⟨kind, -, hentry, -⟩
      exact hentry
    · exact fun hentry => ⟨key entry, covered entry hentry, hentry, rfl⟩

/-- The types of a consistent table stand in the order of their numbers. -/
theorem TypeTable.Consistent.ascending {table : TypeTable} (h : table.Consistent) :
    table.types.Pairwise fun type other => type.id.number < other.id.number := by
  refine List.pairwise_append.mpr ⟨?_, ?_, ?_⟩
  · decide
  · exact ascending_of_numbered (fun _ => rfl : ∀ n, (TypeId.mk n).number = n) h.numbered
  · intro type htype other hother
    obtain ⟨primitive, -, rfl⟩ := List.mem_map.mp htype
    exact (Primitive.id_lt primitive).trans_le (h.firstAssigned_le hother).1

/-! ### Categories -/

/-- Is the type built in? -/
def SchemaType.isPrimitive : SchemaType → Bool
  | primitive _ => true
  | _ => false

namespace SchemaModel

/-- The categories of types, each with the words for the kinds of types that it holds. -/
def categories (model : SchemaModel) : List (List String × List SchemaType) :=
  [(["alias"], model.aliases.map .declared), (["enum"], model.enums.map .declared),
   (["union"], model.unions.map .declared), (["struct"], model.structs.map .declared),
   (["resolver"], model.resolvers.map .declared),
   (["optional", "list"], model.containers.map .container)]

/-- The categories of a model divide its types and list its graph nodes, in order. -/
structure Categorized (model : SchemaModel) : Prop where
  kinds : ∀ category ∈ model.categories, ∀ type ∈ category.2, type.kindName ∈ category.1
  ascending : ∀ category ∈ model.categories, category.2.Pairwise fun type other =>
    Text.bytes type.designation < Text.bytes other.designation
  /-- The categories hold the types that are not primitive. -/
  divided : (model.categories.flatMap Prod.snd).Perm
    (model.types.types.filter fun type => !type.isPrimitive)
  once : (model.categories.flatMap Prod.snd).Nodup
  nodes : model.nodes.Perm model.registry.nodes
  nodesAscending : model.nodes.Pairwise fun node other =>
    Text.bytes node.graphName < Text.bytes other.graphName
  nodesOnce : model.nodes.Nodup
  queries : model.queries = model.nodes.filter GraphNode.isQuery
  mutations : model.mutations = model.nodes.filter GraphNode.isMutation
  /-- The primitive types come first. -/
  primitives : ∃ others, model.types.types = Primitive.all.map .primitive ++ others ∧
    ∀ type ∈ others, type.isPrimitive = false
  numbered : model.types.types.Pairwise fun type other => type.id.number < other.id.number

/-- The words for the kinds of declared types. -/
def declaredKinds : List String :=
  ["alias", "enum", "union", "struct", "resolver"]

theorem kindName_mem_declaredKinds (body : TypeBody) : body.kindName ∈ declaredKinds := by
  cases body <;> simp [TypeBody.kindName, declaredKinds]

variable {model : SchemaModel} {document : Document}

/-- There is one category for each kind of declared types, and one for the containers. -/
theorem categories_eq : model.categories =
    declaredKinds.map (fun kind =>
      ([kind], (model.declaredOf fun body => body.kindName == kind).map .declared)) ++
    [(["optional", "list"], model.containers.map .container)] := by
  have hselect {select : TypeBody → Bool} {kind : String}
      (same : ∀ body, select body = (body.kindName == kind)) :
      model.declaredOf select = model.declaredOf fun body => body.kindName == kind := by
    rw [funext same]
  have haliases : model.aliases = model.declaredOf fun body => body.kindName == "alias" :=
    hselect fun body => by cases body <;> simp [TypeBody.kindName]
  have henums : model.enums = model.declaredOf fun body => body.kindName == "enum" :=
    hselect fun body => by cases body <;> simp [TypeBody.kindName]
  have hunions : model.unions = model.declaredOf fun body => body.kindName == "union" :=
    hselect fun body => by cases body <;> simp [TypeBody.kindName]
  have hstructs : model.structs = model.declaredOf fun body => body.kindName == "struct" :=
    hselect fun body => by cases body <;> simp [TypeBody.kindName]
  have hresolvers : model.resolvers = model.declaredOf fun body => body.kindName == "resolver" :=
    hselect fun body => by cases body <;> simp [TypeBody.kindName]
  rw [categories, haliases, henums, hunions, hstructs, hresolvers]
  rfl

theorem kindName_mem_category : ∀ category ∈ model.categories, ∀ type ∈ category.2,
    type.kindName ∈ category.1 := by
  intro category hcategory type htype
  rw [categories_eq, List.mem_append, List.mem_map, List.mem_singleton] at hcategory
  rcases hcategory with ⟨kind, -, rfl⟩ | rfl
  · obtain ⟨declared, hdeclared, rfl⟩ := List.mem_map.mp htype
    exact List.mem_singleton.mpr (beq_iff_eq.mp (mem_declaredOf.mp hdeclared).2)
  · obtain ⟨container, -, rfl⟩ := List.mem_map.mp htype
    rw [SchemaType.kindName]
    cases container.modifier <;> simp [Modifier.kindName]

/-- What is declared or a container is not primitive. -/
theorem not_isPrimitive {declared : List DeclaredType} {containers : List Container} :
    ∀ type ∈ declared.map SchemaType.declared ++ containers.map SchemaType.container,
      type.isPrimitive = false := by
  intro type htype
  rcases List.mem_append.mp htype with hmem | hmem
  · obtain ⟨_, -, rfl⟩ := List.mem_map.mp hmem
    rfl
  · obtain ⟨_, -, rfl⟩ := List.mem_map.mp hmem
    rfl

namespace Describes

variable (h : model.Describes document)
include h

/-- No two types that are not primitive are spelled alike. -/
theorem spellings_nodup : ((model.declared.map SchemaType.declared ++
    model.types.containers.map SchemaType.container).map SchemaType.designation).Nodup := by
  have hall := h.spellings
  rw [h.types, List.map_append] at hall
  exact (List.nodup_append.mp hall).2.1

theorem names_nodup : (model.declared.map DeclaredType.name).Nodup := by
  have hall := h.spellings_nodup
  rw [List.map_append, List.map_map] at hall
  exact (List.nodup_append.mp hall).1

/-- A type that is not primitive is declared or a container. -/
theorem filter_types : model.types.types.filter (fun type => !type.isPrimitive) =
    model.declared.map .declared ++ model.types.containers.map .container := by
  have hprimitives : (Primitive.all.map SchemaType.primitive).filter
      (fun type => !type.isPrimitive) = [] := by
    simp [SchemaType.isPrimitive]
  have hothers : (model.declared.map SchemaType.declared ++
      model.types.containers.map SchemaType.container).filter (fun type => !type.isPrimitive) =
      model.declared.map .declared ++ model.types.containers.map .container :=
    List.filter_eq_self.mpr fun type htype => by rw [not_isPrimitive type htype, Bool.not_false]
  rw [h.types, List.filter_append, hprimitives, hothers, List.nil_append]

theorem categories_ascending : ∀ category ∈ model.categories,
    category.2.Pairwise fun type other =>
      Text.bytes type.designation < Text.bytes other.designation := by
  intro category hcategory
  rw [categories_eq, List.mem_append, List.mem_map, List.mem_singleton] at hcategory
  rcases hcategory with ⟨kind, -, rfl⟩ | rfl
  · refine List.pairwise_map.mpr (ascending_sortedBy ?_)
    exact h.names_nodup.sublist (List.filter_sublist.map _)
  · exact List.pairwise_map.mpr (ascending_sortedBy h.designations_nodup)

theorem categories_perm : (model.categories.flatMap Prod.snd).Perm
    (model.types.types.filter fun type => !type.isPrimitive) := by
  have hdeclared : (declaredKinds.flatMap fun kind =>
      model.declaredOf fun body => body.kindName == kind).Perm model.declared := by
    refine List.Perm.trans (List.Perm.flatMap (.refl _) fun kind _ => List.mergeSort_perm _ _) ?_
    exact filter_key_perm (by decide) h.names_nodup.of_map
      fun type _ => kindName_mem_declaredKinds type.body
  rw [h.filter_types, categories_eq, List.flatMap_append, List.flatMap_map, List.flatMap_singleton]
  refine List.Perm.append ?_ ((List.mergeSort_perm _ _).map _)
  rw [← List.map_flatMap]
  exact hdeclared.map _

/-- The categories of a consistent model divide it if its graph names are distinct. -/
theorem categorized (consistent : model.types.Consistent)
    (distinct : (model.registry.nodes.map GraphNode.graphName).Nodup) : model.Categorized := by
  have hnodes : model.nodes.Perm model.registry.nodes := List.mergeSort_perm _ _
  refine ⟨kindName_mem_category, h.categories_ascending, h.categories_perm, ?_, hnodes,
    ascending_sortedBy distinct, hnodes.nodup_iff.mpr distinct.of_map,
    sortedBy_filter distinct _, sortedBy_filter distinct _, ⟨_, h.types, not_isPrimitive⟩,
    consistent.ascending⟩
  rw [h.categories_perm.nodup_iff, h.filter_types]
  exact h.spellings_nodup.of_map

end Describes

end SchemaModel

namespace Schema

/-- The categories of the model of an accepted source text divide it. -/
theorem check_categorized {file : Path} {source : String} {model : SchemaModel}
    (accepted : (check file source).model = .ok model) : model.Categorized := by
  obtain ⟨document, hspells, hfaultless, rfl⟩ := check_eq_ok_iff.mp accepted
  exact (hfaultless.describes hspells.plainNames).categorized
    (Registry.consistent_linked document.declarations).types (hfaultless.graphNames_nodup hspells)

/-- A query may be declared before an enum and a struct, whose names come before its own. -/
theorem check_categorized_unsorted : ∃ model,
    (check default "schema s query z []B struct B \x7b a ?A \x7d enum A \x7b b \x7d").model =
      .ok model ∧ model.Categorized := by
  have hsome : (check default
      "schema s query z []B struct B \x7b a ?A \x7d enum A \x7b b \x7d"
      ).model.toOption.isSome = true := by
    decide +kernel
  cases haccepted : (check default
      "schema s query z []B struct B \x7b a ?A \x7d enum A \x7b b \x7d").model with
  | ok model => exact ⟨model, rfl, check_categorized haccepted⟩
  | error diagnostics =>
    rw [haccepted] at hsome
    cases hsome

end Schema

end GraphSchema
