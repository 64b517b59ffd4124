import GraphSchema.Proofs.Acceptance.Gate
import GraphSchema.Proofs.Order.Described
import GraphSchema.Proofs.Order.GraphNames
import GraphSchema.Proofs.Order.Rejoined
import GraphSchema.Proofs.Order.WellFormed
import GraphSchema.Proofs.Spacing
import Mathlib.Data.List.Perm.Basic

/-!
# The order of declarations

Declarations may come in any order.  When the texts of the declarations of a source text are put
into another order, each on lines of its own, the new source text is accepted if and only if the old
one is, and the views of the two models are the same (`Schema.check_permuted`).

The document of the new source text is the old one with its declarations in another order and with
other places (`Schema.exists_relocated`).  Neither of the two changes whether anything is wrong with
a document, nor what its model shows.
-/

namespace GraphSchema

namespace Document

variable {header : Header} {declarations others : List Declaration}

/-! ### Documents in another order -/

theorem Grammatical.perm (h : declarations.Perm others)
    (grammatical : Grammatical ⟨header, declarations⟩) : Grammatical ⟨header, others⟩ :=
  ⟨grammatical.header, fun declaration hmem =>
    grammatical.declarations declaration (h.mem_iff.mpr hmem)⟩

theorem plainNames_perm (h : declarations.Perm others) (plain : Registry.PlainNames declarations) :
    Registry.PlainNames others :=
  fun name hname => plain name ((typeNames_perm h).mem_iff.mpr hname)

/-- Nothing is wrong with a document whose declarations are put into another order. -/
theorem Faultless.perm (h : declarations.Perm others) (plain : Registry.PlainNames declarations)
    (faultless : Faultless ⟨header, declarations⟩) : Faultless ⟨header, others⟩ :=
  (faultless_iff (plainNames_perm h plain)).mpr (((faultless_iff plain).mp faultless).perm h)

theorem names_view (declarations : List Declaration) :
    (declarations.filterMap Declaration.view?).map TypeView.name = typeNames declarations := by
  rw [List.map_filterMap, typeNames, List.map_filterMap]
  refine List.filterMap_congr ?_
  intro declaration _
  cases declaration <;> rfl

theorem graphNames_view (declarations : List Declaration) :
    ((declarations.flatMap Declaration.writtenNodes).map WrittenNode.view).map NodeView.graphName =
      (declarations.flatMap Declaration.writtenNodes).map WrittenNode.graphName := by
  rw [List.map_map]
  rfl

/-- The order of the declarations of a document does not show in its model. -/
theorem view_perm (h : declarations.Perm others) (plain : Registry.PlainNames declarations)
    (undotted : ∀ declaration ∈ declarations, declaration.UndottedName)
    (faultless : Faultless ⟨header, declarations⟩) :
    (Schema.modelOf ⟨header, declarations⟩).view = (Schema.modelOf ⟨header, others⟩).view := by
  have hdescribes := faultless.describes plain
  have hothers := (faultless.perm h plain).describes (plainNames_perm h plain)
  obtain ⟨hnames, hmembers⟩ := (problems_body_eq_nil_iff header declarations).mp faultless.reading
  have hgraphNames := graphNames_nodup undotted hnames fun declaration hmem =>
    (hmembers declaration hmem).1
  have hcontainers : ((Schema.modelOf ⟨header, declarations⟩).types.containers.map
      Container.designation).Perm
      ((Schema.modelOf ⟨header, others⟩).types.containers.map Container.designation) := by
    rw [List.perm_ext_iff_of_nodup hdescribes.designations_nodup hothers.designations_nodup]
    intro text
    rw [List.mem_map, List.mem_map, hdescribes.containers, hothers.containers]
    simp only [(h.flatMap_right _).mem_iff]
  rw [SchemaModel.view_eq_arranged, SchemaModel.view_eq_arranged, hdescribes.declared_view,
    hothers.declared_view, hdescribes.nodes_view, hothers.nodes_view]
  refine ModelView.arranged_perm _ (h.filterMap _) hcontainers ((h.flatMap_right _).map _) ?_
    hdescribes.designations_nodup ?_
  · rw [names_view]
    exact hnames.types
  · rw [graphNames_view]
    exact hgraphNames

/-! ### Documents at other places -/

theorem faultless_move_iff {document : Document} {r : Relocation} :
    (document.move r).Faultless ↔ document.Faultless := by
  have hreading : (Reading.body (document.move r).header (document.move r).declarations
      none).problems =
      (Reading.body document.header document.declarations none).problems.map (Problem.move r) :=
    Reading.problems_move (.body document.header document.declarations none)
  constructor
  · rintro ⟨hproblems, hresolving⟩
    rw [hreading] at hproblems
    rw [Schema.problemsOf_move] at hresolving
    exact ⟨List.map_eq_nil_iff.mp hproblems, List.map_eq_nil_iff.mp hresolving⟩
  · rintro ⟨hproblems, hresolving⟩
    refine ⟨?_, ?_⟩
    · rw [hreading, hproblems, List.map_nil]
    · rw [Schema.problemsOf_move, hresolving, List.map_nil]

end Document

namespace Schema

/-! ### Source texts with the tokens of a document -/

/-- A document and the document of a source text with the same kinds and texts of tokens are one
document at two places. -/
theorem exists_relocated {file : Path} {source : String} {document : Document}
    (lexes : (stream file source).Lexes) (grammatical : document.Grammatical)
    (inFile : ∀ token ∈ document.tokens, token.start.file = file)
    (alike : (stream file source).tokens.map Token.spelling =
      document.tokens.map Token.spelling) :
    ∃ (original : Document) (r s : Relocation), original.move r = document ∧
      (stream file source).Spells (original.move s) := by
  let r : Relocation := .back document.tokens default
  let s : Relocation := (stream file source).places
  obtain ⟨⟨reading, problem⟩, hread⟩ :
      ∃ read, Reading.ofStream ((stream file source).numbered file) = read := ⟨_, rfl⟩
  -- moved to the one place, what was read of the numbered tokens is the document
  have hdocument := Reading.ofStream_move (r := r) ((stream file source).numbered file)
  have htokens : (((stream file source).numbered file).move r).tokens = document.tokens := by
    rw [TokenStream.numbered, numbered_eq file alike]
    exact move_numbered default inFile
  have hends : (((stream file source).numbered file).move r).Lexes := rfl
  rw [hread, Reading.ofStream_of_grammatical hends grammatical htokens.symm] at hdocument
  obtain ⟨hreading, hproblem⟩ := Prod.mk.inj hdocument
  have hmoved : (reading.move r).document? = some document :=
    congrArg Reading.document? hreading.symm
  rw [Reading.document?_move] at hmoved
  obtain ⟨original, horiginal, hmoved⟩ := Option.map_eq_some_iff.mp hmoved
  refine ⟨original, r, s, hmoved, ?_⟩
  -- moved to the other one, it is the document of the source text
  have hstream := Reading.ofStream_move (r := s) ((stream file source).numbered file)
  rw [TokenStream.move_numbered lexes, hread] at hstream
  rcases Reading.ofStream_spec (stream file source) with
    ⟨-, read, hgrammatical, htokens, hspelled⟩ | ⟨front, item, -, other, fatal, hfails, -⟩
  · rw [hspelled] at hstream
    have hsame : (reading.move s).document? = some read :=
      congrArg Reading.document? (Prod.mk.inj hstream).1.symm
    rw [Reading.document?_move, horiginal, Option.map_some] at hsame
    rw [Option.some.inj hsame]
    exact ⟨lexes, hgrammatical, htokens⟩
  · rw [hfails] at hstream
    rw [Option.map_eq_none_iff.mp hproblem.symm] at hstream
    cases (Prod.mk.inj hstream).2

/-! ### Source texts in another order -/

section

variable {file : Path} {source : String} {header : Header} {declarations others : List Declaration}
  (spells : (stream file source).Spells ⟨header, declarations⟩) (h : declarations.Perm others)
include spells h

/-- The new source text spells the document with its declarations in the other order, at other
places. -/
theorem exists_spelled : ∃ (original : Document) (r s : Relocation),
    original.move r = ⟨header, others⟩ ∧
      (stream file (Document.textIn source ⟨header, others⟩)).Spells (original.move s) := by
  obtain ⟨hlexes, halike⟩ := stream_rejoined spells h.symm.subset
  refine exists_relocated hlexes (spells.grammatical.perm h) ?_ halike
  intro token htoken
  refine ((TokenStream.placed_ofSource file source).inside token ?_).1
  rw [← stream]
  rw [← spells.tokens]
  rcases List.mem_append.mp htoken with hheader | hothers
  · exact List.mem_append_left _ hheader
  · exact List.mem_append_right _ ((h.flatMap_right _).mem_iff.mpr hothers)

/-- The new source text is accepted if and only if the old one is. -/
theorem accepts_textIn_iff :
    (∃ model, (check file (Document.textIn source ⟨header, others⟩)).model = .ok model) ↔
      ∃ model, (check file source).model = .ok model := by
  obtain ⟨original, r, s, hmoved, hspells⟩ := exists_spelled spells h
  have hplain := spells.plainNames
  have hfaultless : (original.move s).Faultless ↔ Document.Faultless ⟨header, declarations⟩ := by
    rw [Document.faultless_move_iff, ← Document.faultless_move_iff (r := r), hmoved]
    exact ⟨fun hothers => hothers.perm h.symm (Document.plainNames_perm h hplain),
      fun hdeclarations => hdeclarations.perm h hplain⟩
  constructor
  · rintro ⟨model, hmodel⟩
    obtain ⟨hgood, -⟩ := (check_eq_ok_iff_of_spells hspells).mp hmodel
    exact ⟨_, (check_eq_ok_iff_of_spells spells).mpr ⟨hfaultless.mp hgood, rfl⟩⟩
  · rintro ⟨model, hmodel⟩
    obtain ⟨hgood, -⟩ := (check_eq_ok_iff_of_spells spells).mp hmodel
    exact ⟨_, (check_eq_ok_iff_of_spells hspells).mpr ⟨hfaultless.mpr hgood, rfl⟩⟩

/-- The models of the two source texts show the same. -/
theorem view_textIn {model other : SchemaModel} (hmodel : (check file source).model = .ok model)
    (hother : (check file (Document.textIn source ⟨header, others⟩)).model = .ok other) :
    model.view = other.view := by
  obtain ⟨original, r, s, hmoved, hspells⟩ := exists_spelled spells h
  obtain ⟨hgood, rfl⟩ := (check_eq_ok_iff_of_spells spells).mp hmodel
  obtain ⟨-, rfl⟩ := (check_eq_ok_iff_of_spells hspells).mp hother
  calc (modelOf ⟨header, declarations⟩).view
      = (modelOf ⟨header, others⟩).view :=
        Document.view_perm h spells.plainNames (fun _ => spells.undottedName) hgood
    _ = (modelOf original).view := by rw [← hmoved, modelOf_move, SchemaModel.view_move]
    _ = (modelOf (original.move s)).view := by rw [modelOf_move, SchemaModel.view_move]

end

/-- The declarations of a source text may come in any order. -/
theorem check_permuted {file : Path} {source : String} (scans : (check file source).fatal = []) :
    ∃ header declarations, (check file source).fragment.parts = header :: declarations ∧
      ∀ permuted, permuted.Perm declarations →
        ((∃ model, (check file (rejoined (header :: permuted))).model = .ok model) ↔
          ∃ model, (check file source).model = .ok model) ∧
        ∀ model other, (check file source).model = .ok model →
          (check file (rejoined (header :: permuted))).model = .ok other →
          model.view = other.view := by
  rw [fatal_check, ← stream] at scans
  rcases Reading.ofStream_spec (stream file source) with
    ⟨hlexes, document, hgrammatical, htokens, hread⟩ | ⟨front, item, -, reading, problem, hread, -⟩
  · have hparts : (check file source).fragment.parts = document.header.fragment source.toList ::
        document.declarations.map (Declaration.fragment source.toList) := by
      unfold check
      rw [← stream, hread]
      rfl
    refine ⟨_, _, hparts, ?_⟩
    intro permuted hpermuted
    -- permuted trees are the trees of permuted declarations
    have hfragments : List.Forall₂ (fun part declaration => part =
        Declaration.fragment source.toList declaration)
        (document.declarations.map (Declaration.fragment source.toList)) document.declarations :=
      List.forall₂_map_left_iff.mpr (List.forall₂_same.mpr fun _ _ => rfl)
    obtain ⟨others, hothers, hperm⟩ := List.perm_comp_forall₂ hpermuted hfragments
    have hmap : permuted.map id = others.map (Declaration.fragment source.toList) :=
      map_eq_map_of_forall₂ hothers fun _ _ hsame => hsame
    rw [List.map_id] at hmap
    have hspells : (stream file source).Spells document := ⟨hlexes, hgrammatical, htokens⟩
    have htext : rejoined (document.header.fragment source.toList :: permuted) =
        Document.textIn source ⟨document.header, others⟩ := by rw [hmap, Document.textIn]
    rw [htext]
    exact ⟨accepts_textIn_iff hspells hperm.symm, fun model other => view_textIn hspells hperm.symm⟩
  · rw [hread] at scans
    cases scans

/-- A struct may be declared before the query that refers to it, or after it. -/
theorem check_permuted_reversed : ∃ header declarations model other,
    (check default "schema s query q ?T struct T \x7b a []Int32 \x7d").fatal = [] ∧
    (check default "schema s query q ?T struct T \x7b a []Int32 \x7d").fragment.parts =
      header :: declarations ∧
    (check default "schema s query q ?T struct T \x7b a []Int32 \x7d").model = .ok model ∧
    (check default (rejoined (header :: declarations.reverse))).model = .ok other ∧
    model.view = other.view := by
  have hempty : (check default
      "schema s query q ?T struct T \x7b a []Int32 \x7d").fatal.isEmpty = true := by
    decide +kernel
  have hscans := List.isEmpty_iff.mp hempty
  obtain ⟨header, declarations, hparts, hpermuted⟩ := check_permuted hscans
  obtain ⟨haccepts, hviews⟩ := hpermuted declarations.reverse declarations.reverse_perm
  cases hmodel : (check default "schema s query q ?T struct T \x7b a []Int32 \x7d").model with
  | ok model =>
    obtain ⟨other, hother⟩ := haccepts.mpr ⟨model, hmodel⟩
    exact ⟨header, declarations, model, other, hscans, hparts, rfl, hother,
      hviews model other hmodel hother⟩
  | error diagnostics =>
    have hsome : (check default
        "schema s query q ?T struct T \x7b a []Int32 \x7d").model.toOption.isSome = true := by
      decide +kernel
    rw [hmodel] at hsome
    cases hsome

end Schema

end GraphSchema
