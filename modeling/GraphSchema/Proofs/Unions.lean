import GraphSchema.Proofs.Acceptance.Gate
import GraphSchema.Proofs.Registry.Apart
import GraphSchema.Proofs.Registry.Kept

/-!
# What is reported about unions

In a schema that is read to its end a union is reported at its name if fewer than two options are
written, and an option that is kept is reported at its place if it is a name from which aliases lead
to the union itself or to `None` (`Schema.check_unions`).  What is written are names, and what is
checked are numbers of types; the two agree whether or not everything else that is written is
defined (`Registry.Records.exists_aliasTarget?_iff`).

So every union of an accepted schema has two options or more, of distinct types, none of which leads
to the union or to `None` (`SchemaModel.UnionsProper`).
-/

namespace GraphSchema

open Relation

/-- There is a diagnostic with a code at a place. -/
def Checked.Reports (checked : Checked) (code : ErrorCode) (place : Cursor) : Prop :=
  ∃ diagnostic ∈ checked.diagnostics, diagnostic.code = code ∧ diagnostic.position = place

/-- A union is declared with a name and options. -/
def Document.DeclaresUnion (declarations : List Declaration) (name : Token)
    (options : List TypeReference) : Prop :=
  ∃ keyword opening closing, .block keyword name opening (.union options) closing ∈ declarations

/-- A type is written as a name from which aliases lead to another name. -/
def TypeReference.LeadsTo (declarations : List Declaration) (type : TypeReference)
    (last : String) : Prop :=
  type.designation.modifiers = [] ∧
    ReflTransGen (Document.Aliases declarations) type.terminal.text last

/-- What is reported about an option of a union, among declarations that are kept. -/
structure Checked.ReportsOption (checked : Checked) (declarations : List Declaration)
    (name : Token) (option : TypeReference) : Prop where
  itself : checked.Reports .unionRecurs option.designation.position ↔
    option.LeadsTo declarations name.text
  nothing : checked.Reports .unionIncludesNone option.designation.position ↔
    option.LeadsTo declarations Primitive.nothing.name
  neither : option.designation.modifiers ≠ [] ∨
      ¬ Document.Defines declarations option.terminal.text ∨
      (∃ last, ReflTransGen (Document.Aliases declarations) option.terminal.text last ∧
        TransGen (Document.Aliases declarations) last last) →
    ¬ checked.Reports .unionRecurs option.designation.position ∧
      ¬ checked.Reports .unionIncludesNone option.designation.position

/-- Unions are reported exactly: those with fewer than two options, and of those that are kept the
options that lead to the union itself or to `None`. -/
structure Checked.ReportsUnions (checked : Checked) (declarations : List Declaration) : Prop where
  missing : ∀ name options, Document.DeclaresUnion declarations name options →
    (checked.Reports .unionMissingOpts name.start ↔ options.length < 2)
  options : ∀ name options, Document.DeclaresUnion (Document.kept declarations) name options →
    ∀ option ∈ options, checked.ReportsOption (Document.kept declarations) name option

/-- Every union has two options or more, of distinct types, none of which leads to the union or to
`None`. -/
def SchemaModel.UnionsProper (model : SchemaModel) : Prop :=
  ∀ type ∈ model.registry.types.declared, ∀ options, type.body = .union options →
    2 ≤ options.length ∧ (options.map UnionOption.type).Nodup ∧
      ∀ option ∈ options, ∃ id, option.type = some id ∧
        ¬ ReflTransGen model.registry.types.AliasStep id type.id ∧
        ¬ ReflTransGen model.registry.types.AliasStep id Primitive.nothing.id

/-! ### Missing options -/

/-- Options are missing of a union with fewer than two. -/
theorem Declaration.mem_shortages_iff {declaration : Declaration} {problem : Problem}
    (code : problem.code = .unionMissingOpts) :
    problem ∈ declaration.shortages ↔ ∃ keyword name opening options closing,
      declaration = .block keyword name opening (.union options) closing ∧ options.length < 2 ∧
        problem = .unionTooSmall name.text options.length name.start := by
  constructor
  · intro hmem
    unfold shortages at hmem
    split at hmem
    case h_2 keyword name opening options closing =>
      split at hmem
      case isTrue hfew =>
        exact ⟨keyword, name, opening, options, closing, rfl, hfew, List.mem_singleton.mp hmem⟩
      case isFalse => cases hmem
    case h_5 => cases hmem
    all_goals
      rw [List.mem_singleton.mp hmem] at code
      cases code
  · rintro ⟨keyword, name, opening, options, closing, rfl, hfew, rfl⟩
    rw [shortages, if_pos hfew]
    exact List.mem_singleton.mpr rfl

/-! ### Options that lead to the union or to `None` -/

namespace Registry

variable {registry : Registry} {declarations : List Declaration} {type : DeclaredType}
  {option : UnionOption} {problem : Problem}

theorem optionProblem?_eq_some_iff :
    registry.optionProblem? type option = some problem ↔ ∃ id target, option.type = some id ∧
      registry.types.aliasTarget? id = some target ∧
      (target = type.id ∧ problem = .unionListsItself type.name option.designation.position ∨
        target ≠ type.id ∧ target = Primitive.nothing.id ∧
          problem = .unionListsNone type.name option.designation.position) := by
  unfold optionProblem?
  simp only [Option.bind_eq_bind, Option.bind_eq_some_iff]
  constructor
  · rintro ⟨id, hid, target, htarget, hproblem⟩
    refine ⟨id, target, hid, htarget, ?_⟩
    split at hproblem
    case isTrue hself => exact .inl ⟨hself, (Option.some.inj hproblem).symm⟩
    case isFalse hself =>
      split at hproblem
      case isTrue hnone => exact .inr ⟨hself, hnone, (Option.some.inj hproblem).symm⟩
      case isFalse => cases hproblem
  · rintro ⟨id, target, hid, htarget, ⟨hself, rfl⟩ | ⟨hself, hnone, rfl⟩⟩
    · exact ⟨id, hid, target, htarget, if_pos hself⟩
    · exact ⟨id, hid, target, htarget, by rw [if_neg hself, if_pos hnone]⟩

/-- An option has the problem of a union that lists itself if its target is the union. -/
theorem exists_unionRecurs_iff :
    (∃ problem, registry.optionProblem? type option = some problem ∧
        problem.code = .unionRecurs) ↔
      ∃ id, option.type = some id ∧ registry.types.aliasTarget? id = some type.id := by
  constructor
  · rintro ⟨problem, hproblem, hcode⟩
    obtain ⟨id, target, hid, htarget, ⟨rfl, -⟩ | ⟨-, -, rfl⟩⟩ :=
      optionProblem?_eq_some_iff.mp hproblem
    · exact ⟨id, hid, htarget⟩
    · cases hcode
  · rintro ⟨id, hid, htarget⟩
    exact ⟨_, optionProblem?_eq_some_iff.mpr ⟨id, _, hid, htarget, .inl ⟨rfl, rfl⟩⟩, rfl⟩

/-- An option has the problem of a union that lists `None` if its target is `None`. -/
theorem exists_unionIncludesNone_iff (declared : type.id ≠ Primitive.nothing.id) :
    (∃ problem, registry.optionProblem? type option = some problem ∧
        problem.code = .unionIncludesNone) ↔
      ∃ id, option.type = some id ∧
        registry.types.aliasTarget? id = some Primitive.nothing.id := by
  constructor
  · rintro ⟨problem, hproblem, hcode⟩
    obtain ⟨id, target, hid, htarget, ⟨-, rfl⟩ | ⟨-, rfl, -⟩⟩ :=
      optionProblem?_eq_some_iff.mp hproblem
    · cases hcode
    · exact ⟨id, hid, htarget⟩
  · rintro ⟨id, hid, htarget⟩
    exact ⟨_, optionProblem?_eq_some_iff.mpr
      ⟨id, _, hid, htarget, .inr ⟨declared.symm, rfl, rfl⟩⟩, rfl⟩

/-- If options stand at distinct places, what is reported at one of them is its problem. -/
theorem exists_unionProblem_iff
    (distinct : (registry.types.declared.flatMap fun type =>
      type.options.map fun option => option.designation.position).Nodup)
    (htype : type ∈ registry.types.declared) (hoption : option ∈ type.options)
    (code : ErrorCode) :
    (∃ problem ∈ registry.unionProblems, problem.code = code ∧
        problem.position = option.designation.position) ↔
      ∃ problem, registry.optionProblem? type option = some problem ∧ problem.code = code := by
  have hposition {type : DeclaredType} {option : UnionOption} {problem : Problem}
      (hproblem : registry.optionProblem? type option = some problem) :
      problem.position = option.designation.position := by
    obtain ⟨id, target, -, -, ⟨-, rfl⟩ | ⟨-, -, rfl⟩⟩ := optionProblem?_eq_some_iff.mp hproblem
    · rfl
    · rfl
  constructor
  · rintro ⟨problem, hmem, hcode, hplace⟩
    obtain ⟨other, hother, hmem⟩ := List.mem_flatMap.mp hmem
    obtain ⟨again, hagain, hproblem⟩ := List.mem_filterMap.mp hmem
    obtain ⟨rfl, rfl⟩ := eq_of_flatMap_key_eq distinct htype hother hoption hagain
      (hplace.symm.trans (hposition hproblem))
    exact ⟨problem, hproblem, hcode⟩
  · rintro ⟨problem, hproblem, hcode⟩
    exact ⟨problem, List.mem_flatMap.mpr ⟨type, htype, List.mem_filterMap.mpr
      ⟨option, hoption, hproblem⟩⟩, hcode, hposition hproblem⟩

end Registry

/-! ### Options that are recorded -/

namespace Registry

variable {registry : Registry} {declarations : List Declaration}

/-- An option that is written is recorded, with the type of its designation. -/
theorem Records.exists_option (h : Records declarations registry) (filled : registry.Filled)
    {name : Token} {options : List TypeReference}
    (declares : Document.DeclaresUnion declarations name options) {option : TypeReference}
    (hoption : option ∈ options) :
    ∃ type ∈ registry.types.declared, type.name = name.text ∧
      (∃ recorded, type.body = .union recorded) ∧
      ∃ described ∈ type.options, described.designation = option.designation ∧
        described.type = registry.types.reference? option.designation := by
  obtain ⟨keyword, opening, closing, hmem⟩ := declares
  obtain ⟨type, htype, hname, hrecords⟩ := h.of_block hmem
  obtain ⟨recorded, hbody, hall⟩ := filled.options_spec htype hrecords
  obtain ⟨described, hdescribed, hsame⟩ := exists_right_of_forall₂ hall hoption
  refine ⟨type, htype, hname, ⟨recorded, hbody⟩, described, ?_, hsame⟩
  rwa [DeclaredType.options_of_union hbody]

theorem Consistent.declared_ne_primitive (h : registry.Consistent) {type : DeclaredType}
    (htype : type ∈ registry.types.declared) (primitive : Primitive) : type.id ≠ primitive.id := by
  intro hsame
  have hhigh := (h.types.firstAssigned_le (TypeTable.mem_declared.mp htype)).1
  have hlow := TypeTable.Primitive.id_lt primitive
  rw [SchemaType.id, hsame] at hhigh
  omega

/-- A name from which aliases lead to a type that is no alias is defined, and on the way there is no
cycle. -/
theorem Records.leadsTo_spec (h : Records declarations registry) (filled : registry.Filled)
    (consistent : registry.Consistent) {last : String} {target : TypeId}
    (named : registry.Named last target) (isTarget : registry.types.IsTarget target)
    {name : String} (reaches : ReflTransGen (Document.Aliases declarations) name last) :
    Document.Defines declarations name ∧
      ∀ other, ReflTransGen (Document.Aliases declarations) name other →
        ¬ TransGen (Document.Aliases declarations) other other := by
  constructor
  · obtain ⟨id, ⟨base, hbase, -⟩, -⟩ := h.reaches_of_aliases filled consistent reaches named
    refine (h.isSome_named?_iff consistent name).mp ?_
    rw [hbase]
    rfl
  · intro other hother
    refine not_cycle_of_stop ?_ (h.not_aliases_of_isTarget consistent named isTarget) reaches hother
    intro first next again hnext hagain
    exact h.aliases_unique consistent hnext hagain

end Registry

namespace Schema

variable {file : Path} {source : String} {document : Document} {name : Token}
  {options : List TypeReference}

/-- What is reported with a code at a place is a problem of one of the parts that can have it. -/
theorem reports_iff (spells : (stream file source).Spells document) (code : ErrorCode)
    (place : Cursor) :
    (check file source).Reports code place ↔
      ∃ problem ∈ ((problemParts document).filter fun part => code ∈ part.1).flatMap Prod.snd,
        problem.code = code ∧ problem.position = place := by
  have hperm := filter_diagnostics spells code
  rw [filter_problemParts] at hperm
  constructor
  · rintro ⟨diagnostic, hdiagnostic, hcode, rfl⟩
    have hmem := hperm.mem_iff.mp (List.mem_filter.mpr ⟨hdiagnostic, beq_iff_eq.mpr hcode⟩)
    obtain ⟨problem, hproblem, rfl⟩ := List.mem_map.mp hmem
    exact ⟨problem, (List.mem_filter.mp hproblem).1, hcode, rfl⟩
  · rintro ⟨problem, hproblem, hcode, rfl⟩
    have hmem := hperm.mem_iff.mpr
      (List.mem_map_of_mem (List.mem_filter.mpr ⟨hproblem, beq_iff_eq.mpr hcode⟩))
    exact ⟨problem.diagnostic, (List.mem_filter.mp hmem).1, hcode, rfl⟩

/-- A union is reported at its name if and only if it has fewer than two options. -/
theorem reports_unionMissingOpts_iff (spells : (stream file source).Spells document)
    (declares : Document.DeclaresUnion document.declarations name options) :
    (check file source).Reports .unionMissingOpts name.start ↔ options.length < 2 := by
  obtain ⟨keyword, opening, closing, hmem⟩ := declares
  have hpart : (problemParts document).filter
      (fun part => ErrorCode.unionMissingOpts ∈ part.1) = [(ErrorCode.scanned,
        (Reading.body document.header document.declarations none).problems)] := rfl
  have hdistinct : (document.declarations.flatMap fun declaration =>
      declaration.typeName?.toList.map Token.start).Nodup :=
    spells.ascending.nodup.sublist (flatMap_sublist_starts Declaration.typeName_sublist _)
  rw [reports_iff spells, hpart, List.flatMap_singleton]
  constructor
  · rintro ⟨problem, hproblem, hcode, hplace⟩
    rcases List.mem_append.mp hproblem with hproblem | hproblem
    · -- what is reported about names has other codes
      have hother := DeclaredNames.problems_codes _ _ hproblem
      rw [hcode] at hother
      exact absurd hother (by decide)
    · obtain ⟨declaration, hdeclaration, hproblem⟩ := List.mem_flatMap.mp hproblem
      obtain ⟨_, other, _, others, _, rfl, hfew, rfl⟩ :=
        (Declaration.mem_shortages_iff hcode).mp hproblem
      obtain ⟨hsame, -⟩ := eq_of_flatMap_key_eq hdistinct hdeclaration hmem
        (List.mem_singleton.mpr rfl) (List.mem_singleton.mpr rfl) hplace
      cases hsame
      exact hfew
  · intro hfew
    refine ⟨.unionTooSmall name.text options.length name.start, ?_, rfl, rfl⟩
    refine List.mem_append_right _ (List.mem_flatMap.mpr ⟨_, hmem, ?_⟩)
    exact (Declaration.mem_shortages_iff rfl).mpr
      ⟨keyword, name, opening, options, closing, rfl, hfew, rfl⟩

/-- What is reported at a place about options is what the rule about unions finds there. -/
theorem reports_unionProblem_iff (spells : (stream file source).Spells document) {code : ErrorCode}
    (found : code = .unionRecurs ∨ code = .unionIncludesNone) (place : Cursor) :
    (check file source).Reports code place ↔
      ∃ problem ∈ (Registry.ofDeclarations document.declarations).linked.unionProblems,
        problem.code = code ∧ problem.position = place := by
  have hpart : (problemParts document).filter (fun part => code ∈ part.1) =
      [([.unionRecurs, .unionIncludesNone],
        (Registry.ofDeclarations document.declarations).linked.unionProblems)] := by
    rcases found with rfl | rfl <;> rfl
  rw [reports_iff spells, hpart, List.flatMap_singleton]

/-- At an option of a union that is kept it is reported whether aliases lead from it to the union or
to `None`. -/
theorem reportsOption (spells : (stream file source).Spells document)
    (declares : Document.DeclaresUnion (Document.kept document.declarations) name options)
    {option : TypeReference} (hoption : option ∈ options) :
    (check file source).ReportsOption (Document.kept document.declarations) name option := by
  have hrecords := Registry.records_kept_linked document.declarations
  have hfilled := Registry.filled_linked (Registry.consistent_ofDeclarations document.declarations)
  have hconsistent := Registry.consistent_linked document.declarations
  have hdistinct := spells.ascending.nodup.sublist
    (Registry.standsIn_linked document.declarations).options
  obtain ⟨type, htype, hname, ⟨recorded, hbody⟩, described, hdescribed, hdesignation, hreference⟩ :=
    hrecords.exists_option hfilled declares hoption
  have hnamed := hconsistent.named_declared htype
  have hunion := hconsistent.isTarget_of_union htype hbody
  have hprimitive := hconsistent.named_primitive .nothing
  have hnothing := hconsistent.isTarget_of_primitive .nothing
  rw [hname] at hnamed
  have hself : (check file source).Reports .unionRecurs option.designation.position ↔
      option.LeadsTo (Document.kept document.declarations) name.text := by
    rw [reports_unionProblem_iff spells (.inl rfl), ← hdesignation,
      Registry.exists_unionProblem_iff hdistinct htype hdescribed,
      Registry.exists_unionRecurs_iff, hreference]
    exact hrecords.exists_aliasTarget?_iff hfilled hconsistent hnamed hunion
  have hnone : (check file source).Reports .unionIncludesNone option.designation.position ↔
      option.LeadsTo (Document.kept document.declarations) Primitive.nothing.name := by
    rw [reports_unionProblem_iff spells (.inr rfl), ← hdesignation,
      Registry.exists_unionProblem_iff hdistinct htype hdescribed,
      Registry.exists_unionIncludesNone_iff (hconsistent.declared_ne_primitive htype .nothing),
      hreference]
    exact hrecords.exists_aliasTarget?_iff hfilled hconsistent hprimitive hnothing
  refine ⟨hself, hnone, fun hother => ?_⟩
  -- an option that is reported has no modifiers, is defined, and leads to no cycle
  have hsound {last : String} {target : TypeId}
      (named : (Registry.ofDeclarations document.declarations).linked.Named last target)
      (isTarget : (Registry.ofDeclarations document.declarations).linked.types.IsTarget target) :
      ¬ option.LeadsTo (Document.kept document.declarations) last := by
    rintro ⟨hbare, hreaches⟩
    obtain ⟨hdefined, hacyclic⟩ := hrecords.leadsTo_spec hfilled hconsistent named isTarget hreaches
    rcases hother with hwrapped | hundefined | ⟨other, hleads, hcycle⟩
    · exact hwrapped hbare
    · exact hundefined hdefined
    · exact hacyclic other hleads hcycle
  rw [hself, hnone]
  exact ⟨hsound hnamed hunion, hsound hprimitive hnothing⟩

end Schema

/-! ### Unions of accepted schemas -/

namespace Registry

variable {registry : Registry} {declarations : List Declaration}

/-- References to the same type are written alike. -/
theorem Resolved.canonical_eq (h : Resolved declarations registry) {reference other : Designation}
    (hmem : reference ∈ declarations.flatMap Declaration.references)
    (hother : other ∈ declarations.flatMap Declaration.references)
    (hsame : registry.types.reference? reference = registry.types.reference? other) :
    reference.canonical = other.canonical := by
  obtain ⟨-, type, -, htype, hid, hcanonical, -⟩ := h.reference?_spec hmem
  obtain ⟨-, again, -, hagain, hagainId, hagainCanonical, -⟩ := h.reference?_spec hother
  rw [hid, hagainId] at hsame
  rw [← hcanonical, ← hagainCanonical,
    eq_of_key_eq h.consistent.types.ids htype hagain (Option.some.inj hsame)]

/-- If nothing is wrong with the options of a union, there are two of them or more, of distinct
types, none of which leads to the union or to `None`. -/
theorem Resolved.union_proper (h : Resolved declarations registry)
    (members : ∀ declaration ∈ declarations, declaration.MembersDistinct ∧ declaration.Complete)
    (quiet : registry.unionProblems = []) {type : DeclaredType}
    (htype : type ∈ registry.types.declared) {recorded : List UnionOption}
    (hbody : type.body = .union recorded) :
    2 ≤ recorded.length ∧ (recorded.map UnionOption.type).Nodup ∧
      ∀ option ∈ recorded, ∃ id, option.type = some id ∧
        ¬ ReflTransGen registry.types.AliasStep id type.id ∧
        ¬ ReflTransGen registry.types.AliasStep id Primitive.nothing.id := by
  obtain ⟨keyword, token, opening, options, closing, hmem, -, hrecords⟩ :=
    h.records.of_union htype hbody
  obtain ⟨same, hsame, hall⟩ := h.filled.options_spec htype hrecords
  rw [hbody] at hsame
  obtain rfl := TypeBody.union.inj hsame
  have hdistinct : (options.map fun option => option.designation.canonical).Nodup :=
    (members _ hmem).1
  have hcomplete : 2 ≤ options.length := (members _ hmem).2
  have htypes : options.map (fun option => registry.types.reference? option.designation) =
      recorded.map UnionOption.type :=
    map_eq_map_of_forall₂ hall fun option described hdescribed => hdescribed.2.symm
  refine ⟨?_, ?_, ?_⟩
  · rwa [← hall.length_eq]
  · rw [← htypes]
    refine List.Nodup.map_on ?_ (List.Nodup.of_map _ hdistinct)
    intro option hoption other hother hreferences
    exact eq_of_key_eq hdistinct hoption hother (h.canonical_eq (option_reference_mem hmem hoption)
      (option_reference_mem hmem hother) hreferences)
  · intro described hdescribed
    obtain ⟨option, hoption, -, hreference⟩ := exists_left_of_forall₂ hall hdescribed
    obtain ⟨id, hid, -⟩ := h.reference?_within (option_reference_mem hmem hoption)
    rw [hid] at hreference
    have hproblem : registry.optionProblem? type described = none := by
      refine List.filterMap_eq_nil_iff.mp (List.flatMap_eq_nil_iff.mp quiet type htype) described ?_
      rwa [DeclaredType.options_of_union hbody]
    obtain ⟨hself, hnothing⟩ := (optionProblem?_eq_none_iff registry type hreference).mp hproblem
    refine ⟨id, hreference, fun hreaches => hself ?_, fun hreaches => hnothing ?_⟩
    · exact TypeTable.aliasTarget?_eq_some_iff.mpr
        ⟨hreaches, h.consistent.isTarget_of_union htype hbody⟩
    · exact TypeTable.aliasTarget?_eq_some_iff.mpr
        ⟨hreaches, h.consistent.isTarget_of_primitive .nothing⟩

end Registry

namespace Schema

/-- The unions of an accepted schema are proper. -/
theorem unionsProper {file : Path} {source : String} {document : Document}
    (spells : (stream file source).Spells document) {model : SchemaModel}
    (accepted : (check file source).model = .ok model) : model.UnionsProper := by
  obtain ⟨hfaultless, rfl⟩ := (check_eq_ok_iff_of_spells spells).mp accepted
  have hresolved := hfaultless.resolved spells.plainNames
  obtain ⟨-, hmembers⟩ :=
    (Document.problems_body_eq_nil_iff document.header document.declarations).mp hfaultless.reading
  have hproblems := (List.append_eq_nil_iff.mp hfaultless.resolving).2
  obtain ⟨-, -, hunions, -⟩ := (Registry.problems_eq_nil_iff _ document.header).mp hproblems
  intro type htype options hbody
  exact hresolved.union_proper hmembers hunions htype hbody

/-- In a schema that is read to its end every union with fewer than two options is reported at its
name, and no other one.  An option that is kept is reported at its place as the union itself or as
`None` if and only if it is a name from which aliases lead there; an option with modifiers, one that
is not defined, and one from which aliases lead to a cycle is reported as neither.  If the schema is
accepted, every union has two options or more, of distinct types, none of which leads to the union
or to `None`. -/
theorem check_unions {file : Path} {source : String} (scans : (check file source).fatal = []) :
    ∃ document, (stream file source).Spells document ∧
      (check file source).ReportsUnions document.declarations ∧
      ∀ model, (check file source).model = .ok model → model.UnionsProper := by
  obtain ⟨document, hspells⟩ := exists_spells_of_scans scans
  refine ⟨document, hspells, ⟨?_, ?_⟩, fun model => unionsProper hspells⟩
  · intro name options declares
    exact reports_unionMissingOpts_iff hspells declares
  · intro name options declares option hoption
    exact reportsOption hspells declares hoption

/-- A union with options that lead to the union, to `None`, to a cycle of aliases and nowhere, and
one with a single option. -/
theorem check_unions_aliases :
    (check default
      "schema s alias A = U union U { A N []A C X } alias N = None alias C = C union V { U }"
      ).fatal = [] ∧
    ∃ document, (stream default
      "schema s alias A = U union U { A N []A C X } alias N = None alias C = C union V { U }"
      ).Spells document ∧
      (check default
        "schema s alias A = U union U { A N []A C X } alias N = None alias C = C union V { U }"
        ).ReportsUnions document.declarations := by
  have hread : (Reading.ofStream (stream default
      "schema s alias A = U union U { A N []A C X } alias N = None alias C = C union V { U }"
      )).2 = none := by
    decide +kernel
  have hscans := fatal_eq_nil_of_read hread
  obtain ⟨document, hspells, hreports, -⟩ := check_unions hscans
  exact ⟨hscans, document, hspells, hreports⟩

end Schema

end GraphSchema
