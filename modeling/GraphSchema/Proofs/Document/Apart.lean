import GraphSchema.Proofs.Document.Shown
import GraphSchema.Proofs.Severity
import Mathlib.Data.List.Perm.Subperm

/-!
# Problems that are told apart

No two problems that show while a document is read are at one place with one code
(`Reading.problems_apart`).  Problems of different kinds have different codes, and those of one kind
are at different places: each of them is at a name or an option of its own (`PlacedAmong`).
-/

namespace GraphSchema

/-! ### Places of problems -/

/-- The problems are at some of the given places, each problem at a place of its own. -/
def PlacedAmong (places : List Cursor) (problems : List Problem) : Prop :=
  List.Subperm (problems.map Problem.position) places

/-- No two of the problems have the same place and the same code. -/
def Apart (problems : List Problem) : Prop :=
  (problems.map fun problem => (problem.position, problem.code)).Nodup

section

variable {α : Type} {places others : List Cursor} {problems back : List Problem}

theorem PlacedAmong.mono (h : PlacedAmong places problems) (sub : List.Subperm places others) :
    PlacedAmong others problems :=
  h.trans sub

theorem PlacedAmong.position_mem (h : PlacedAmong places problems) {problem : Problem}
    (hmem : problem ∈ problems) : problem.position ∈ places :=
  h.subset (List.mem_map_of_mem hmem)

theorem PlacedAmong.append (h : PlacedAmong places problems) (hback : PlacedAmong others back) :
    PlacedAmong (places ++ others) (problems ++ back) := by
  rw [PlacedAmong, List.map_append]
  exact List.Subperm.append h hback

theorem placedAmong_nil (places : List Cursor) : PlacedAmong places [] :=
  List.nil_subperm

theorem placedAmong_singleton {problem : Problem} (h : problem.position ∈ places) :
    PlacedAmong places [problem] :=
  List.singleton_subperm_iff.mpr h

theorem placedAmong_flatMap {spots : α → List Cursor} {found : α → List Problem}
    (h : ∀ entry, PlacedAmong (spots entry) (found entry)) (entries : List α) :
    PlacedAmong (entries.flatMap spots) (entries.flatMap found) := by
  induction entries with
  | nil => exact placedAmong_nil _
  | cons entry entries ih =>
    rw [List.flatMap_cons, List.flatMap_cons]
    exact (h entry).append ih

/-- At most one problem for each entry, at its place. -/
theorem placedAmong_filterMap {place : α → Cursor} {problem? : α → Option Problem}
    (h : ∀ entry, ∀ problem ∈ problem? entry, problem.position = place entry) (entries : List α) :
    PlacedAmong (entries.map place) (entries.filterMap problem?) := by
  rw [List.map_eq_flatMap, List.filterMap_eq_flatMap_toList]
  refine placedAmong_flatMap (fun entry => ?_) entries
  cases hproblem : problem? entry with
  | none => exact placedAmong_nil _
  | some problem =>
    exact placedAmong_singleton (List.mem_singleton.mpr (h entry problem hproblem))

/-- At most one problem for each entry, where it is used again. -/
theorem placedAmong_repeats {κ : Type} [DecidableEq κ] {key : α → κ} {place : α → Cursor}
    {report : α × α → Problem} (later : ∀ pair, (report pair).position = place pair.2)
    (entries : List α) : PlacedAmong (entries.map place) ((repeats key entries).map report) := by
  have hplaces : ((repeats key entries).map report).map Problem.position =
      ((repeats key entries).map Prod.snd).map place := by
    rw [List.map_map, List.map_map]
    exact List.map_congr_left fun pair _ => later pair
  rw [PlacedAmong, hplaces]
  exact ((repeats_sublist key entries).map place).subperm

/-- Problems at distinct places are told apart by them. -/
theorem PlacedAmong.apart (h : PlacedAmong places problems) (distinct : places.Nodup) :
    Apart problems := by
  obtain ⟨row, hperm, hsublist⟩ := h
  have hplaces : (problems.map Problem.position).Nodup :=
    hperm.nodup_iff.mp (distinct.sublist hsublist)
  exact List.Nodup.of_map Prod.fst (by rwa [List.map_map])

theorem apart_nil : Apart [] :=
  List.nodup_nil

/-- Problems with different codes are told apart by them. -/
theorem Apart.append {codes more : List ErrorCode} (h : Apart problems) (hback : Apart back)
    (hcodes : CodesAmong codes problems) (hmore : CodesAmong more back)
    (different : ∀ code ∈ codes, code ∉ more) : Apart (problems ++ back) := by
  rw [Apart, List.map_append, List.nodup_append]
  refine ⟨h, hback, ?_⟩
  intro entry hentry other hother hsame
  obtain ⟨problem, hproblem, rfl⟩ := List.mem_map.mp hentry
  obtain ⟨second, hsecond, rfl⟩ := List.mem_map.mp hother
  refine different _ (hcodes problem hproblem) ?_
  rw [(Prod.mk.inj hsame).2]
  exact hmore second hsecond

/-- Problems of several kinds are told apart if those of each kind are, and no code belongs to two
kinds. -/
theorem apart_flatten {kinds : List (List ErrorCode)} {groups : List (List Problem)}
    (h : List.Forall₂ (fun codes problems => CodesAmong codes problems ∧ Apart problems)
      kinds groups)
    (different : kinds.Pairwise fun codes more => ∀ code ∈ codes, code ∉ more) :
    CodesAmong kinds.flatten groups.flatten ∧ Apart groups.flatten := by
  induction h with
  | nil => exact ⟨codesAmong_nil _, apart_nil⟩
  | @cons codes problems kinds groups hfirst hrest ih =>
    obtain ⟨hcodes, hapart⟩ := hfirst
    obtain ⟨hbefore, hdifferent⟩ := List.pairwise_cons.mp different
    obtain ⟨hrestCodes, hrestApart⟩ := ih hdifferent
    refine ⟨(hcodes.mono (List.subset_append_left _ _)).append
      (hrestCodes.mono (List.subset_append_right _ _)), ?_⟩
    refine hapart.append hrestApart hcodes hrestCodes fun code hcode hmem => ?_
    obtain ⟨more, hmore, hcode'⟩ := List.mem_flatten.mp hmem
    exact hbefore more hmore code hcode hcode'

end

/-! ### Repeated names -/

namespace DeclaredNames

theorem typeProblems_placed (names : List Token) :
    PlacedAmong (starts names) (typeProblems names) := by
  unfold typeProblems
  rw [List.partition_eq_filter_filter]
  -- the names of primitive types and all others make up the names
  have hperm := List.filter_append_perm (fun name : Token => (Primitive.ofName? name.text).isSome)
    names
  refine PlacedAmong.mono (PlacedAmong.append ?_ (placedAmong_repeats (fun _ => by rfl) _))
    (List.map_append ▸ (hperm.map Token.start).subperm)
  rw [PlacedAmong, List.map_map]
  exact List.Subperm.refl _

theorem endpointProblems_placed (names : List Token) :
    PlacedAmong (starts names) (endpointProblems names) :=
  placedAmong_repeats (fun _ => by rfl) names

theorem parameterProblems_placed (nodeName : String) (parameters : List Token) :
    PlacedAmong (starts parameters) (parameterProblems nodeName parameters) :=
  placedAmong_repeats (fun _ => by rfl) parameters

theorem memberProblems_placed (names : DeclaredNames) :
    PlacedAmong names.places names.memberProblems := by
  cases names with
  | nothing => exact placedAmong_nil _
  | typeAlias name => exact placedAmong_nil _
  | enum name values =>
    exact (placedAmong_repeats (fun _ => by rfl) values).mono (List.sublist_cons_self _ _).subperm
  | union name options =>
    exact (placedAmong_repeats (fun _ => by rfl) options).mono (List.sublist_cons_self _ _).subperm
  | struct name fields =>
    exact (placedAmong_repeats (fun _ => by rfl) fields).mono (List.sublist_cons_self _ _).subperm
  | resolver name properties =>
    -- the names of the properties and those of their parameters stand at different places
    have hperm := List.flatMap_append_perm properties (fun property => [property.1.start])
      fun property => starts property.2
    rw [← List.map_eq_flatMap] at hperm
    exact PlacedAmong.mono (PlacedAmong.append (placedAmong_repeats (fun _ => by rfl) properties)
      (placedAmong_flatMap (fun property => parameterProblems_placed _ property.2) properties))
      (hperm.subperm.trans (List.sublist_cons_self _ _).subperm)
  | endpoint name parameters =>
    exact (parameterProblems_placed _ parameters).mono (List.sublist_cons_self _ _).subperm

theorem typeName?_sublist (names : DeclaredNames) :
    (names.typeName?.toList.map Token.start).Sublist names.places := by
  cases hname : names.typeName? with
  | none => exact List.nil_sublist _
  | some name => exact List.singleton_sublist.mpr (typeName?_mem_places hname)

theorem endpointName?_sublist (names : DeclaredNames) :
    (names.endpointName?.toList.map Token.start).Sublist names.places := by
  cases hname : names.endpointName? with
  | none => exact List.nil_sublist _
  | some name => exact List.singleton_sublist.mpr (endpointName?_mem_places hname)

/-- The names of some declarations that are of one sort stand at places of the declarations. -/
theorem starts_filterMap_sublist {name? : DeclaredNames → Option Token}
    (h : ∀ names, ((name? names).toList.map Token.start).Sublist names.places)
    (names : List DeclaredNames) :
    (starts (names.filterMap name?)).Sublist (names.flatMap places) := by
  rw [starts, List.filterMap_eq_flatMap_toList, List.map_flatMap]
  exact List.Sublist.flatMap_right _ fun declared _ => h declared

/-- Problems with names are told apart if the names stand at distinct places. -/
theorem problems_apart {names : List DeclaredNames} (distinct : (names.flatMap places).Nodup) :
    Apart (problems names) := by
  have htypes : Apart (typeProblems (names.filterMap typeName?)) :=
    (typeProblems_placed _).apart
      (distinct.sublist (starts_filterMap_sublist typeName?_sublist names))
  have hendpoints : Apart (endpointProblems (names.filterMap endpointName?)) :=
    (endpointProblems_placed _).apart
      (distinct.sublist (starts_filterMap_sublist endpointName?_sublist names))
  have hmembers : Apart (names.flatMap memberProblems) :=
    (placedAmong_flatMap memberProblems_placed names).apart distinct
  have hgroups : List.Forall₂ (fun codes problems => CodesAmong codes problems ∧ Apart problems)
      [[.typeRedecl], [.graphRootNodeRedecl], ErrorCode.repetitions]
      [typeProblems (names.filterMap typeName?), endpointProblems (names.filterMap endpointName?),
        names.flatMap memberProblems] :=
    .cons ⟨typeProblems_codes _, htypes⟩ (.cons ⟨endpointProblems_codes _, hendpoints⟩
      (.cons ⟨codesAmong_flatMap memberProblems_codes names, hmembers⟩ .nil))
  simpa [problems] using (apart_flatten hgroups (by decide)).2

end DeclaredNames

/-! ### What shows while a document is read -/

theorem Declaration.shortages_placed (declaration : Declaration) :
    PlacedAmong (declaration.typeName?.toList.map Token.start) declaration.shortages := by
  unfold shortages
  split
  case h_2 =>
    split
    · exact placedAmong_singleton (List.mem_singleton.mpr rfl)
    · exact placedAmong_nil _
  case h_5 => exact placedAmong_nil _
  all_goals exact placedAmong_singleton (List.mem_singleton.mpr rfl)

/-- What is read completely consists of tokens that were taken. -/
theorem Reading.declarations_sublist (reading : Reading) :
    (starts (reading.declarations.flatMap Declaration.tokens)).Sublist (starts reading.tokens) := by
  cases reading with
  | start => exact List.nil_sublist _
  | headed keyword => exact List.nil_sublist _
  | body header declarations pending =>
    exact ((List.sublist_append_right _ _).trans (List.sublist_append_left _ _)).map _

/-- No two problems that show while a document is read are at one place with one code. -/
theorem Reading.problems_apart {reading : Reading} (distinct : (starts reading.tokens).Nodup) :
    Apart reading.problems := by
  have hnames : Apart (DeclaredNames.problems reading.names) :=
    DeclaredNames.problems_apart (distinct.sublist reading.names_places)
  have hshortages : Apart (reading.declarations.flatMap Declaration.shortages) := by
    refine (placedAmong_flatMap Declaration.shortages_placed reading.declarations).apart ?_
    exact distinct.sublist ((flatMap_sublist_starts Declaration.typeName_sublist _).trans
      reading.declarations_sublist)
  exact hnames.append hshortages (DeclaredNames.problems_codes reading.names)
    (codesAmong_flatMap Declaration.shortages_codes reading.declarations) (by decide)

end GraphSchema
