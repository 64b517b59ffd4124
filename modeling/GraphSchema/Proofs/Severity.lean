import GraphSchema.Proofs.Sorting
import GraphSchema.Schema
import Mathlib.Data.List.Basic

/-!
# Fatal problems

Problems are of three kinds, which their codes tell apart.  A fatal one ends the reading: a token
that cannot be taken (`Expectation.refusal`) or tokens that end too early (`Reading.endProblem?`).
Others show while the reading goes on (`Reading.problems_codes`), and the rest is found in the whole
document (`Schema.problemsOf_codes`).  So the fatal diagnostics of a source text are those of the
problem that ended its reading: `Schema.fatal_check`.  The problems of a document with one code are
those of the checks that can report it: `Schema.filter_problemParts`.
-/

namespace GraphSchema

/-! ### Diagnostics of problems -/

namespace Diagnostic

theorem ofProblems_perm (problems : List Problem) :
    (ofProblems problems).Perm (problems.map Problem.diagnostic) :=
  sorted_perm _

theorem ofProblems_eq_nil_iff {problems : List Problem} :
    ofProblems problems = [] ↔ problems = [] := by
  rw [← List.length_eq_zero_iff, (ofProblems_perm problems).length_eq, List.length_map,
    List.length_eq_zero_iff]

end Diagnostic

/-- Does the problem end the reading of a source text? -/
def Problem.isFatal (problem : Problem) : Bool :=
  problem.code.isFatal

/-- All of some problems have one of the given codes. -/
def CodesAmong (codes : List ErrorCode) (problems : List Problem) : Prop :=
  ∀ problem ∈ problems, problem.code ∈ codes

section

variable {α : Type} {codes others : List ErrorCode} {problems : List Problem}

theorem codesAmong_nil (codes : List ErrorCode) : CodesAmong codes [] :=
  List.forall_mem_nil _

theorem CodesAmong.mono (h : CodesAmong codes problems) (sub : codes ⊆ others) :
    CodesAmong others problems :=
  fun problem hproblem => sub (h problem hproblem)

theorem CodesAmong.append {back : List Problem} (h : CodesAmong codes problems)
    (hback : CodesAmong codes back) : CodesAmong codes (problems ++ back) := by
  intro problem hproblem
  rcases List.mem_append.mp hproblem with hproblem | hproblem
  · exact h problem hproblem
  · exact hback problem hproblem

theorem codesAmong_map {problem : α → Problem} (h : ∀ entry, (problem entry).code ∈ codes)
    (entries : List α) : CodesAmong codes (entries.map problem) := by
  intro found hfound
  obtain ⟨entry, -, rfl⟩ := List.mem_map.mp hfound
  exact h entry

theorem codesAmong_flatMap {found : α → List Problem}
    (h : ∀ entry, CodesAmong codes (found entry)) (entries : List α) :
    CodesAmong codes (entries.flatMap found) := by
  intro problem hproblem
  obtain ⟨entry, -, hentry⟩ := List.mem_flatMap.mp hproblem
  exact h entry problem hentry

theorem codesAmong_filterMap {problem? : α → Option Problem}
    (h : ∀ entry, ∀ problem ∈ problem? entry, problem.code ∈ codes) (entries : List α) :
    CodesAmong codes (entries.filterMap problem?) := by
  intro problem hproblem
  obtain ⟨entry, -, hentry⟩ := List.mem_filterMap.mp hproblem
  exact h entry problem hentry

/-- Problems with other codes are not selected. -/
theorem CodesAmong.filter_eq_nil (h : CodesAmong codes problems) (select : ErrorCode → Bool)
    (others : ∀ code ∈ codes, select code = false) :
    (problems.filter fun problem => select problem.code) = [] := by
  rw [List.filter_eq_nil_iff]
  intro problem hproblem
  rw [others _ (h problem hproblem)]
  exact Bool.false_ne_true

/-- Problems with other codes than a given one are not selected by it. -/
theorem CodesAmong.filter_code_eq_nil (h : CodesAmong codes problems) {code : ErrorCode}
    (other : code ∉ codes) : (problems.filter fun problem => problem.code == code) = [] :=
  h.filter_eq_nil (· == code) fun _ hcode => beq_false_of_ne fun hsame => other (hsame ▸ hcode)

/-- Problems that all have the same code are selected by it. -/
theorem CodesAmong.filter_eq_self {code : ErrorCode} (h : CodesAmong [code] problems) :
    (problems.filter fun problem => problem.code == code) = problems :=
  List.filter_eq_self.mpr fun problem hproblem =>
    beq_iff_eq.mpr (List.mem_singleton.mp (h problem hproblem))

end

/-! ### What shows while a document is read -/

namespace ErrorCode

/-- The codes of members and parameters that are repeated. -/
def repetitions : List ErrorCode :=
  [enumValRedecl, unionRedund, structFieldRedecl, resolverPropRedecl, paramRedecl]

/-- The codes of what shows while a document is read: names that are used again, and members or
options that are missing. -/
def scanned : List ErrorCode :=
  [typeRedecl, graphRootNodeRedecl] ++ repetitions ++
    [enumNoVal, unionMissingOpts, structNoFields, resolverNoProps]

/-- The codes of names that are used again. -/
def redeclared : List ErrorCode :=
  [typeRedecl, graphRootNodeRedecl] ++ repetitions

/-- The codes of members and options that are missing. -/
def missing : List ErrorCode :=
  [enumNoVal, unionMissingOpts, structNoFields, resolverNoProps]

/-- The codes of what is wrong with a whole document. -/
def resolved : List ErrorCode :=
  [typeUndef, aliasRecurs, structRecurs, unionRecurs, unionIncludesNone, structFieldImpure,
    paramImpure, noEndpoints]

end ErrorCode

namespace DeclaredNames

theorem parameterProblems_codes (nodeName : String) (parameters : List Token) :
    CodesAmong [.paramRedecl] (parameterProblems nodeName parameters) := by
  refine codesAmong_map (fun repetition => ?_) _
  exact List.mem_singleton.mpr rfl

theorem memberProblems_codes (names : DeclaredNames) :
    CodesAmong ErrorCode.repetitions names.memberProblems := by
  cases names with
  | nothing => exact codesAmong_nil _
  | typeAlias name => exact codesAmong_nil _
  | enum name values =>
    refine codesAmong_map (fun repetition => ?_) _
    exact show ErrorCode.enumValRedecl ∈ ErrorCode.repetitions by decide
  | union name options =>
    refine codesAmong_map (fun repetition => ?_) _
    exact show ErrorCode.unionRedund ∈ ErrorCode.repetitions by decide
  | struct name fields =>
    refine codesAmong_map (fun repetition => ?_) _
    exact show ErrorCode.structFieldRedecl ∈ ErrorCode.repetitions by decide
  | resolver name properties =>
    refine CodesAmong.append (codesAmong_map (fun repetition => ?_) _)
      (codesAmong_flatMap (fun property => ?_) _)
    · exact show ErrorCode.resolverPropRedecl ∈ ErrorCode.repetitions by decide
    · exact (parameterProblems_codes _ property.2).mono (by decide)
  | endpoint name parameters => exact (parameterProblems_codes _ parameters).mono (by decide)

theorem typeProblems_codes (names : List Token) :
    CodesAmong [.typeRedecl] (typeProblems names) := by
  refine CodesAmong.append (codesAmong_map (fun name => ?_) _)
    (codesAmong_map (fun repetition => ?_) _)
  · exact List.mem_singleton.mpr rfl
  · exact List.mem_singleton.mpr rfl

theorem endpointProblems_codes (names : List Token) :
    CodesAmong [.graphRootNodeRedecl] (endpointProblems names) := by
  refine codesAmong_map (fun repetition => ?_) _
  exact List.mem_singleton.mpr rfl

theorem problems_codes (names : List DeclaredNames) :
    CodesAmong ErrorCode.redeclared (problems names) := by
  refine CodesAmong.append (CodesAmong.append ?_ ?_) ?_
  · exact (typeProblems_codes _).mono (by decide)
  · exact (endpointProblems_codes _).mono (by decide)
  · exact codesAmong_flatMap (fun found => (memberProblems_codes found).mono (by decide)) names

end DeclaredNames

theorem Declaration.shortages_codes (declaration : Declaration) :
    CodesAmong ErrorCode.missing declaration.shortages := by
  unfold shortages CodesAmong
  split
  case h_2 =>
    split
    · simp [Problem.code, ErrorCode.missing]
    · exact List.forall_mem_nil _
  all_goals simp [Problem.code, ErrorCode.missing]

/-- What shows while a document is read has one of the codes for it. -/
theorem Reading.problems_codes (reading : Reading) :
    CodesAmong ErrorCode.scanned reading.problems :=
  ((DeclaredNames.problems_codes reading.names).mono (by decide)).append
    ((codesAmong_flatMap Declaration.shortages_codes reading.declarations).mono (by decide))

/-! ### What is wrong with a whole document -/

namespace Registry

theorem undefinedProblems_codes (registry : Registry) :
    CodesAmong [.typeUndef] registry.undefinedProblems := by
  refine codesAmong_filterMap ?_ _
  intro reference problem hproblem
  split at hproblem
  · cases hproblem
  · obtain rfl := Option.some.inj hproblem
    exact List.mem_singleton.mpr rfl

theorem aliasCycleProblems_codes (table : TypeTable) :
    CodesAmong [.aliasRecurs] table.aliasCycleProblems := by
  refine codesAmong_filterMap ?_ _
  intro members problem hproblem
  unfold TypeTable.aliasCycleProblem? at hproblem
  dsimp only at hproblem
  split at hproblem
  · cases hproblem
  · obtain rfl := Option.some.inj hproblem
    exact List.mem_singleton.mpr rfl

theorem structCycleProblems_codes (registry : Registry) :
    CodesAmong [.structRecurs] registry.structCycleProblems := by
  refine codesAmong_filterMap ?_ _
  intro links problem hproblem
  cases links with
  | nil => cases hproblem
  | cons first others =>
    obtain rfl := Option.some.inj hproblem
    exact List.mem_singleton.mpr rfl

theorem unionProblems_codes (registry : Registry) :
    CodesAmong [.unionRecurs, .unionIncludesNone] registry.unionProblems := by
  refine codesAmong_flatMap (fun type => codesAmong_filterMap ?_ _) _
  intro option problem hproblem
  obtain ⟨id, -, hid⟩ := Option.bind_eq_some_iff.mp hproblem
  obtain ⟨target, -, htarget⟩ := Option.bind_eq_some_iff.mp hid
  split at htarget
  · obtain rfl := Option.some.inj htarget
    exact List.mem_cons_self ..
  · split at htarget
    · obtain rfl := Option.some.inj htarget
      exact List.mem_cons_of_mem _ (List.mem_cons_self ..)
    · cases htarget

theorem fieldProblems_codes (registry : Registry) (nodes : List GraphNode) :
    CodesAmong [.structFieldImpure] (nodes.filterMap registry.fieldProblem?) := by
  refine codesAmong_filterMap ?_ _
  intro node problem hproblem
  unfold fieldProblem? at hproblem
  split at hproblem
  · obtain ⟨-, hproblem⟩ := Option.ite_none_left_eq_some.mp hproblem
    obtain rfl := Option.some.inj hproblem
    exact List.mem_singleton.mpr rfl
  · cases hproblem

theorem parameterProblems_codes (registry : Registry) (parameters : List Parameter) :
    CodesAmong [.paramImpure] (parameters.filterMap registry.parameterProblem?) := by
  refine codesAmong_filterMap ?_ _
  intro parameter problem hproblem
  unfold parameterProblem? at hproblem
  split at hproblem
  · obtain ⟨-, hproblem⟩ := Option.ite_none_left_eq_some.mp hproblem
    obtain rfl := Option.some.inj hproblem
    exact List.mem_singleton.mpr rfl
  · cases hproblem

theorem endpointProblems_codes (registry : Registry) (header : Header) :
    CodesAmong [.noEndpoints] (registry.endpointProblems header) := by
  unfold endpointProblems
  split
  · exact codesAmong_nil _
  · exact List.forall_mem_singleton.mpr (List.mem_singleton.mpr rfl)

end Registry

/-- What is wrong with a whole document has one of the codes for it. -/
theorem Schema.problemsOf_codes (document : Document) :
    CodesAmong ErrorCode.resolved (problemsOf document) := by
  refine CodesAmong.append ?_ (.append (.append (.append (.append ?_ ?_) ?_) (.append ?_ ?_)) ?_)
  · exact (Registry.undefinedProblems_codes _).mono (by decide)
  · exact (Registry.aliasCycleProblems_codes _).mono (by decide)
  · exact (Registry.structCycleProblems_codes _).mono (by decide)
  · exact (Registry.unionProblems_codes _).mono (by decide)
  · exact (Registry.fieldProblems_codes _ _).mono (by decide)
  · exact (Registry.parameterProblems_codes _ _).mono (by decide)
  · exact (Registry.endpointProblems_codes _ _).mono (by decide)

/-! ### Problems in parts -/

/-- Problems in parts, each with the codes that its problems can have. -/
def Partitioned (parts : List (List ErrorCode × List Problem)) : Prop :=
  ∀ part ∈ parts, CodesAmong part.1 part.2

/-- The problems with one code are found in the parts that can have it. -/
theorem Partitioned.filter_eq {parts : List (List ErrorCode × List Problem)} (h : Partitioned parts)
    (code : ErrorCode) :
    (parts.flatMap Prod.snd).filter (fun problem => problem.code == code) =
      ((parts.filter fun part => code ∈ part.1).flatMap Prod.snd).filter
        fun problem => problem.code == code := by
  induction parts with
  | nil => rfl
  | cons part parts ih =>
    obtain ⟨hpart, hparts⟩ := List.forall_mem_cons.mp h
    by_cases hcode : code ∈ part.1
    · rw [List.filter_cons, if_pos (decide_eq_true hcode), List.flatMap_cons, List.flatMap_cons,
        List.filter_append, List.filter_append, ih hparts]
    · rw [List.filter_cons, if_neg (by simpa using hcode), List.flatMap_cons, List.filter_append,
        hpart.filter_code_eq_nil hcode, List.nil_append, ih hparts]

namespace Schema

/-- What is wrong with a document that is read to its end, in parts. -/
def problemParts (document : Document) : List (List ErrorCode × List Problem) :=
  let registry := Registry.ofDeclarations document.declarations
  [(ErrorCode.scanned, (Reading.body document.header document.declarations none).problems),
    ([.typeUndef], registry.undefinedProblems),
    ([.aliasRecurs], registry.linked.types.aliasCycleProblems),
    ([.structRecurs], registry.linked.structCycleProblems),
    ([.unionRecurs, .unionIncludesNone], registry.linked.unionProblems),
    ([.structFieldImpure, .paramImpure], registry.linked.purityProblems),
    ([.noEndpoints], registry.linked.endpointProblems document.header)]

theorem partitioned_problemParts (document : Document) : Partitioned (problemParts document) := by
  unfold Partitioned problemParts
  simp only [List.forall_mem_cons]
  refine ⟨Reading.problems_codes _, Registry.undefinedProblems_codes _,
    Registry.aliasCycleProblems_codes _, Registry.structCycleProblems_codes _,
    Registry.unionProblems_codes _, .append ?_ ?_, Registry.endpointProblems_codes _ _,
    List.forall_mem_nil _⟩
  · exact (Registry.fieldProblems_codes _ _).mono (by decide)
  · exact (Registry.parameterProblems_codes _ _).mono (by decide)

/-- The problems of a document with one code are found in the parts that can have it. -/
theorem filter_problemParts (document : Document) (code : ErrorCode) :
    ((Reading.body document.header document.declarations none).problems ++
        problemsOf document).filter (fun problem => problem.code == code) =
      (((problemParts document).filter fun part => code ∈ part.1).flatMap Prod.snd).filter
        fun problem => problem.code == code := by
  rw [← (partitioned_problemParts document).filter_eq code]
  unfold problemsOf Registry.problems problemParts
  simp only [List.flatMap_cons, List.flatMap_nil, List.append_nil, List.append_assoc]

end Schema

/-! ### What ends a reading -/

/-- A token that cannot be taken is a fatal problem at the start of the token. -/
theorem Expectation.refusal_fatal (expectation : Expectation) (token : Token) :
    (expectation.refusal token).isFatal = true ∧
      (expectation.refusal token).position = token.start := by
  unfold refusal
  dsimp only
  split
  case h_1 => split <;> exact ⟨rfl, rfl⟩
  case h_3 => split <;> exact ⟨rfl, rfl⟩
  all_goals exact ⟨rfl, rfl⟩

/-- Tokens that end too early are a fatal problem at their end. -/
theorem Reading.endProblem?_fatal {reading : Reading} {ending : TokenStream.Ending}
    {problem : Problem} (h : reading.endProblem? ending = some problem) :
    problem.isFatal = true ∧ problem.position = ending.position := by
  unfold endProblem? at h
  split at h
  · obtain rfl := Option.some.inj h
    exact ⟨rfl, rfl⟩
  · split at h
    · cases h
    · obtain rfl := Option.some.inj h
      exact ⟨rfl, rfl⟩

/-- The problem that ends a reading is fatal. -/
theorem Reading.run_fatal {reading last : Reading} {ending : TokenStream.Ending}
    {row : List Token} {problem : Problem} (h : reading.run ending row = (last, some problem)) :
    problem.isFatal = true := by
  induction row generalizing reading with
  | nil =>
    obtain ⟨-, hproblem⟩ := Prod.mk.inj h
    exact (endProblem?_fatal hproblem).1
  | cons token row ih =>
    rw [run] at h
    split at h
    · exact ih h
    · obtain ⟨-, hproblem⟩ := Prod.mk.inj h
      rw [← Option.some.inj hproblem]
      exact (Expectation.refusal_fatal _ _).1

/-! ### The diagnostics of a source text -/

namespace Checked

/-- The diagnostics; none if there is a model. -/
def diagnostics (checked : Checked) : List Diagnostic :=
  match checked.model with
  | .ok _ => []
  | .error diagnostics => diagnostics

/-- The fatal diagnostics. -/
def fatal (checked : Checked) : List Diagnostic :=
  checked.diagnostics.filter fun diagnostic => diagnostic.code.isFatal

end Checked

namespace Schema

/-- There is a model if nothing is wrong, and else the diagnostics of what is wrong. -/
theorem diagnostics_outcome (fragment : Fragment) (read : Reading × Option Problem) :
    (Checked.mk fragment (outcome read)).diagnostics = Diagnostic.ofProblems (problems read) := by
  unfold Checked.diagnostics outcome
  split
  case h_1 hok =>
    split at hok
    case h_1 hnone _ => rw [hnone, Diagnostic.ofProblems_eq_nil_iff.mpr rfl]
    case h_2 => cases hok
  case h_2 herror =>
    split at herror
    case h_1 => cases herror
    case h_2 => exact (Except.error.inj herror).symm

/-- The fatal problems are the one that ended the reading. -/
theorem filter_problems (reading : Reading) (problem? : Option Problem)
    (h : ∀ problem ∈ problem?, problem.isFatal = true) :
    (problems (reading, problem?)).filter Problem.isFatal = problem?.toList := by
  have hreading : reading.problems.filter Problem.isFatal = [] :=
    reading.problems_codes.filter_eq_nil ErrorCode.isFatal (by decide)
  cases problem? with
  | none =>
    -- only then the whole document is looked at
    have hdocument : ((reading.document?.map problemsOf).getD []).filter Problem.isFatal = [] := by
      cases hread : reading.document? with
      | none => rfl
      | some document =>
        exact (problemsOf_codes document).filter_eq_nil ErrorCode.isFatal (by decide)
    rw [problems, List.filter_append, hreading, hdocument]
    rfl
  | some problem =>
    rw [problems, List.filter_append, hreading, List.nil_append,
      List.filter_cons_of_pos (h problem rfl)]
    rfl

/-- The fatal diagnostics of a source text are those of the problem that ended its reading. -/
theorem fatal_check (file : Path) (source : String) :
    (check file source).fatal =
      (Reading.ofStream (TokenStream.ofSource file source).meaningful).2.toList.map
        Problem.diagnostic := by
  unfold check Checked.fatal
  rw [diagnostics_outcome]
  cases hread : Reading.ofStream (TokenStream.ofSource file source).meaningful with
  | mk reading problem? =>
    have hfatal (problem : Problem) (hproblem : problem ∈ problem?) : problem.isFatal = true := by
      rw [Option.mem_def.mp hproblem] at hread
      exact Reading.run_fatal hread
    have hfilter : ((problems (reading, problem?)).map Problem.diagnostic).filter
        (fun diagnostic => diagnostic.code.isFatal) = problem?.toList.map Problem.diagnostic := by
      rw [List.filter_map, ← filter_problems reading problem? hfatal]
      rfl
    have hperm := (Diagnostic.ofProblems_perm (problems (reading, problem?))).filter
      fun diagnostic => diagnostic.code.isFatal
    rw [hfilter] at hperm
    -- a rearrangement of at most one diagnostic
    cases problem? with
    | none => exact hperm.eq_nil
    | some problem => exact List.perm_singleton.mp hperm

end Schema

end GraphSchema
