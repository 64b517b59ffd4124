import GraphSchema.Proofs.Descent.Progress
import GraphSchema.Proofs.Scan.Tracking
import GraphSchema.Proofs.Schedule

/-!
# Scans follow the reader

A scan of a source text finds what the reader finds, and the problems that it has recorded by then
are those that show in what was read (`Scan.document_finds`).  For a complete document this is known
from its declarations.  A scan that is stopped by a problem has left a declaration open; so it is
shown rule by rule that the reader stops with the same names as the scan has claimed
(`Scan.Follows`).  So the diagnostics of every source text are those of a scan
(`Schema.check_scanned`).
-/

namespace GraphSchema

namespace Scan

variable {σ α β ε μ : Type} {scanner : Scanner}

/-- A scan leads the reader from one place to another.  Where it gives a problem, the problems that
it has recorded are those that show where the reader stops. -/
def Follows (scan : Scan α) (before : Answer) (after : α → Answer) (scanner : Scanner) : Prop :=
  scan.Leads scanner
    (fun value next => before scanner.lexer.upcoming = after value next.lexer.upcoming)
    fun _ stopped => stopped.problems.Perm (before scanner.lexer.upcoming).1.problems

theorem pure_follows {value : α} {before : Answer} {after : α → Answer}
    (h : before scanner.lexer.upcoming = after value scanner.lexer.upcoming) :
    (pure value : Scan α).Follows before after scanner :=
  leads_pure h

/-- What asks for nothing leaves the reader where it is, and gives no problem. -/
theorem Silent.follows {scan : Scan α} (h : scan.Silent) (before : Answer) :
    scan.Follows before (fun _ => before) scanner := by
  intro outcome after hresult
  have hsame := h scanner
  rw [hresult] at hsame
  cases outcome with
  | ok value =>
    have hlexer : after.lexer = scanner.lexer := congrArg Prod.snd (Option.some.inj hsame)
    dsimp only
    rw [hlexer]
  | error problem => cases hsame

theorem Follows.bind {scan : Scan α} {next : α → Scan β} {before : Answer} {middle : α → Answer}
    {after : β → Answer} (h : scan.Follows before middle scanner)
    (hnext : ∀ value between, scan scanner = some (.ok value, between) →
      (next value).Follows (middle value) after between) :
    (scan >>= next).Follows before after scanner := by
  intro outcome last hresult
  rw [bind_apply] at hresult
  match hscan : scan scanner with
  | none => rw [hscan] at hresult; cases hresult
  | some (.error problem, stopped) =>
    rw [hscan] at hresult
    cases hresult
    exact h _ _ hscan
  | some (.ok value, between) =>
    rw [hscan] at hresult
    have hfirst : before scanner.lexer.upcoming = middle value between.lexer.upcoming :=
      h _ _ hscan
    have hrest := hnext value between hscan outcome last hresult
    cases outcome with
    | ok result => exact hfirst.trans hrest
    | error problem =>
      rw [← hfirst] at hrest
      exact hrest

/-- A rule is asked, and the scan goes on where it ends. -/
theorem asks_follows {rule : Rule α} {next : α → Scan β} {before : Answer} {middle : α → Answer}
    {after : β → Answer}
    (agrees : rule.Agrees (fun stopped => scanner.problems.Perm stopped.problems) before middle
      scanner.lexer)
    (hnext : ∀ value rest, rule scanner.lexer = some (.ok value, rest) →
      (next value).Follows (middle value) after { scanner with lexer := rest }) :
    (asks rule >>= next).Follows before after scanner := by
  have hasks : (asks rule).Follows before middle scanner :=
    leads_asks (fun _ _ hresult => agrees _ _ hresult) fun _ _ hresult => (agrees _ _ hresult).2
  refine hasks.bind fun value between hscan => ?_
  obtain ⟨⟨found, rest⟩, hresult, hsame⟩ := Option.map_eq_some_iff.mp hscan
  cases hsame
  exact hnext value rest hresult

/-- A loop follows the reader if its turns do, as long as they keep an invariant. -/
theorem loop_follows {turn : σ → Scan (Progress σ α)} {going : σ → Answer} {after : α → Answer}
    (Invariant : σ → Scanner → Prop)
    (turns : ∀ state scanner, Invariant state scanner →
      (turn state).Follows (going state) (Rule.turnAnswer going after) scanner)
    {Done : α → Scanner → Prop}
    (keeps : ∀ state scanner, Invariant state scanner →
      (turn state).Gives scanner (Turned Invariant Done))
    {state : σ} (begins : Invariant state scanner) :
    (loop turn state).Follows (going state) after scanner := by
  refine leads_loop (fun current now => Invariant current now ∧
    going state scanner.lexer.upcoming = going current now.lexer.upcoming)
    (fun current now hcurrent => ?_) ⟨begins, rfl⟩
  obtain ⟨hinvariant, hreader⟩ := hcurrent
  refine ((turns current now hinvariant).and (keeps current now hinvariant)).mono ?_ ?_
  · rintro progress next ⟨hfollows, hkept⟩
    cases progress with
    | more state => exact ⟨hkept, hreader.trans hfollows⟩
    | done value => exact hreader.trans hfollows
  · intro problem stopped hshown
    rw [hreader]
    exact hshown

/-! ### Parameters and signatures -/

section

variable {wrap : OpenParameters → Reading} {finish : ParameterListing → Token → Reading}
  {after : ParameterListing → Reading} {nodeName : String} {before : Scanner}

/-- Where a parameter is not complete, those before it show; when it is, it shows itself. -/
theorem parameterTurn_follows
    (h : Hosts OpenParameters.step OpenParameters.expectation wrap finish)
    (same : ∀ listing token, finish listing token = after listing)
    (shows : ∀ listing, (before.problems ++ DeclaredNames.parameterProblems nodeName
      listing.names).Perm (wrap listing).problems)
    (target : Option NodeId) (opening : Token) {state : NameScope × List (TypedName × Token)}
    (reports : ReportsParameters nodeName before state.1 (state.2.map Prod.fst) scanner) :
    (parameterTurn target nodeName state).Follows (wrap ⟨opening, state.2, .name⟩).on
      (Rule.turnAnswer (fun next => (wrap ⟨opening, next.2, .name⟩).on)
        fun entries => (after ⟨opening, entries⟩).on) scanner := by
  have hopen (stage : ParameterStage)
      (hstage : OpenParameters.names ⟨opening, state.2, stage⟩ =
        (state.2.map Prod.fst).map TypedName.name) :
      scanner.problems.Perm (wrap ⟨opening, state.2, stage⟩).problems := by
    rw [reports.problems, ← hstage]
    exact shows _
  have hcomplete : OpenParameters.names ⟨opening, state.2, .name⟩ =
      (state.2.map Prod.fst).map TypedName.name := by
    rw [List.map_map]
    exact List.append_nil _
  refine asks_follows (Rule.parameter_agrees h opening state.2 _ (hopen _ hcomplete)
    fun _ _ => hopen _ hcomplete) fun parameter read _ => ?_
  refine Follows.bind ((enter_silent (parameterOf_silent target parameter)).follows _) ?_
  rintro ⟨scope, admitted?⟩ entered hentered
  have hread : ReportsParameters nodeName before state.1 (state.2.map Prod.fst)
      { scanner with lexer := read } := ⟨reports.claims, reports.problems⟩
  have hreports : ReportsParameters nodeName before scope
      (state.2.map Prod.fst ++ [parameter]) entered :=
    hread.enter (parameterOf_recordsNone target parameter) (.ok (scope, admitted?)) _ hentered
  have hshown : entered.problems.Perm
      (wrap ⟨opening, state.2, .separator parameter⟩).problems := by
    rw [hreports.problems, List.map_append, List.map_map]
    exact shows ⟨opening, state.2, .separator parameter⟩
  refine asks_follows (Rule.separator_agrees h same opening state.2 parameter _ hshown)
    fun progress rest _ => pure_follows ?_
  cases progress <;> rfl

end

section

variable {wrap : OpenSignature → Reading} {finish : Signature → Token → Reading}
  {after : Signature → Reading} {nodeName : String}

/-- A list of parameters is followed from its parenthesis on. -/
theorem parameterList_follows
    (h : Hosts OpenSignature.step OpenSignature.expectation wrap finish) (name : Token)
    (shows : ∀ opened : OpenSignature, opened.name = name → (scanner.problems ++
      DeclaredNames.parameterProblems nodeName opened.parameterNames).Perm (wrap opened).problems)
    (target : Option NodeId)
    (begins : ∃ token ∈ scanner.lexer.upcoming.tokens.head?, token.kind = .parenOpen) :
    (parameterList target nodeName).Follows (wrap (.named name)).on
      (fun listing => (wrap (.typed name (some listing) [])).on) scanner := by
  refine asks_follows (Rule.parenOpen_agrees h name begins) fun opening opened _ => ?_
  have hkeeps (state : NameScope × List (TypedName × Token)) (now : Scanner)
      (hnow : ReportsParameters nodeName scanner state.1 (state.2.map Prod.fst) now) :=
    parameterTurn_keeps (ReportsParameters nodeName scanner)
      (fun _ _ _ _ hnow => ⟨hnow.claims, hnow.problems⟩)
      (fun _ _ parameter _ hnow => hnow.enter (parameterOf_recordsNone target parameter)) hnow
  have hloop : (loop (parameterTurn target nodeName) ([], [])).Follows
      (wrap (.parameters name ⟨opening, [], .name⟩)).on
      (fun entries => (wrap (.typed name (some ⟨opening, entries⟩) [])).on)
      { scanner with lexer := opened } :=
    loop_follows (fun state => ReportsParameters nodeName scanner state.1 (state.2.map Prod.fst))
      (fun _ _ hnow => parameterTurn_follows (Rule.hosts_parameters h name) (fun _ _ => rfl)
        (fun listing => shows (.parameters name listing) rfl) target opening hnow) hkeeps
      ⟨NameScope.claims_nil, (List.append_nil _).symm⟩
  exact hloop.bind fun _ _ _ => pure_follows rfl

theorem typeOf_follows {Barred : Token → Prop} {modified : List Token → Reading} {name : Token}
    {parameters : Option ParameterListing}
    (h : HostsDesignation Barred modified fun type => after ⟨name, parameters, type⟩)
    (shows : ∀ modifiers, scanner.problems.Perm (modified modifiers).problems)
    (begins : ∀ token ∈ scanner.lexer.upcoming.tokens.head?, ¬ Barred token)
    (node : Option NodeId) :
    (typeOf name node parameters).Follows (modified []).on (fun signature => (after signature).on)
      scanner :=
  asks_follows (Rule.designation_agrees h shows begins) fun _ _ _ =>
    ((queue_silent _).follows _).bind fun _ _ _ => pure_follows rfl

/-- What follows the name of a property or an endpoint: its parameters show as they are read. -/
theorem signature_follows
    (h : Hosts OpenSignature.step OpenSignature.expectation wrap finish)
    (same : ∀ signature token, finish signature token = after signature) (name : Token)
    (shows : ∀ opened : OpenSignature, opened.name = name → (scanner.problems ++
      DeclaredNames.parameterProblems nodeName opened.parameterNames).Perm (wrap opened).problems)
    (node : Option NodeId) :
    (signature name node nodeName).Follows (wrap (.named name)).on
      (fun signature => (after signature).on) scanner := by
  have hnamed (opened : OpenSignature) (hname : opened.name = name)
      (hnone : opened.parameterNames = []) :
      scanner.problems.Perm (wrap opened).problems := by
    have hshows := shows opened hname
    rw [hnone] at hshows
    exact (List.Perm.of_eq (List.append_nil _).symm).trans hshows
  refine asks_follows (Rule.peekIs_agrees _ (hnamed (.named name) rfl rfl) _)
    fun applied rest hpeek => ?_
  obtain ⟨rfl, happlied⟩ := Rule.peekIs_ok hpeek
  cases applied with
  | true =>
    have hparen : ∃ token ∈ scanner.lexer.upcoming.tokens.head?, token.kind = .parenOpen := by
      simpa [Option.any_eq_true] using happlied.symm
    refine Follows.bind (parameterList_follows h name shows node hparen)
      fun listing read hread => ?_
    have hrecorded : read.problems = scanner.problems ++ DeclaredNames.parameterProblems nodeName
        ((listing.entries.map Prod.fst).map TypedName.name) :=
      parameterList_records node nodeName _ _ hread
    refine typeOf_follows (Rule.hostsDesignation_typed h same name listing) (fun modifiers => ?_)
      (fun _ _ => id) node
    rw [hrecorded, List.map_map]
    exact shows (.typed name (some listing) modifiers) rfl
  | false =>
    have hnone : ∀ token ∈ scanner.lexer.upcoming.tokens.head?, ¬ token.kind = .parenOpen := by
      simpa [Option.any_eq_false] using happlied.symm
    exact typeOf_follows (Rule.hostsDesignation_named h same name)
      (fun modifiers => hnamed _ (by cases modifiers <;> rfl) (by cases modifiers <;> rfl))
      hnone node

end

/-! ### Members -/

theorem claimed_follows {read : Rule ε} {name : ε → String} {position : ε → Cursor}
    {again : ε → Cursor → Problem} {accept : ε → Scan (Option μ)} {members : Members ε μ}
    {before : Answer} {middle : ε → Answer} {after : Members ε μ → Answer}
    (agrees : read.Agrees (fun stopped => scanner.problems.Perm stopped.problems) before middle
      scanner.lexer)
    (h : ∀ entry, (accept entry).Silent)
    (adds : ∀ entry scope new?, middle entry = after (members.add entry scope new?)) :
    (claimed read name position again accept members).Follows before after scanner :=
  asks_follows agrees fun entry _ _ => ((enter_silent (h entry)).follows _).bind
    fun admitted _ _ => pure_follows (congrFun (adds entry admitted.1 admitted.2) _)

/-- What becomes of the streams that may follow members. -/
def afterMembers (wrap : OpenBody → Reading) (rule : BlockRule ε μ) (members : Members ε μ) :
    Answer :=
  (wrap (Rule.between (rule.written members.entries))).on

/-- A rule for members follows the reader to where another member has been read. -/
def BlockRule.FollowsMembers (rule : BlockRule ε μ) (name : ε → String) (position : ε → Cursor) :
    Prop :=
  ∀ {wrap : OpenBody → Reading} {finish : Body → Token → Reading} (owner : Token)
    (declared : Option TypeId) (before : Scanner) (members : Members ε μ) (scanner : Scanner),
    Hosts OpenBody.step OpenBody.expectation wrap finish →
    (∀ body : OpenBody, (before.problems ++ (body.names owner).memberProblems).Perm
      (wrap body).problems) →
    ReportsMembers owner rule name position before members scanner →
    (∀ token ∈ scanner.lexer.upcoming.tokens.head?, ¬ token.kind = .braceClose) →
    (rule.member owner declared members).Follows (afterMembers wrap rule members)
      (afterMembers wrap rule) scanner

theorem enumRule_follows : enumRule.FollowsMembers Token.text Token.start := by
  intro wrap finish owner declared before members scanner h shows reports more
  exact claimed_follows (Rule.value_agrees h members.entries more (reports.problems.trans
    (shows (.enum members.entries)))) (fun _ => pure_reads rfl) fun _ _ _ => rfl

theorem unionRule_follows :
    unionRule.FollowsMembers (·.designation.canonical) (·.designation.position) := by
  intro wrap finish owner declared before members scanner h shows reports more
  exact claimed_follows (Rule.designation_agrees (Rule.hostsDesignation_option h members.entries)
    (fun modifiers => reports.problems.trans (shows (.union members.entries modifiers))) more)
    (fun _ => pure_reads rfl) fun _ _ _ => rfl

theorem structRule_follows : structRule.FollowsMembers (·.name.text) (·.name.start) := by
  intro wrap finish owner declared before members scanner h shows reports more
  refine claimed_follows (Rule.field_agrees h members.entries more fun pending =>
    reports.problems.trans (shows (.struct members.entries pending))) (fun field => ?_)
    fun _ _ _ => rfl
  exact (memberNode_silent _ owner declared field.name).bind fun _ => (queue_silent _).bind
    fun _ => pure_reads rfl

/-- The name of a property shows when it has been read, its parameters one by one. -/
theorem resolverRule_follows : resolverRule.FollowsMembers (·.name.text) (·.name.start) := by
  intro wrap finish owner declared before members scanner h shows reports more
  have hclaims : members.scope.Claims Token.text Token.start
      (members.entries.map Signature.name) :=
    NameScope.claims_map_iff.mpr reports.claims
  refine asks_follows (Rule.propertyName_agrees h members.entries more
    (reports.problems.trans ?_)) fun name read _ => ?_
  · have hshows := shows (.resolver members.entries none)
    rw [OpenBody.names, Option.map_none, Option.toList_none, List.append_nil] at hshows
    exact hshows
  refine Follows.bind ((enter_silent (memberNode_silent _ owner declared name)).follows _) ?_
  rintro ⟨scope, node⟩ entered hentered
  obtain ⟨-, hproblems⟩ := enter_records hclaims _ (memberNode_recordsNone _ owner declared name)
    _ _ hentered
  refine Follows.bind (signature_follows (Rule.hosts_property h members.entries) (fun _ _ => rfl)
    name (fun opened hname => ?_) node) fun property last _ => pure_follows rfl
  refine List.Perm.trans ?_ (shows (.resolver members.entries (some opened)))
  have hnames : opened.names = (name, opened.parameterNames) := by
    rw [OpenSignature.names, hname]
  rw [OpenBody.names, Option.map_some, Option.toList_some, hnames, hproblems]
  refine List.Perm.trans ?_ ((memberProblems_concat owner members.entries name
    opened.parameterNames).symm.append_left _)
  rw [← List.append_assoc, ← List.append_assoc]
  exact (reports.problems.append_right _).append_right _

section

variable {rule : BlockRule ε μ} {name : ε → String} {position : ε → Cursor}

theorem memberTurn_follows (follows : rule.FollowsMembers name position)
    {wrap : OpenBody → Reading} {finish : Body → Token → Reading}
    (h : Hosts OpenBody.step OpenBody.expectation wrap finish) {owner : Token} {before : Scanner}
    (shows : ∀ body : OpenBody, (before.problems ++ (body.names owner).memberProblems).Perm
      (wrap body).problems)
    (declared : Option TypeId) {members : Members ε μ}
    (reports : ReportsMembers owner rule name position before members scanner) :
    (memberTurn (rule.member owner declared) members).Follows (afterMembers wrap rule members)
      (Rule.turnAnswer (afterMembers wrap rule) (afterMembers wrap rule)) scanner := by
  have hshown : scanner.problems.Perm
      (wrap (Rule.between (rule.written members.entries))).problems := by
    refine reports.problems.trans (List.Perm.trans (List.Perm.of_eq ?_) (shows _))
    cases rule.written members.entries <;> simp [Rule.between, OpenBody.names, Body.names]
  refine asks_follows (Rule.peekIs_agrees _ hshown _) fun closed rest hpeek => ?_
  obtain ⟨rfl, hclosed⟩ := Rule.peekIs_ok hpeek
  cases closed with
  | true => exact pure_follows rfl
  | false =>
    have hmore : ∀ token ∈ scanner.lexer.upcoming.tokens.head?, ¬ token.kind = .braceClose := by
      simpa [Option.any_eq_false] using hclosed.symm
    exact (follows owner declared before members scanner h shows reports hmore).bind
      fun _ _ _ => pure_follows rfl

/-! ### Declarations -/

variable {wrap : OpenDeclaration → Reading} {finish : Declaration → Reading}
  (h : Hosts OpenDeclaration.step OpenDeclaration.expectation wrap fun declaration _ =>
    finish declaration)
include h

/-- Members in braces are followed from their opening brace to their closing one. -/
theorem braces_follows (follows : rule.FollowsMembers name position) (reads : rule.ReadsMembers)
    (records : rule.RecordsMembers name position) (keyword owner : Token)
    (shows : ∀ opened : OpenDeclaration, opened.names.typeName? = some owner →
      (scanner.problems ++ opened.names.memberProblems).Perm (wrap opened).problems)
    (declared : Option TypeId) :
    (braces rule owner declared).Follows (wrap (.blockBrace rule.kind keyword owner)).on
      (fun (opening, entries, closing) =>
        (finish (.block keyword owner opening (rule.written entries) closing)).on) scanner := by
  have hnamed (body : OpenBody) : (body.names owner).typeName? = some owner := by
    cases body <;> rfl
  have hempty : ((OpenBody.empty rule.kind).names owner).memberProblems = [] := by
    cases rule.kind <;> rfl
  have hbetween : OpenBody.empty rule.kind = Rule.between (rule.written []) := by
    rw [reads.1]
    cases rule.kind <;> rfl
  have hbrace : scanner.problems.Perm (wrap (.blockBrace rule.kind keyword owner)).problems := by
    have hshows := shows (.blockBrace rule.kind keyword owner) (hnamed _)
    rw [OpenDeclaration.names, hempty, List.append_nil] at hshows
    exact hshows
  refine asks_follows (Rule.braceOpen_agrees h rule.kind keyword owner hbrace _)
    fun opening opened _ => ?_
  rw [hbetween]
  have hbodies (body : OpenBody) : (scanner.problems ++ (body.names owner).memberProblems).Perm
      (wrap (.blockBody keyword owner opening body)).problems :=
    shows (.blockBody keyword owner opening body) (hnamed body)
  have hkeeps (members : Members ε μ) (now : Scanner)
      (hnow : ReportsMembers owner rule name position scanner members now) :
      (memberTurn (rule.member owner declared) members).Gives now
        (Turned (ReportsMembers owner rule name position scanner)
          (ReportsMembers owner rule name position scanner)) :=
    memberTurn_keeps (rule.member owner declared)
      (ReportsMembers owner rule name position scanner)
      (fun _ _ _ hnow => ⟨hnow.claims, hnow.problems⟩)
      (fun members now hnow => records.member owner declared scanner members now hnow) hnow
  have hloop : (loop (memberTurn (rule.member owner declared)) .none).Follows
      (afterMembers (fun body => wrap (.blockBody keyword owner opening body)) rule .none)
      (afterMembers (fun body => wrap (.blockBody keyword owner opening body)) rule)
      { scanner with lexer := opened } :=
    loop_follows (ReportsMembers owner rule name position scanner)
      (fun _ _ hnow => memberTurn_follows follows (Rule.hosts_members h keyword owner opening)
        hbodies declared hnow) hkeeps
      ⟨NameScope.claims_nil, by rw [Members.none, records.begins, List.append_nil]⟩
  refine hloop.bind fun members read hread => ?_
  -- the rule, too, has ended its loop, at a closing brace
  have hrule := (loop_reads (memberTurn_reads (reads.2 owner declared)) .none).of_ok hread
  obtain ⟨_, _, hlast⟩ := Rule.exists_last_turn Rule.memberTurn_ends hrule
  obtain ⟨rfl, hclosing⟩ := Rule.memberTurn_done hlast
  refine asks_follows (Rule.braceClose_agrees h keyword owner opening _ hclosing)
    fun closing rest _ => ?_
  exact ((checkSize_silent rule owner _).follows _).bind fun _ _ _ =>
    ((complete_silent declared _).follows _).bind fun _ _ _ => pure_follows rfl

end

section

variable {registry : Registry} {wrap : OpenDeclaration → Reading} {finish : Declaration → Reading}
  (shows : ∀ opened : OpenDeclaration, (scanner.problems ++ registry.nameProblems
    opened.names).Perm (wrap opened).problems)

include shows in
/-- As long as a declaration has introduced no names, the problems are those before it. -/
theorem unnamed_shown {opened : OpenDeclaration} (unnamed : opened.names = .nothing) :
    scanner.problems.Perm (wrap opened).problems := by
  have hshows := shows opened
  rw [unnamed] at hshows
  exact (List.Perm.of_eq (List.append_nil _).symm).trans hshows

variable (h : Hosts OpenDeclaration.step OpenDeclaration.expectation wrap fun declaration _ =>
    finish declaration)
  {reading : Reading} {token : Token} (seen : token ∈ scanner.lexer.upcoming.tokens.head?)
include shows h seen

/-- An alias introduces its name when it is complete, so all problems until then are older. -/
theorem typeAlias_follows (isKeyword : token.kind = .keyword .typeAlias)
    (opens : reading.step token = some (wrap (.aliasName token))) :
    typeAlias.Follows reading.on (fun declaration => (finish declaration).on) scanner := by
  have hkeyword : (Rule.expect (.keyword .typeAlias)).Agrees
      (fun stopped => scanner.problems.Perm stopped.problems) reading.on
      (fun keyword => (wrap (.aliasName keyword)).on) scanner.lexer :=
    Rule.expect_agrees seen isKeyword opens
  refine asks_follows hkeyword fun keyword _ _ => ?_
  refine asks_follows (Rule.aliasName_agrees h keyword (unnamed_shown shows rfl) _)
    fun name _ _ => ?_
  refine asks_follows (Rule.aliasEquals_agrees h keyword name (unnamed_shown shows rfl) _)
    fun equals _ _ => ?_
  refine asks_follows (Rule.aliasTarget_agrees h keyword name equals (unnamed_shown shows rfl) _)
    fun target _ _ => ?_
  exact ((declare_silent name _).follows _).bind fun _ _ _ => ((queue_silent _).follows _).bind
    fun _ _ _ => pure_follows rfl

/-- Any other declaration of a type introduces its name before its members. -/
theorem block_follows (stands : Stands registry scanner) {rule : BlockRule ε μ}
    {name : ε → String} {position : ε → Cursor} (follows : rule.FollowsMembers name position)
    (reads : rule.ReadsMembers) (records : rule.RecordsMembers name position)
    (isKeyword : token.kind = .keyword rule.kind.keyword)
    (opens : reading.step token = some (wrap (.blockName rule.kind token))) :
    (block rule).Follows reading.on (fun (_, declaration) => (finish declaration).on) scanner := by
  have hkeyword : (Rule.expect (.keyword rule.kind.keyword)).Agrees
      (fun stopped => scanner.problems.Perm stopped.problems) reading.on
      (fun keyword => (wrap (.blockName rule.kind keyword)).on) scanner.lexer :=
    Rule.expect_agrees seen isKeyword opens
  refine asks_follows hkeyword fun keyword _ _ => ?_
  refine asks_follows (Rule.blockName_agrees h rule.kind keyword (unnamed_shown shows rfl) _)
    fun owner rest _ => ?_
  refine Follows.bind ((declare_silent owner (rule.made [])).follows _)
    fun declared claimed hclaimed => ?_
  have hrecorded : claimed.problems = scanner.problems ++ (registry.typeRefusal? owner).toList :=
    declare_records (stands.read rest) owner _ _ _ hclaimed
  refine Follows.bind (braces_follows h follows reads records keyword owner
    (fun opened hname => ?_) declared) fun _ _ _ => pure_follows rfl
  have hrefusal : registry.refusal? opened.names = registry.typeRefusal? owner := by
    cases hnames : opened.names <;> rw [hnames] at hname <;> cases hname <;> rfl
  have hshows := shows opened
  rw [Registry.nameProblems, hrefusal, ← List.append_assoc, ← hrecorded] at hshows
  exact hshows

theorem plainBlock_follows (stands : Stands registry scanner) {rule : BlockRule ε μ}
    {name : ε → String} {position : ε → Cursor} (follows : rule.FollowsMembers name position)
    (reads : rule.ReadsMembers) (records : rule.RecordsMembers name position)
    (isKeyword : token.kind = .keyword rule.kind.keyword)
    (opens : reading.step token = some (wrap (.blockName rule.kind token))) :
    (plainBlock rule).Follows reading.on (fun declaration => (finish declaration).on) scanner :=
  (block_follows shows h seen stands follows reads records isKeyword opens).bind
    fun _ _ _ => pure_follows rfl

theorem union_follows (stands : Stands registry scanner)
    (isKeyword : token.kind = .keyword .union)
    (opens : reading.step token = some (wrap (.blockName .union token))) :
    union.Follows reading.on (fun declaration => (finish declaration).on) scanner :=
  (block_follows shows h seen stands unionRule_follows unionRule_reads unionRule_records isKeyword
    opens).bind fun _ _ _ => ((queue_silent _).follows _).bind fun _ _ _ => pure_follows rfl

/-- An endpoint introduces its name before its parameters. -/
theorem endpoint_follows (stands : Stands registry scanner) {kind : EndpointKind}
    (isKeyword : token.kind = .keyword kind.keyword)
    (opens : reading.step token = some (wrap (.endpointName kind token))) :
    (endpoint kind).Follows reading.on (fun declaration => (finish declaration).on) scanner := by
  have hkeyword : (Rule.expect (.keyword kind.keyword)).Agrees
      (fun stopped => scanner.problems.Perm stopped.problems) reading.on
      (fun keyword => (wrap (.endpointName kind keyword)).on) scanner.lexer :=
    Rule.expect_agrees seen isKeyword opens
  refine asks_follows hkeyword fun keyword _ _ => ?_
  refine asks_follows (Rule.endpointName_agrees h kind keyword (unnamed_shown shows rfl) _)
    fun name rest _ => ?_
  refine Follows.bind ((endpointNode_silent kind name).follows _) fun node claimed hclaimed => ?_
  have hrecorded : claimed.problems =
      scanner.problems ++ (registry.endpointRefusal? name).toList :=
    endpointNode_records (stands.read rest) kind name _ _ hclaimed
  refine Follows.bind (signature_follows (Rule.hosts_endpoint h kind keyword) (fun _ _ => rfl) name
    (fun opened hname => ?_) node) fun _ _ _ => pure_follows rfl
  have hshows := shows (.endpoint kind keyword opened)
  rw [OpenDeclaration.names, OpenSignature.names, hname, Registry.nameProblems,
    ← List.append_assoc] at hshows
  rw [hrecorded]
  exact hshows

end

/-! ### Documents -/

section

variable {header : Header} {declarations : List Declaration}

/-- A declaration after complete ones is followed, be it refused or not. -/
theorem declaration_follows (h : scanner.Tracks header declarations) {token : Token}
    (seen : token ∈ scanner.lexer.upcoming.tokens.head?) :
    (declaration token).Follows (Reading.body header declarations none).on
      (fun declaration => (Reading.body header (declarations ++ [declaration]) none).on)
      scanner := by
  have hosts := hosts_declaration header declarations
  have hopens {opened : OpenDeclaration} (hopened : OpenDeclaration.opened? token = some opened) :=
    Rule.step_opens header declarations hopened
  have hshows (opened : OpenDeclaration) : (scanner.problems ++
      (Registry.ofDeclarations declarations).nameProblems opened.names).Perm
        (Reading.body header declarations (some opened)).problems :=
    (h.problems.append_right _).trans
      (Registry.problems_pending header declarations opened).symm
  unfold declaration
  split
  case h_1 hkind =>
    exact typeAlias_follows hshows hosts seen hkind
      (hopens (by rw [OpenDeclaration.opened?, hkind]))
  case h_2 hkind =>
    exact plainBlock_follows hshows hosts seen h.stands enumRule_follows enumRule_reads
      enumRule_records hkind (hopens (by rw [OpenDeclaration.opened?, hkind]; rfl))
  case h_3 hkind =>
    exact union_follows hshows hosts seen h.stands hkind
      (hopens (by rw [OpenDeclaration.opened?, hkind]))
  case h_4 hkind =>
    exact plainBlock_follows hshows hosts seen h.stands structRule_follows structRule_reads
      structRule_records hkind (hopens (by rw [OpenDeclaration.opened?, hkind]; rfl))
  case h_5 hkind =>
    exact plainBlock_follows hshows hosts seen h.stands resolverRule_follows resolverRule_reads
      resolverRule_records hkind (hopens (by rw [OpenDeclaration.opened?, hkind]; rfl))
  case h_6 hkind =>
    exact endpoint_follows hshows hosts seen h.stands hkind
      (hopens (by rw [OpenDeclaration.opened?, hkind]))
  case h_7 hkind =>
    exact endpoint_follows hshows hosts seen h.stands hkind
      (hopens (by rw [OpenDeclaration.opened?, hkind]))
  case h_8 =>
    -- no declaration begins with such a token, for the reader neither
    have hnone : OpenDeclaration.opened? token = none := by
      unfold OpenDeclaration.opened?
      split <;> simp_all
    intro outcome after hresult
    cases hresult
    dsimp only
    rw [Rule.on_of_not_opened header declarations seen hnone]
    exact h.problems

theorem documentTurn_follows (h : scanner.Tracks header declarations) :
    (documentTurn declarations).Follows (Rule.afterDeclarations header declarations)
      (Rule.turnAnswer (Rule.afterDeclarations header) (Rule.afterDeclarations header))
      scanner := by
  refine asks_follows (Rule.peek_agrees header declarations h.problems _)
    fun token? rest hpeek => ?_
  cases token? with
  | none => exact pure_follows rfl
  | some token =>
    obtain ⟨rfl, hseen⟩ := Rule.peek_ok hpeek
    exact (declaration_follows h hseen).bind fun _ _ _ => pure_follows rfl

end

theorem document_follows (lexer : Lexer) : document.Follows Reading.start.on
    (fun document => (Reading.body document.header document.declarations none).on)
    (Scanner.start lexer) := by
  refine asks_follows (Rule.header_agrees (.refl _) (fun _ => .refl _) _)
    fun header opened _ => ?_
  have hloop : (loop documentTurn []).Follows (Rule.afterDeclarations header [])
      (Rule.afterDeclarations header) { Scanner.start lexer with lexer := opened } :=
    loop_follows (fun declarations now => now.Tracks header declarations)
      (fun _ _ hnow => documentTurn_follows hnow) (fun _ _ hnow => documentTurn_tracks hnow)
      ((Scanner.tracks_start lexer header).read opened)
  exact hloop.bind fun _ _ _ => pure_follows rfl

/-- A scan comes to an end, finds what is read, and has recorded by then the problems that show in
what was read. -/
theorem document_finds (lexer : Lexer) : ∃ outcome after,
    document (Scanner.start lexer) = some (outcome, after) ∧
      Rule.Finds outcome (Reading.ofStream lexer.upcoming) ∧
      after.problems.Perm (Reading.ofStream lexer.upcoming).1.problems := by
  obtain ⟨outcome, rest, -, hrule, -, -⟩ := Rule.document_ends lexer
  have hfinds := Rule.document_finds hrule
  cases outcome with
  | ok found =>
    obtain ⟨after, hscan, -, htracks⟩ := document_agrees hrule
    refine ⟨.ok found, after, hscan, hfinds, ?_⟩
    rw [Rule.ofStream_of_document hrule]
    exact htracks.problems
  | error problem =>
    have hreads := document_reads (Scanner.start lexer)
    rw [show (Scanner.start lexer).lexer = lexer from rfl, hrule] at hreads
    obtain ⟨⟨found, after⟩, hscan, hsame⟩ := Option.map_eq_some_iff.mp hreads
    cases found with
    | ok found => cases hsame
    | error other =>
      cases hsame
      exact ⟨_, after, hscan, hfinds, document_follows lexer _ _ hscan⟩

end Scan

/-- What is wrong with a source text when a scan has come to an end: what it has recorded, and
besides what stopped it or what the document is checked for as a whole. -/
def Scanner.allProblems (scanner : Scanner) : Except Problem Document → List Problem
  | .ok document => scanner.problems ++ Schema.problemsOf document
  | .error problem => scanner.problems ++ [problem]

namespace Schema

theorem problems_scanned {read : Reading × Option Problem} {scanner : Scanner}
    {outcome : Except Problem Document} (finds : Rule.Finds outcome read)
    (recorded : scanner.problems.Perm read.1.problems) :
    (scanner.allProblems outcome).Perm (problems read) := by
  obtain ⟨reading, fatal⟩ := read
  cases outcome with
  | ok document =>
    obtain ⟨rfl, rfl⟩ : reading = .body document.header document.declarations none ∧
      fatal = none := Prod.mk.inj finds
    exact recorded.append_right _
  | error problem =>
    obtain rfl : fatal = some problem := finds
    exact recorded.append_right _

/-- The diagnostics of a source text are those of a scan, in order. -/
theorem check_scanned (file : Path) (source : String) : ∃ outcome after,
    Scan.document (Scanner.start (.ofSource file source)) = some (outcome, after) ∧
      (check file source).diagnostics = Diagnostic.ofProblems (after.allProblems outcome) := by
  obtain ⟨outcome, after, hscan, hfinds, hrecorded⟩ :=
    Scan.document_finds (.ofSource file source)
  refine ⟨outcome, after, hscan, ?_⟩
  have hsame : (after.allProblems outcome).Perm
      (problems (Reading.ofStream (stream file source))) :=
    problems_scanned hfinds hrecorded
  rw [check, diagnostics_outcome]
  exact ((separate_recorded file source).sorted_eq (hsame.map _)).symm

end Schema

end GraphSchema
