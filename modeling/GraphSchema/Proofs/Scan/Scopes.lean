import GraphSchema.Proofs.Descent.Ending
import GraphSchema.Proofs.Lookup
import GraphSchema.Proofs.Scan.Leading

/-!
# Scopes

A scope holds each name with the place where it was used first (`NameScope.Claims`), so a name is
claimed in it if and only if it is the first of its kind, and of the others the prior place is that
of the first one.  What an attempt to claim a name leads to follows for all rules alike
(`Scan.enter_leads`, `Scan.claimed_leads`).
-/

namespace GraphSchema

variable {ε μ : Type} {name : ε → String} {position : ε → Cursor}

/-- A scope holds the names of entries, each with the place of the first entry that has it. -/
def NameScope.Claims (scope : NameScope) (name : ε → String) (position : ε → Cursor)
    (entries : List ε) : Prop :=
  ∀ sought, scope.lookup sought = (entries.find? fun entry => name entry = sought).map position

/-- A name that is found was used before. -/
theorem mem_map_of_find? {entries : List ε} {entry first : ε}
    (found : (entries.find? fun earlier => name earlier = name entry) = some first) :
    name entry ∈ entries.map name :=
  List.mem_map.mpr ⟨first, List.mem_of_find?_eq_some found, by simpa using List.find?_some found⟩

/-- An entry whose name was used before is not the first of its name. -/
theorem firsts_concat_of_find? {entries : List ε} {entry first : ε}
    (found : (entries.find? fun earlier => name earlier = name entry) = some first) :
    firsts name (entries ++ [entry]) = firsts name entries := by
  rw [firsts_concat, if_pos (mem_map_of_find? found), List.append_nil]

namespace NameScope

theorem claims_nil : Claims [] name position [] :=
  fun _ => rfl

variable {scope : NameScope} {entries : List ε}

/-- Names are claimed as those of what they are names of. -/
theorem claims_map_iff {δ : Type} {others : List δ} {entry : δ → ε} :
    scope.Claims name position (others.map entry) ↔
      scope.Claims (fun other => name (entry other)) (fun other => position (entry other))
        others := by
  have hfind (sought : String) :
      ((others.map entry).find? fun entry => name entry = sought).map position =
        (others.find? fun other => name (entry other) = sought).map
          fun other => position (entry other) := by
    rw [List.find?_map, Option.map_map]
    rfl
  exact forall_congr' fun sought => by rw [hfind]

theorem Claims.lookup_eq_none_iff (h : scope.Claims name position entries) {sought : String} :
    scope.lookup sought = none ↔ sought ∉ entries.map name := by
  rw [h, Option.map_eq_none_iff, List.find?_eq_none]
  simp

/-- A name that is used again changes nothing. -/
theorem Claims.again (h : scope.Claims name position entries) {entry first : ε}
    (found : (entries.find? fun earlier => name earlier = name entry) = some first) :
    scope.Claims name position (entries ++ [entry]) := by
  intro sought
  rw [h, List.find?_append]
  by_cases hsought : name entry = sought
  · rw [← hsought, found, Option.some_or]
  · rw [List.find?_singleton, decide_eq_false hsought]
    simp

/-- A new name is claimed at its place. -/
theorem Claims.new (h : scope.Claims name position entries) {entry : ε}
    (new : scope.lookup (name entry) = none) :
    Claims (scope ++ [(name entry, position entry)]) name position (entries ++ [entry]) := by
  intro sought
  rw [List.lookup_append, h, List.find?_append]
  by_cases hsought : name entry = sought
  · rw [h, Option.map_eq_none_iff, hsought] at new
    simp [new, hsought]
  · have hne : (sought == name entry) = false := beq_false_of_ne (Ne.symm hsought)
    simp [List.lookup_cons, hne, hsought]

end NameScope

namespace Rule

/-- What is taken is what the step makes of a token. -/
theorem exists_of_take {expectation : Expectation}
    {α : Type} {step : Token → Option α} {lexer rest : Lexer} {value : α}
    (h : take expectation step lexer = some (.ok value, rest)) :
    ∃ token, step token = some value := by
  obtain ⟨_, _, hsome, htakes⟩ := exists_take expectation step lexer
  cases hsome.symm.trans h
  cases htakes with
  | taken _ takes => exact ⟨_, takes⟩

theorem separated_cases {entries : List (TypedName × Token)}
    {parameter : TypedName} {token : Token}
    {progress : Progress (List (TypedName × Token)) (List (TypedName × Token))}
    (h : separated entries parameter token = some progress) :
    progress = .more (entries ++ [(parameter, token)]) ∨
      progress = .done (entries ++ [(parameter, token)]) := by
  unfold separated at h
  split at h
  · exact .inl (Option.some.inj h).symm
  · exact .inr (Option.some.inj h).symm
  · cases h

end Rule

namespace Scan

variable {before : Scanner} {failed : Problem → Scanner → Prop}

theorem enter_leads {scope : NameScope} {entries : List ε}
    (claims : scope.Claims name position entries) {entry : ε} {again : Cursor → Problem}
    {accept : Scan (Option μ)} {done : NameScope × Option μ → Scanner → Prop}
    (new : name entry ∉ entries.map name → accept.Leads before
      (fun new? => done (scope ++ [(name entry, position entry)], new?)) failed)
    (repeated : ∀ first, (entries.find? fun earlier => name earlier = name entry) = some first →
      done (scope, none)
        { before with problems := before.problems ++ [again (position first)] }) :
    (enter scope (name entry) (position entry) again accept).Leads before done failed := by
  rw [enter_apply]
  cases hlookup : scope.lookup (name entry) with
  | none =>
    exact (new (claims.lookup_eq_none_iff.mp hlookup)).bind fun _ _ hdone => leads_pure hdone
  | some prior =>
    rw [claims] at hlookup
    obtain ⟨first, hfirst, rfl⟩ := Option.map_eq_some_iff.mp hlookup
    exact leads_of_eq rfl (repeated first hfirst)

theorem claimed_leads {members : Members ε μ}
    (claims : members.scope.Claims name position members.entries) {read : Rule ε}
    {again : ε → Cursor → Problem} {accept : ε → Scan (Option μ)}
    {done : Members ε μ → Scanner → Prop}
    (new : ∀ entry rest, name entry ∉ members.entries.map name →
      (accept entry).Leads { before with lexer := rest }
        (fun new? => done
          (members.add entry (members.scope ++ [(name entry, position entry)]) new?)) failed)
    (repeated : ∀ entry rest first,
      (members.entries.find? fun earlier => name earlier = name entry) = some first →
      done (members.add entry members.scope none)
        { before with
          lexer := rest
          problems := before.problems ++ [again entry (position first)] })
    (unread : ∀ problem rest, read before.lexer = some (.error problem, rest) →
      failed problem { before with lexer := rest }) :
    (claimed read name position again accept members).Leads before done failed := by
  refine leads_asks_bind (fun entry rest _ => ?_) unread
  have hadmit : (enter members.scope (name entry) (position entry) (again entry)
      (accept entry)).Leads { before with lexer := rest }
      (fun admitted => done (members.add entry admitted.1 admitted.2)) failed :=
    enter_leads claims (new entry rest) (repeated entry rest)
  exact hadmit.bind fun _ _ hdone => leads_pure hdone

/-! ### Loops -/

section

variable {target : Option NodeId} {nodeName : String}
  (Invariant : NameScope → List TypedName → Scanner → Prop)

/-- What a parameter keeps is kept whatever follows it. -/
theorem parameterTurn_keeps
    (reads : ∀ scope parameters scanner rest, Invariant scope parameters scanner →
      Invariant scope parameters { scanner with lexer := rest })
    (admits : ∀ scope parameters parameter scanner, Invariant scope parameters scanner →
      (enter scope parameter.name.text parameter.name.start
        (.parameterRedeclared nodeName parameter.name.text parameter.name.start)
        (parameterOf target parameter)).Gives scanner fun admitted =>
          Invariant admitted.1 (parameters ++ [parameter]))
    {state : NameScope × List (TypedName × Token)}
    (keeps : Invariant state.1 (state.2.map Prod.fst) before) :
    (parameterTurn target nodeName state).Gives before
      (Turned (fun next => Invariant next.1 (next.2.map Prod.fst))
        fun entries after => ∃ scope, Invariant scope (entries.map Prod.fst) after) := by
  refine gives_asks_bind fun parameter asked => ?_
  refine Leads.bind (admits _ _ parameter _ (reads _ _ _ asked keeps)) ?_
  rintro ⟨scope, admitted?⟩ admitted hadmitted
  refine leads_asks_bind (fun progress rest htake => leads_pure ?_) fun _ _ _ => trivial
  obtain ⟨token, hprogress⟩ := Rule.exists_of_take htake
  have hentries : (state.2 ++ [(parameter, token)]).map Prod.fst =
      state.2.map Prod.fst ++ [parameter] := List.map_append
  have hafter := reads _ _ _ rest hadmitted
  rw [← hentries] at hafter
  rcases Rule.separated_cases hprogress with rfl | rfl
  · exact hafter
  · exact ⟨scope, hafter⟩

/-- What the parameters of a list keep, one by one, holds when the list has been read. -/
theorem parameterList_keeps
    (reads : ∀ scope parameters scanner rest, Invariant scope parameters scanner →
      Invariant scope parameters { scanner with lexer := rest })
    (admits : ∀ scope parameters parameter scanner, Invariant scope parameters scanner →
      (enter scope parameter.name.text parameter.name.start
        (.parameterRedeclared nodeName parameter.name.text parameter.name.start)
        (parameterOf target parameter)).Gives scanner fun admitted =>
          Invariant admitted.1 (parameters ++ [parameter]))
    (begins : Invariant [] [] before) :
    (parameterList target nodeName).Gives before fun listing after => ∃ scope,
      Invariant scope (listing.entries.map Prod.fst) after := by
  refine gives_asks_bind fun opening opened => ?_
  have hloop : (loop (parameterTurn target nodeName) ([], [])).Gives
      { before with lexer := opened } fun entries after => ∃ scope,
        Invariant scope (entries.map Prod.fst) after :=
    leads_loop (fun state => Invariant state.1 (state.2.map Prod.fst))
      (fun _ _ hstate => parameterTurn_keeps Invariant reads admits hstate)
      (reads _ _ _ opened begins)
  exact hloop.bind fun _ _ hafter => leads_pure hafter

end

section

variable (member : Members ε μ → Scan (Members ε μ)) (Invariant : Members ε μ → Scanner → Prop)
  (reads : ∀ members scanner rest, Invariant members scanner →
    Invariant members { scanner with lexer := rest })
  (keeps : ∀ members scanner, Invariant members scanner →
    (member members).Gives scanner Invariant)
include reads keeps

/-- What a member keeps is kept by a turn, which may look at the closing brace. -/
theorem memberTurn_keeps {members : Members ε μ} (begins : Invariant members before) :
    (memberTurn member members).Gives before (Turned Invariant Invariant) := by
  refine gives_asks_bind fun closed rest => ?_
  have hasked := reads members before rest begins
  cases closed with
  | true => exact leads_pure hasked
  | false => exact (keeps members _ hasked).bind fun _ _ hnext => leads_pure hnext

/-- What the members in braces keep, one by one, holds when all of them have been read. -/
theorem members_keep (begins : Invariant .none before) :
    (loop (memberTurn member) .none).Gives before Invariant :=
  leads_loop Invariant
    (fun _ _ hmembers => memberTurn_keeps member Invariant reads keeps hmembers) begins

end

end Scan

end GraphSchema
