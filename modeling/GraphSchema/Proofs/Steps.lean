import Mathlib.Data.List.Cycle
import Mathlib.Logic.Relation

/-!
# Steps of a relation

A relation whose steps begin at finitely many places reaches whatever it reaches in fewer steps than
there are places (`exists_steps_lt`).  So a function that follows the relation needs no more steps
than that to arrive where the relation ends (`Follows.eq_some_iff`).  Whoever goes on and on comes
to a place without a step or to one that leads back to itself (`exists_stop_or_cycle`).  A row of
steps that is a cycle has no last place (`exists_next_of_chain`).

What one relation reaches is reached by another one that simulates it
(`reflTransGen_of_simulation`, `transGen_of_simulation`).
-/

namespace GraphSchema

open Relation

section

variable {α β : Type} {r : α → α → Prop} {s : β → β → Prop}

/-- A number of steps of a relation. -/
def Steps (r : α → α → Prop) : Nat → α → α → Prop
  | 0, a, b => a = b
  | n + 1, a, c => ∃ b, r a b ∧ Steps r n b c

theorem Steps.reflTransGen {n : Nat} {a b : α} (h : Steps r n a b) : ReflTransGen r a b := by
  induction n generalizing a with
  | zero =>
    obtain rfl := h
    exact .refl
  | succ n ih =>
    obtain ⟨c, hstep, hrest⟩ := h
    exact .head hstep (ih hrest)

theorem Steps.imp {other : α → α → Prop} (himp : ∀ a b, r a b → other a b) {n : Nat} {a b : α}
    (h : Steps r n a b) : Steps other n a b := by
  induction n generalizing a with
  | zero => exact h
  | succ n ih =>
    obtain ⟨c, hstep, hrest⟩ := h
    exact ⟨c, himp a c hstep, ih hrest⟩

/-- Whatever else is reached is reached from the last visit to the beginning without coming back. -/
theorem exists_leaving {a b : α} (h : ReflTransGen r a b) (hne : b ≠ a) :
    ∃ c, r a c ∧ c ≠ a ∧ ReflTransGen (fun x y => r x y ∧ x ≠ a ∧ y ≠ a) c b := by
  induction h with
  | refl => exact absurd rfl hne
  | @tail b c _ hstep ih =>
    by_cases hback : b = a
    · -- the way comes back here, so it starts anew
      subst hback
      exact ⟨c, hstep, hne, .refl⟩
    · obtain ⟨first, hfirst, hleft, hrest⟩ := ih hback
      exact ⟨first, hfirst, hleft, hrest.tail ⟨hstep, hback, hne⟩⟩

/-- If the steps begin at some places only and end at one of them, fewer steps than places are
enough. -/
theorem exists_steps_lt [DecidableEq α] {places : List α} (sources : ∀ a b, r a b → a ∈ places)
    {a b : α} (hb : b ∈ places) (h : ReflTransGen r a b) :
    ∃ n < places.length, Steps r n a b := by
  -- every step leaves a place that is not needed any more
  induction hlength : places.length using Nat.strongRecOn generalizing r places a with
  | _ length ih =>
    by_cases hne : b = a
    · refine ⟨0, ?_, hne.symm⟩
      rw [← hlength]
      exact List.length_pos_of_mem hb
    · obtain ⟨c, hstep, -, hrest⟩ := exists_leaving h hne
      have hfewer : (places.filter fun place => place ≠ a).length < places.length := by
        refine List.length_filter_lt_length_iff_exists.mpr ⟨a, sources a c hstep, ?_⟩
        simp
      have hsources : ∀ x y, r x y ∧ x ≠ a ∧ y ≠ a → x ∈ places.filter fun place => place ≠ a := by
        intro x y hxy
        exact List.mem_filter.mpr ⟨sources x y hxy.1, by simpa using hxy.2.1⟩
      have hend : b ∈ places.filter fun place => place ≠ a :=
        List.mem_filter.mpr ⟨hb, by simpa using hne⟩
      obtain ⟨n, hn, hsteps⟩ := ih _ (by rw [← hlength]; exact hfewer) hsources hend hrest rfl
      refine ⟨n + 1, by omega, c, hstep, hsteps.imp fun x y hxy => hxy.1⟩

/-- If the steps begin at some places only, the way from anywhere comes to a place without a step or
to one that leads back to itself. -/
theorem exists_stop_or_cycle [DecidableEq α] {places : List α}
    (sources : ∀ a b, r a b → a ∈ places) (a : α) :
    (∃ b, ReflTransGen r a b ∧ ∀ c, ¬ r b c) ∨ ∃ b, ReflTransGen r a b ∧ TransGen r b b := by
  induction hlength : places.length using Nat.strongRecOn generalizing r places a with
  | _ length ih =>
    by_cases hmore : ∃ c, r a c
    case neg => exact .inl ⟨a, .refl, not_exists.mp hmore⟩
    case pos =>
      obtain ⟨c, hstep⟩ := hmore
      by_cases hback : ReflTransGen r c a
      · exact .inr ⟨a, .refl, TransGen.head'_iff.mpr ⟨c, hstep, hback⟩⟩
      · -- the way never comes back here, so the steps from here are not needed any more
        have hfewer : (places.filter fun place => place ≠ a).length < places.length := by
          refine List.length_filter_lt_length_iff_exists.mpr ⟨a, sources a c hstep, ?_⟩
          simp
        have hsources : ∀ x y, r x y ∧ x ≠ a → x ∈ places.filter fun place => place ≠ a := by
          intro x y hxy
          exact List.mem_filter.mpr ⟨sources x y hxy.1, by simpa using hxy.2⟩
        have hreaches {x y : α} (h : ReflTransGen (fun x y => r x y ∧ x ≠ a) x y) :
            ReflTransGen r x y := ReflTransGen.mono (fun _ _ hxy => hxy.1) _ _ h
        rcases ih _ (by rw [← hlength]; exact hfewer) hsources c rfl with
          ⟨b, hb, hlast⟩ | ⟨b, hb, hcycle⟩
        · refine .inl ⟨b, .head hstep (hreaches hb), fun next hnext => hlast next ⟨hnext, ?_⟩⟩
          rintro rfl
          exact hback (hreaches hb)
        · exact .inr ⟨b, .head hstep (hreaches hb), TransGen.mono (fun _ _ hxy => hxy.1) _ _ hcycle⟩

/-- A function follows the steps of a relation to where they stop. -/
structure Follows (r : α → α → Prop) (stops : α → Prop) (follow : Nat → α → Option α) : Prop where
  begins : ∀ a, follow 0 a = none
  stays : ∀ n a, stops a → follow (n + 1) a = some a
  steps : ∀ n a b, r a b → follow (n + 1) a = follow n b
  only : ∀ n a c, follow (n + 1) a = some c → stops a ∧ a = c ∨ ∃ b, r a b ∧ follow n b = some c

theorem Follows.of_steps {stops : α → Prop} {follow : Nat → α → Option α}
    (h : Follows r stops follow) {n fuel : Nat} (hfuel : n < fuel) {a b : α}
    (hsteps : Steps r n a b) (hb : stops b) : follow fuel a = some b := by
  induction n generalizing fuel a with
  | zero =>
    obtain rfl := hsteps
    obtain ⟨fuel, rfl⟩ := Nat.exists_eq_add_one_of_ne_zero (Nat.ne_of_gt hfuel)
    exact h.stays fuel a hb
  | succ n ih =>
    obtain ⟨c, hstep, hrest⟩ := hsteps
    obtain ⟨fuel, rfl⟩ := Nat.exists_eq_add_one_of_ne_zero (Nat.ne_of_gt (Nat.zero_lt_of_lt hfuel))
    rw [h.steps fuel a c hstep]
    exact ih (Nat.lt_of_succ_lt_succ hfuel) hrest

theorem Follows.reaches {stops : α → Prop} {follow : Nat → α → Option α}
    (h : Follows r stops follow) {fuel : Nat} {a b : α} (hb : follow fuel a = some b) :
    ReflTransGen r a b ∧ stops b := by
  induction fuel generalizing a with
  | zero =>
    rw [h.begins a] at hb
    cases hb
  | succ fuel ih =>
    rcases h.only fuel a b hb with ⟨hstops, rfl⟩ | ⟨c, hstep, hrest⟩
    · exact ⟨.refl, hstops⟩
    · obtain ⟨hreaches, hstops⟩ := ih hrest
      exact ⟨.head hstep hreaches, hstops⟩

/-- As many steps as there are places are enough to find where the steps stop. -/
theorem Follows.eq_some_iff [DecidableEq α] {stops : α → Prop} {follow : Nat → α → Option α}
    (h : Follows r stops follow) {places : List α} (sources : ∀ a b, r a b → a ∈ places)
    (ends : ∀ a, stops a → a ∈ places) {fuel : Nat} (hfuel : places.length ≤ fuel) {a b : α} :
    follow fuel a = some b ↔ ReflTransGen r a b ∧ stops b := by
  refine ⟨h.reaches, ?_⟩
  rintro ⟨hreaches, hstops⟩
  obtain ⟨n, hn, hsteps⟩ := exists_steps_lt sources (ends b hstops) hreaches
  exact h.of_steps (Nat.lt_of_lt_of_le hn hfuel) hsteps hstops

/-- If a relation has one step at most from each place, whoever is reached from a cycle leads
back. -/
theorem transGen_of_cycle (single : ∀ a b c, r a b → r a c → b = c) {a b : α}
    (hcycle : TransGen r a a) (h : ReflTransGen r a b) : TransGen r b a := by
  induction h with
  | refl => exact hcycle
  | @tail b c _ hstep ih =>
    -- the way back begins with the only step there is
    obtain ⟨next, hnext, hrest⟩ := TransGen.head'_iff.mp ih
    obtain rfl := single b next c hnext hstep
    rcases reflTransGen_iff_eq_or_transGen.mp hrest with rfl | hrest
    · exact hcycle
    · exact hrest

/-- If a relation has one step at most from each place and stops somewhere, whatever else is met is
on the way there. -/
theorem reaches_of_stop (single : ∀ a b c, r a b → r a c → b = c) {a b c : α}
    (stop : ∀ next, ¬ r b next) (hb : ReflTransGen r a b) (hc : ReflTransGen r a c) :
    ReflTransGen r c b := by
  rcases ReflTransGen.total_of_right_unique (fun a b c => single a b c) hb hc with hback | hon
  · rcases ReflTransGen.cases_head hback with rfl | ⟨next, hstep, -⟩
    · exact .refl
    · exact absurd hstep (stop next)
  · exact hon

/-- On the way to where such a relation stops there is no cycle. -/
theorem not_cycle_of_stop (single : ∀ a b c, r a b → r a c → b = c) {a b c : α}
    (stop : ∀ next, ¬ r b next) (hb : ReflTransGen r a b) (hc : ReflTransGen r a c) :
    ¬ TransGen r c c := by
  intro hcycle
  have hback := transGen_of_cycle single hcycle (reaches_of_stop single stop hb hc)
  obtain ⟨next, hstep, -⟩ := TransGen.head'_iff.mp hback
  exact stop next hstep

/-! ### Cycles -/

/-- On a cycle every entry is followed by one of the cycle. -/
theorem exists_next_of_chain {row : List α} (h : Cycle.Chain r row) {entry : α}
    (mem : entry ∈ row) : ∃ next ∈ row, r entry next := by
  obtain ⟨before, after, rfl⟩ := List.append_of_mem mem
  -- turned, the row begins with the entry
  have hrotated : ((before ++ entry :: after : List α) : Cycle α) =
      ((entry :: (after ++ before) : List α) : Cycle α) :=
    Cycle.coe_eq_coe.mpr List.isRotated_append
  rw [hrotated, Cycle.chain_coe_cons] at h
  cases hrest : after ++ before ++ [entry] with
  | nil => simp at hrest
  | cons next rest =>
    rw [hrest] at h
    refine ⟨next, ?_, (List.isChain_cons_cons.mp h).1⟩
    have hmem : next ∈ after ++ before ++ [entry] := by
      rw [hrest]
      exact List.mem_cons_self ..
    simpa [or_comm, or_assoc, or_left_comm] using hmem

/-! ### Simulations -/

/-- What is reached is reached by a relation that simulates each step by any number of steps. -/
theorem reflTransGen_of_simulation {Match : α → β → Prop}
    (simulates : ∀ a b, Match a b → ∀ c, r a c → ∃ d, Match c d ∧ ReflTransGen s b d) {a c : α}
    (h : ReflTransGen r a c) {b : β} (hmatch : Match a b) :
    ∃ d, Match c d ∧ ReflTransGen s b d := by
  induction h with
  | refl => exact ⟨b, hmatch, .refl⟩
  | tail _ hstep ih =>
    obtain ⟨middle, hmiddle, hreaches⟩ := ih
    obtain ⟨last, hlast, hmore⟩ := simulates _ _ hmiddle _ hstep
    exact ⟨last, hlast, hreaches.trans hmore⟩

/-- What is reached by one step or more is reached so by a relation that simulates each step. -/
theorem transGen_of_simulation {Match : α → β → Prop}
    (simulates : ∀ a b, Match a b → ∀ c, r a c → ∃ d, Match c d ∧ s b d) {a c : α}
    (h : TransGen r a c) {b : β} (hmatch : Match a b) : ∃ d, Match c d ∧ TransGen s b d := by
  induction h with
  | single hstep =>
    obtain ⟨last, hlast, hmore⟩ := simulates _ _ hmatch _ hstep
    exact ⟨last, hlast, .single hmore⟩
  | tail _ hstep ih =>
    obtain ⟨middle, hmiddle, hreaches⟩ := ih
    obtain ⟨last, hlast, hmore⟩ := simulates _ _ hmiddle _ hstep
    exact ⟨last, hlast, hreaches.tail hmore⟩

end

end GraphSchema
