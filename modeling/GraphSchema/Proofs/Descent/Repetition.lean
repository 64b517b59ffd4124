import GraphSchema.Document.Reading
import Mathlib.Data.PFun

/-!
# Repetition without a bound

Steps are taken until one of them gives a value (`repeated`).  Nothing bounds their number, and if
none of them gives a value, there is none.
-/

namespace GraphSchema

variable {σ β : Type}

/-- A step as a partial function: it gives a value or comes to another state. -/
def stepping (step : σ → Option (Progress σ β)) : σ →. β ⊕ σ :=
  fun state => Part.ofOption <| (step state).map fun
    | .more next => .inr next
    | .done value => .inl value

theorem inl_mem_stepping_iff {step : σ → Option (Progress σ β)} {state : σ} {value : β} :
    .inl value ∈ stepping step state ↔ step state = some (.done value) := by
  rw [stepping, Part.mem_ofOption, Option.mem_def]
  rcases step state with _ | _ | _ <;> simp

theorem inr_mem_stepping_iff {step : σ → Option (Progress σ β)} {state next : σ} :
    .inr next ∈ stepping step state ↔ step state = some (.more next) := by
  rw [stepping, Part.mem_ofOption, Option.mem_def]
  rcases step state with _ | _ | _ <;> simp

open Classical in
/-- Takes steps until one of them gives a value. -/
noncomputable def repeated (step : σ → Option (Progress σ β)) (state : σ) : Option β :=
  (PFun.fix (stepping step) state).toOption

theorem repeated_eq_some_iff {step : σ → Option (Progress σ β)} {state : σ} {value : β} :
    repeated step state = some value ↔ value ∈ PFun.fix (stepping step) state := by
  classical
  exact Part.mem_toOption

/-- A step is taken, and if it does not give a value, the steps after it are. -/
theorem repeated_eq (step : σ → Option (Progress σ β)) (state : σ) :
    repeated step state = match step state with
      | none => none
      | some (.more next) => repeated step next
      | some (.done value) => some value := by
  ext value
  rw [repeated_eq_some_iff, PFun.mem_fix_iff, inl_mem_stepping_iff]
  simp only [inr_mem_stepping_iff, ← repeated_eq_some_iff]
  rcases step state with _ | _ | _ <;> simp

/-- What holds of a state if it holds after its step holds where the steps come to an end. -/
theorem repeated_induction {step : σ → Option (Progress σ β)} {value : β} {motive : σ → Prop}
    (turns : ∀ state, repeated step state = some value →
      (∀ next, step state = some (.more next) → motive next) → motive state)
    {state : σ} (h : repeated step state = some value) : motive state :=
  PFun.fixInduction (repeated_eq_some_iff.mp h) fun state hvalue hnext =>
    turns state (repeated_eq_some_iff.mpr hvalue) fun next hmore =>
      hnext next (inr_mem_stepping_iff.mpr hmore)

/-- Two programs whose steps correspond correspond as a whole. -/
theorem repeated_map {τ γ : Type} {step : σ → Option (Progress σ β)}
    {other : τ → Option (Progress τ γ)} (view : σ → τ) {result : β → γ}
    (steps : ∀ state, other (view state) = (step state).map (Progress.map view result))
    (state : σ) : repeated other (view state) = (repeated step state).map result := by
  ext value
  rw [Option.map_eq_some_iff]
  constructor
  · intro h
    refine repeated_induction (motive := fun viewed => ∀ state, view state = viewed →
      ∃ final, repeated step state = some final ∧ result final = value) ?_ h state rfl
    rintro _ hviewed ih state rfl
    rw [repeated_eq, steps] at hviewed
    rw [repeated_eq]
    match hstep : step state with
    | none =>
      rw [hstep] at hviewed
      cases hviewed
    | some (.done final) =>
      rw [hstep] at hviewed
      exact ⟨final, rfl, Option.some.inj hviewed⟩
    | some (.more next) =>
      exact ih (view next) (by rw [steps, hstep]; rfl) next rfl
  · rintro ⟨final, hfinal, rfl⟩
    refine repeated_induction (motive := fun state =>
      repeated other (view state) = some (result final)) ?_ hfinal
    intro state hstate ih
    rw [repeated_eq] at hstate
    rw [repeated_eq, steps]
    match hstep : step state with
    | none =>
      rw [hstep] at hstate
      cases hstate
    | some (.done value) =>
      rw [hstep] at hstate
      obtain rfl := Option.some.inj hstate
      rfl
    | some (.more next) => exact ih next hstep

end GraphSchema
