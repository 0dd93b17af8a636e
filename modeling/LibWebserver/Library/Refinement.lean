import Mathlib.Logic.Basic

/-! Refinement of a total machine by a partial one. Every run of the concrete
machine is compared, state by state, with the abstract run of the same operations. -/

namespace LibWebserver.Refinement

universe u v w

variable {σ : Type u} {τ : Type v} {ο : Type w}

/-- Every step of a run meets a condition on the state before it. The run ends at a
step that is undefined. -/
def Along (step : σ → ο → Option σ) (condition : σ → ο → Prop) (state : σ) : List ο → Prop
  | [] => True
  | operation :: operations => condition state operation ∧
    ∀ after ∈ step state operation, Along step condition after operations

instance decidableAlong {step : σ → ο → Option σ} {condition : σ → ο → Prop}
    [∀ state operation, Decidable (condition state operation)] :
    ∀ (state : σ) (operations : List ο), Decidable (Along step condition state operations)
  | _, [] => inferInstanceAs (Decidable True)
  | state, operation :: operations =>
    have (after : σ) : Decidable (Along step condition after operations) := decidableAlong after operations
    inferInstanceAs (Decidable (condition state operation ∧
      ∀ after ∈ step state operation, Along step condition after operations))

/-- Every step is defined, and every state the run comes to is related to the
abstract one. -/
def Throughout (step : σ → ο → Option σ) (spec : τ → ο → τ) (related : σ → τ → Prop) (state : σ) (abstract : τ) :
    List ο → Prop
  | [] => related state abstract
  | operation :: operations => related state abstract ∧ ∃ after, step state operation = some after ∧
    Throughout step spec related after (spec abstract operation) operations

variable {step : σ → ο → Option σ} {spec : τ → ο → τ} {related : σ → τ → Prop} {within safe : σ → ο → Prop}

theorem Throughout.start {state : σ} {abstract : τ} {operations : List ο}
    (holds : Throughout step spec related state abstract operations) : related state abstract := by
  cases operations with
  | nil => exact holds
  | cons operation operations => exact holds.1

/-- When one step keeps the relation exactly if it is safe, the relation holds
throughout a run exactly if all its steps are safe. -/
theorem throughout_iff
    (keeps : ∀ state abstract operation, related state abstract → within state operation →
      ((∃ after, step state operation = some after ∧ related after (spec abstract operation)) ↔ safe state operation))
    {state : σ} {abstract : τ} {operations : List ο} (start : related state abstract)
    (range : Along step within state operations) :
    Throughout step spec related state abstract operations ↔ Along step safe state operations := by
  induction operations generalizing state abstract with
  | nil => exact iff_of_true start trivial
  | cons operation operations ih =>
    have one := keeps state abstract operation start range.1
    constructor
    · rintro ⟨_, after, taken, rest⟩
      refine ⟨one.mp ⟨after, taken, rest.start⟩, fun other reached => ?_⟩
      obtain rfl : after = other := Option.some.inj (taken.symm.trans reached)
      exact (ih rest.start (range.2 after taken)).mp rest
    · rintro ⟨kept, rest⟩
      obtain ⟨after, taken, holds⟩ := one.mpr kept
      exact ⟨start, after, taken, (ih holds (range.2 after taken)).mpr (rest after taken)⟩

/-- A machine that follows every step the abstract one may take follows its runs. -/
theorem throughout_of_legal {legal : τ → ο → Prop}
    (follows : ∀ state abstract operation, related state abstract → legal abstract operation →
      ∃ after, step state operation = some after ∧ related after (spec abstract operation))
    {state : σ} {abstract : τ} {operations : List ο} (start : related state abstract)
    (run : Along (fun abstract operation => some (spec abstract operation)) legal abstract operations) :
    Throughout step spec related state abstract operations := by
  induction operations generalizing state abstract with
  | nil => exact start
  | cons operation operations ih =>
    obtain ⟨after, taken, holds⟩ := follows state abstract operation start run.1
    exact ⟨start, after, taken, ih holds (run.2 _ rfl)⟩

/-- A run of a total machine is extended by a step that meets the condition. -/
theorem along_concat {step : σ → ο → σ} {condition : σ → ο → Prop} {state : σ} {operations : List ο} {last : ο} :
    Along (fun state operation => some (step state operation)) condition state (operations ++ [last]) ↔
      Along (fun state operation => some (step state operation)) condition state operations ∧
        condition (operations.foldl step state) last := by
  induction operations generalizing state with
  | nil => exact ⟨fun run => ⟨trivial, run.1⟩, fun run => ⟨run.2, fun _ _ => trivial⟩⟩
  | cons operation operations ih =>
    constructor
    · intro ⟨first, rest⟩
      obtain ⟨before, met⟩ := ih.mp (rest _ rfl)
      refine ⟨⟨first, fun after taken => ?_⟩, met⟩
      cases taken
      exact before
    · intro ⟨⟨first, rest⟩, met⟩
      refine ⟨first, fun after taken => ?_⟩
      cases taken
      exact ih.mpr ⟨rest _ rfl, met⟩

/-- What every step of a total machine keeps under a condition holds after a run whose
steps all meet it. -/
theorem invariant_along {step : σ → ο → σ} {condition : σ → ο → Prop} {invariant : σ → Prop}
    (keeps : ∀ state operation, invariant state → condition state operation → invariant (step state operation))
    {state : σ} {operations : List ο} (start : invariant state)
    (run : Along (fun state operation => some (step state operation)) condition state operations) :
    invariant (operations.foldl step state) := by
  induction operations generalizing state with
  | nil => exact start
  | cons operation operations ih => exact ih (keeps state operation start run.1) (run.2 _ rfl)

end LibWebserver.Refinement
