import Mathlib.Logic.Relation

/-! While loops over an explicit state. A body says at every pass whether the
loop goes on; running it with a bounded number of passes keeps every definition
executable, and a loop that never exits is one that no bound brings to an end. -/

namespace LibWebserver.Loop

universe u v

inductive Step (σ : Type u) (ρ : Type v) where
  | next (state : σ)
  | exit (result : ρ)

variable {σ : Type u} {ρ : Type v} {body : σ → Step σ ρ}

/-- At most `fuel` passes, `none` when the loop has not exited by then. -/
def run (body : σ → Step σ ρ) : Nat → σ → Option ρ
  | 0, _ => none
  | fuel + 1, state => match body state with
    | .exit result => some result
    | .next after => run body fuel after

def Exits (body : σ → Step σ ρ) (state : σ) (result : ρ) : Prop :=
  ∃ fuel, run body fuel state = some result

def Diverges (body : σ → Step σ ρ) (state : σ) : Prop :=
  ∀ fuel, run body fuel state = none

theorem run_exit {state : σ} {result : ρ} (fuel : Nat) (exits : body state = .exit result) :
    run body (fuel + 1) state = some result := by
  simp only [run, exits]

theorem run_next {state after : σ} (fuel : Nat) (moves : body state = .next after) :
    run body (fuel + 1) state = run body fuel after := by
  simp only [run, moves]

theorem run_more {fuel more : Nat} {state : σ} {result : ρ}
    (done : run body fuel state = some result) (le : fuel ≤ more) :
    run body more state = some result := by
  induction fuel generalizing more state with
  | zero => cases done
  | succ fuel ih =>
    obtain ⟨more, rfl⟩ := Nat.exists_eq_add_of_le' (Nat.le_trans (Nat.succ_pos fuel) le)
    cases seen : body state with
    | exit value =>
      rw [run_exit fuel seen] at done
      rw [run_exit more seen, done]
    | next after =>
      rw [run_next fuel seen] at done
      rw [run_next more seen]
      exact ih done (by omega)

theorem Exits.unique {state : σ} {first second : ρ}
    (one : Exits body state first) (two : Exits body state second) : first = second := by
  obtain ⟨fuel, one⟩ := one
  obtain ⟨more, two⟩ := two
  have left := run_more one (Nat.le_max_left fuel more)
  have right := run_more two (Nat.le_max_right fuel more)
  exact Option.some.inj (left.symm.trans right)

theorem Exits.of_exit {state : σ} {result : ρ} (exits : body state = .exit result) :
    Exits body state result :=
  ⟨1, run_exit 0 exits⟩

theorem Exits.of_next {state after : σ} {result : ρ} (rest : Exits body after result)
    (moves : body state = .next after) : Exits body state result := by
  obtain ⟨fuel, rest⟩ := rest
  exact ⟨fuel + 1, (run_next fuel moves).trans rest⟩

theorem diverges_iff {state : σ} : Diverges body state ↔ ¬ ∃ result, Exits body state result := by
  constructor
  · intro spins ⟨result, fuel, done⟩
    rw [spins fuel] at done
    cases done
  · intro never fuel
    cases done : run body fuel state with
    | none => rfl
    | some result => exact absurd ⟨result, fuel, done⟩ never

/-- A property that every pass keeps while going on is never left. -/
theorem Diverges.of_invariant (stuck : σ → Prop)
    (stays : ∀ state, stuck state → ∃ after, body state = .next after ∧ stuck after)
    {state : σ} (holds : stuck state) : Diverges body state := by
  intro fuel
  induction fuel generalizing state with
  | zero => rfl
  | succ fuel ih =>
    obtain ⟨after, moves, kept⟩ := stays state holds
    rw [run_next fuel moves]
    exact ih kept

/-- Zero or more passes that all go on. -/
def Reaches (body : σ → Step σ ρ) : σ → σ → Prop :=
  Relation.ReflTransGen fun state after => body state = .next after

theorem Reaches.refl (state : σ) : Reaches body state state := Relation.ReflTransGen.refl

theorem Reaches.head {state middle after : σ} (moves : body state = .next middle)
    (rest : Reaches body middle after) : Reaches body state after :=
  Relation.ReflTransGen.head moves rest

theorem Reaches.trans {first middle last : σ} (one : Reaches body first middle)
    (two : Reaches body middle last) : Reaches body first last :=
  Relation.ReflTransGen.trans one two

theorem Reaches.exits {state after : σ} {result : ρ} (reaches : Reaches body state after)
    (exits : Exits body after result) : Exits body state result := by
  induction reaches using Relation.ReflTransGen.head_induction_on with
  | refl => exact exits
  | head moves _ ih => exact ih.of_next moves

theorem Reaches.diverges {state after : σ} (reaches : Reaches body state after)
    (spins : Diverges body after) : Diverges body state := by
  induction reaches using Relation.ReflTransGen.head_induction_on with
  | refl => exact spins
  | head moves _ ih =>
    intro fuel
    cases fuel with
    | zero => rfl
    | succ fuel => rw [run_next fuel moves]; exact ih fuel

/-- The invariant rule: what every pass keeps holds where the loop exits. -/
theorem run_invariant (invariant : σ → Prop) (post : ρ → Prop)
    (goes : ∀ state after, invariant state → body state = .next after → invariant after)
    (exits : ∀ state result, invariant state → body state = .exit result → post result)
    {fuel : Nat} {state : σ} {result : ρ} (holds : invariant state) (done : run body fuel state = some result) :
    post result := by
  induction fuel generalizing state with
  | zero => cases done
  | succ fuel ih =>
    cases seen : body state with
    | exit value =>
      rw [run_exit fuel seen] at done
      cases done
      exact exits state result holds seen
    | next after =>
      rw [run_next fuel seen] at done
      exact ih (goes state after holds seen) done

/-- When a pass that does not lower the measure leads into a state the loop
cannot leave, `measure + 1` passes decide whether the loop ever exits. -/
theorem run_bounded (measure : σ → Nat) (stuck : σ → Prop)
    (progress : ∀ state after, body state = .next after → measure after < measure state ∨ stuck after)
    (stays : ∀ state, stuck state → ∃ after, body state = .next after ∧ stuck after)
    {state : σ} {result : ρ} :
    run body (measure state + 1) state = some result ↔ Exits body state result := by
  refine ⟨fun done => ⟨_, done⟩, ?_⟩
  intro ⟨fuel, done⟩
  induction fuel generalizing state with
  | zero => cases done
  | succ fuel ih =>
    cases seen : body state with
    | exit value =>
      rw [run_exit fuel seen] at done
      rw [run_exit _ seen, done]
    | next after =>
      rw [run_next fuel seen] at done
      rw [run_next _ seen]
      rcases progress state after seen with less | held
      · exact run_more (ih done) less
      · rw [Diverges.of_invariant stuck stays held fuel] at done
        cases done

/-- Passes of two loops that go on together, or exit together. -/
inductive Step.Rel {τ : Type u} {υ : Type v} (states : σ → τ → Prop) (results : ρ → υ → Prop) :
    Step σ ρ → Step τ υ → Prop where
  | next {state other} (same : states state other) : Rel states results (.next state) (.next other)
  | exit {result other} (same : results result other) : Rel states results (.exit result) (.exit other)

/-- Loops whose passes are related from related states have related runs. -/
theorem run_related {τ : Type u} {υ : Type v} {right : τ → Step τ υ} {states : σ → τ → Prop} {results : ρ → υ → Prop}
    (pass : ∀ state other, states state other → Step.Rel states results (body state) (right other)) (fuel : Nat)
    {state : σ} {other : τ} (same : states state other) :
    Option.Rel results (run body fuel state) (run right fuel other) := by
  induction fuel generalizing state other with
  | zero => exact .none
  | succ fuel ih =>
    have turn := pass state other same
    rw [run, run]
    generalize body state = left at turn
    generalize right other = right at turn
    cases turn with
    | next same => exact ih same
    | exit same => exact .some same

/-- A pass done by the passes of another loop: at least one when the pass goes on. -/
inductive Step.Refined {τ υ : Type*} (fine : τ → Step τ υ) (states : σ → τ → Prop) (image : ρ → υ) :
    Step σ ρ → τ → Prop where
  | next {state other further} (moves : Relation.TransGen (fun before after => fine before = .next after) other further)
      (same : states state further) : Refined fine states image (.next state) other
  | exit {result other} (exits : Exits fine other (image result)) : Refined fine states image (.exit result) other

private theorem run_of_moves {τ υ : Type*} {fine : τ → Step τ υ} {other further : τ}
    (moves : Relation.TransGen (fun before after => fine before = .next after) other further) {fuel : Nat} {value : υ}
    (done : run fine fuel other = some value) : ∃ rest, rest < fuel ∧ run fine rest further = some value := by
  have single {before after : τ} {fuel : Nat} (step : fine before = .next after) (done : run fine fuel before = some value) :
      ∃ rest, rest < fuel ∧ run fine rest after = some value := by
    cases fuel with
    | zero => cases done
    | succ fuel => exact ⟨fuel, Nat.lt_succ_self fuel, (run_next fuel step).symm.trans done⟩
  induction moves with
  | single step => exact single step done
  | tail _ step ih =>
    obtain ⟨rest, less, done⟩ := ih
    obtain ⟨last, lesser, done⟩ := single step done
    exact ⟨last, Nat.lt_trans lesser less, done⟩

/-- What the finer loop exits with is the image of what the loop does, in no more passes. -/
theorem run_of_refined {τ υ : Type*} {fine : τ → Step τ υ} {states : σ → τ → Prop} {image : ρ → υ}
    (pass : ∀ state other, states state other → Step.Refined fine states image (body state) other)
    {fuel : Nat} {state : σ} {other : τ} (same : states state other) {value : υ}
    (done : run fine fuel other = some value) : ∃ result, value = image result ∧ run body fuel state = some result := by
  induction fuel using Nat.strongRecOn generalizing state other with
  | ind fuel ih =>
    have turn := pass state other same
    cases fuel with
    | zero => cases done
    | succ fuel =>
      cases seen : body state with
      | exit result =>
        rw [seen] at turn
        cases turn with
        | exit exits => exact ⟨result, Exits.unique ⟨_, done⟩ exits, run_exit fuel seen⟩
      | next after =>
        rw [seen] at turn
        cases turn with
        | next moves same =>
          obtain ⟨rest, less, later⟩ := run_of_moves moves done
          obtain ⟨result, reached, found⟩ := ih rest less same later
          exact ⟨result, reached, (run_next fuel seen).trans (run_more found (Nat.le_of_lt_succ less))⟩

/-- And the finer loop exits where the loop does. -/
theorem Exits.refined {τ υ : Type*} {fine : τ → Step τ υ} {states : σ → τ → Prop} {image : ρ → υ}
    (pass : ∀ state other, states state other → Step.Refined fine states image (body state) other)
    {state : σ} {other : τ} (same : states state other) {result : ρ} (exits : Exits body state result) :
    Exits fine other (image result) := by
  obtain ⟨fuel, done⟩ := exits
  induction fuel generalizing state other with
  | zero => cases done
  | succ fuel ih =>
    have turn := pass state other same
    cases seen : body state with
    | exit value =>
      rw [run_exit fuel seen] at done
      cases done
      rw [seen] at turn
      cases turn with
      | exit exits => exact exits
    | next after =>
      rw [run_next fuel seen] at done
      rw [seen] at turn
      cases turn with
      | next moves same =>
        have reached : Reaches fine other _ := moves.to_reflTransGen
        exact reached.exits (ih same done)

/-- A pass that may fail ends the loop with its failure. -/
def failing {ε : Type*} (body : σ → Except ε (Step σ ρ)) (state : σ) : Step σ (Except ε ρ) :=
  match body state with
  | .error failure => .exit (.error failure)
  | .ok (.next after) => .next after
  | .ok (.exit result) => .exit (.ok result)

theorem failing_next {ε : Type*} {body : σ → Except ε (Step σ ρ)} {state after : σ} (moves : body state = .ok (.next after)) :
    failing body state = .next after := by
  simp only [failing, moves]

theorem failing_next_iff {ε : Type*} {body : σ → Except ε (Step σ ρ)} {state after : σ} :
    failing body state = .next after ↔ body state = .ok (.next after) := by
  refine ⟨fun moves => ?_, failing_next⟩
  unfold failing at moves
  split at moves <;> cases moves
  assumption

theorem failing_exit {ε : Type*} {body : σ → Except ε (Step σ ρ)} {state : σ} {result : ρ}
    (exits : body state = .ok (.exit result)) : failing body state = .exit (.ok result) := by
  simp only [failing, exits]

end LibWebserver.Loop
