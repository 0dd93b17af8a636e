import LibWebserver.Thread
import Mathlib.Data.List.Induction

/-! What the flags of a thread promise its controlling thread. A request to stop
holds unless a started thread has yet to clear the flag, and a join does not wait for a
thread that is gone if it has seen it active. -/

namespace LibWebserver.Thread
open Refinement

variable {thread : Thread}

theorem goOn_started {i : Nat} {stage other : Wrapper} {worker : Worker}
    (member : other ∈ (thread.goOn i stage worker).started) : other ∈ thread.started ∨ other = stage :=
  List.mem_or_eq_of_mem_set member

/-- No started thread is to clear the flag when it is set. -/
def Cleared (thread : Thread) : Move → Prop
  | .stop => thread.caller = .idle → .clearShouldStop ∉ thread.started
  | _ => True

instance (thread : Thread) (move : Move) : Decidable (thread.Cleared move) := by
  cases move <;> unfold Cleared <;> infer_instance

/-- A request to stop that nobody is going to take back. -/
structure Stopping (thread : Thread) : Prop where
  requested : thread.worker.shouldStop = true
  cleared : .clearShouldStop ∉ thread.started
  complete : thread.caller ≠ .create

theorem Stopping.goOn (stopping : thread.Stopping) {stage : Wrapper} (other : stage ≠ .clearShouldStop) (i : Nat)
    {worker : Worker} (requested : worker.shouldStop = true) : (thread.goOn i stage worker).Stopping where
  requested := requested
  cleared member := (goOn_started member).elim stopping.cleared fun same => other same.symm
  complete := stopping.complete

/-- A thread that goes on does not take the request back, and leaves the loop at its test. -/
theorem Stopping.advance (stopping : thread.Stopping) {i : Nat} {stage : Wrapper} (found : thread.started[i]? = some stage)
    (returns : Bool) :
    (thread.advance i returns stage).Stopping ∧ (thread.advance i returns stage).iterations = thread.iterations := by
  have requested := stopping.requested
  cases stage with
  | clearShouldStop => exact absurd (List.mem_of_getElem? found) stopping.cleared
  | test =>
    rw [Thread.advance, if_pos requested]
    exact ⟨stopping.goOn (by decide) i requested, rfl⟩
  | iteration => cases returns <;> exact ⟨stopping.goOn (by decide) i requested, rfl⟩
  | clearIsStopped | setIsStopped | clearStartRequested | exit | exited =>
    exact ⟨stopping.goOn (by decide) i requested, rfl⟩

theorem Stopping.call (stopping : thread.Stopping) {caller : Caller} (other : caller ≠ .create) :
    { thread with caller }.Stopping ∧ { thread with caller }.iterations = thread.iterations :=
  ⟨⟨stopping.requested, stopping.cleared, other⟩, rfl⟩

theorem Stopping.step (stopping : thread.Stopping) {move : Move} (other : move ≠ .start) :
    (thread.step move).Stopping ∧ (thread.step move).iterations = thread.iterations := by
  have same : thread.Stopping ∧ thread.iterations = thread.iterations := ⟨stopping, rfl⟩
  cases move with
  | start => exact absurd rfl other
  | create refused => rw [Thread.step, if_neg stopping.complete]; exact same
  | stop =>
    simp only [Thread.step]
    split
    · exact ⟨⟨rfl, stopping.cleared, by simp⟩, rfl⟩
    · exact same
  | broadcast =>
    simp only [Thread.step]
    split
    · exact stopping.call (by decide)
    · exact same
  | part parting =>
    simp only [Thread.step]
    split
    · exact stopping.call (by simp)
    · exact same
  | poll =>
    simp only [Thread.step]
    split
    · split
      · exact stopping.call (by simp)
      · exact same
    · exact same
  | release =>
    simp only [Thread.step]
    split
    · split
      · exact stopping.call (by decide)
      · exact same
    · exact stopping.call (by decide)
    · exact same
  | advance i returns =>
    simp only [Thread.step]
    split
    · exact same
    next stage found => exact stopping.advance found returns

theorem Stopping.run (stopping : thread.Stopping) {moves : List Move} (others : .start ∉ moves) :
    (thread.run moves).Stopping ∧ (thread.run moves).iterations = thread.iterations := by
  induction moves generalizing thread with
  | nil => exact ⟨stopping, rfl⟩
  | cons move moves ih =>
    simp only [List.mem_cons, not_or] at others
    obtain ⟨kept, same⟩ := stopping.step (Ne.symm others.1)
    obtain ⟨later, also⟩ := ih kept others.2
    exact ⟨later, also.trans same⟩

theorem stopping_stop (idle : thread.caller = .idle) (cleared : thread.Cleared .stop) : (thread.step .stop).Stopping := by
  rw [Thread.step, if_pos idle]
  exact ⟨rfl, cleared idle, by simp⟩

theorem advance_caller (i : Nat) (returns : Bool) (stage : Wrapper) :
    (thread.advance i returns stage).caller = thread.caller := by
  cases stage with
  | test => rw [advance]; split <;> rfl
  | _ => rfl

theorem broadcast_cases {move : Move} (setting : (thread.step move).caller = .broadcast) :
    thread.caller = .broadcast ∨ thread.caller = .idle ∧ move = .stop := by
  cases move with
  | stop =>
    by_cases idle : thread.caller = .idle
    · exact .inr ⟨idle, rfl⟩
    · rw [step, if_neg idle] at setting
      exact .inl setting
  | advance i returns =>
    simp only [step] at setting
    split at setting
    · exact .inl setting
    · rw [advance_caller] at setting
      exact .inl setting
  | _ =>
    simp only [step] at setting
    repeat' split at setting
    all_goals first | exact .inl setting | cases setting

/-- Whenever `Stop` has set the flag and not returned yet, the request holds. -/
theorem stopping_of_broadcast {moves : List Move}
    (cleared : Along (fun thread move => some (step thread move)) Cleared thread moves)
    (start : thread.caller = .broadcast → thread.Stopping) (setting : (thread.run moves).caller = .broadcast) :
    (thread.run moves).Stopping := by
  refine @invariant_along _ _ step Cleared (fun thread => thread.caller = .broadcast → thread.Stopping) ?_ _ _ start
    cleared setting
  intro thread move kept cleared setting
  obtain already | ⟨idle, rfl⟩ := broadcast_cases setting
  · by_cases start : move = .start
    · have same : thread.step move = thread := by rw [start, step, if_neg (by simp [already])]
      rw [same]
      exact kept already
    · exact ((kept already).step start).1
  · exact stopping_stop idle cleared

/-- In a run that stops only threads which have cleared their flag, a stop that has
returned is seen by every later test until the next start. -/
theorem stop_kept {detached : Bool} {moves later : List Move}
    (cleared : Along (fun thread move => some (step thread move)) Cleared { detached } moves)
    (setting : (run { detached } moves).caller = .broadcast) (others : .start ∉ later) :
    (run { detached } (moves ++ .broadcast :: later)).worker.shouldStop = true ∧
      (run { detached } (moves ++ .broadcast :: later)).iterations = (run { detached } moves).iterations := by
  have stopping := stopping_of_broadcast cleared (fun setting => Caller.noConfusion setting) setting
  have returned := @Stopping.run _ stopping (.broadcast :: later) (by simp [others])
  rw [run, List.foldl_append]
  exact ⟨returned.1.requested, returned.2⟩

theorem stop_kept_running :
    let moves : List Move := [.start, .create false, .advance 0 false, .advance 0 false, .advance 0 false, .stop]
    let later : List Move := [.advance 0 false, .advance 0 false]
    (run { detached := false } (moves ++ .broadcast :: later)).worker.shouldStop = true ∧
      (run { detached := false } (moves ++ .broadcast :: later)).iterations =
        (run { detached := false } moves).iterations :=
  stop_kept (by decide) (by decide) (by decide)

/-- A stop that comes before a started thread has cleared the flag is lost when it does. -/
theorem stop_lost_of_not_cleared {i : Nat} (idle : thread.caller = .idle)
    (pending : thread.started[i]? = some .clearShouldStop) (returns : Bool) :
    (thread.run [.stop, .broadcast, .advance i returns]).worker.shouldStop = false := by
  simp [run, step, idle, pending, advance, goOn]

theorem stop_lost :
    ¬ ∀ (moves later : List Move), (run { detached := false } moves).caller = .broadcast → .start ∉ later →
      (run { detached := false } (moves ++ .broadcast :: later)).worker.shouldStop = true := by
  intro always
  have kept := always [.start, .create false, .stop] [.advance 0 false] (by decide) (by decide)
  revert kept
  decide

/-- The thread last started has executed `SetStoppedStatus`. -/
def Ended (thread : Thread) : Prop := thread.started.getLast? = some .exit ∨ thread.started.getLast? = some .exited

instance (thread : Thread) : Decidable thread.Ended := by unfold Ended; infer_instance

/-- A call of `Join` or `Detach` that reads `start_requested_` as set. -/
def Enters (thread : Thread) : Prop := thread.caller = .idle ∧ ¬ thread.detached ∧ thread.worker.startRequested

instance (thread : Thread) : Decidable thread.Enters := by unfold Enters; infer_instance

/-- In these moves, every `IsActive()` of the caller reads `is_stopped_` as set. -/
abbrev Unseen (thread : Thread) (moves : List Move) : Prop :=
  Along (fun thread move => some (step thread move)) (fun thread move => move = .poll → thread.worker.isStopped) thread moves

theorem wait_step {move : Move} {parting : Parting} : (thread.step move).caller = .wait parting ↔
    thread.caller = .wait parting ∧ (move = .poll → thread.worker.isStopped) ∨ move = .part parting ∧ thread.Enters := by
  cases move with
  | start | create refused | stop | broadcast =>
    simp only [step]
    split
    next calls => simp [calls]
    · simp
  | part other =>
    by_cases enters : thread.Enters
    · have inLoop : thread.step (.part other) = { thread with caller := .wait other } := if_pos enters
      rw [inLoop]
      simp only [enters, enters.1, Caller.wait.injEq, Move.part.injEq, and_true, reduceCtorEq, false_and, false_or]
    · have stays : thread.step (.part other) = thread := if_neg enters
      rw [stays]
      simp [enters]
  | poll =>
    simp only [step]
    split
    next other inLoop => cases stopped : thread.worker.isStopped <;> simp [inLoop, Worker.isActive, stopped]
    next elsewhere =>
      have outside : thread.caller ≠ .wait parting := elsewhere parting
      simp [outside]
  | release =>
    simp only [step]
    split
    next inCall =>
      split <;> simp [inCall]
    next inCall => simp [inCall]
    · simp
  | advance i returns =>
    simp only [step]
    split
    · simp
    · simp [advance_caller]

theorem wait_run {moves : List Move} {parting : Parting} (outside : thread.caller ≠ .wait parting) :
    (thread.run moves).caller = .wait parting ↔ ∃ before between, moves = before ++ .part parting :: between ∧
      (thread.run before).Enters ∧ Unseen ((thread.run before).step (.part parting)) between := by
  have extend (moves : List Move) (move : Move) : thread.run (moves ++ [move]) = (thread.run moves).step move :=
    List.foldl_append
  induction moves using List.reverseRecOn with
  | nil => exact iff_of_false outside (by simp)
  | append_singleton moves move ih =>
    rw [extend, wait_step]
    constructor
    · rintro (⟨inLoop, stays⟩ | ⟨rfl, enters⟩)
      · obtain ⟨before, between, rfl, enters, unseen⟩ := ih.mp inLoop
        have reached : thread.run (before ++ .part parting :: between) =
            between.foldl step ((thread.run before).step (.part parting)) := by rw [run, List.foldl_append]; rfl
        rw [reached] at stays
        exact ⟨before, between ++ [move], by simp, enters, along_concat.mpr ⟨unseen, stays⟩⟩
      · exact ⟨moves, [], rfl, enters, trivial⟩
    · rintro ⟨before, between, same, enters, unseen⟩
      rcases List.eq_nil_or_concat between with rfl | ⟨between, last, rfl⟩
      · obtain ⟨rfl, one⟩ := List.append_inj' same rfl
        exact .inr ⟨List.singleton_inj.mp one, enters⟩
      · rw [List.concat_eq_append, ← List.cons_append, ← List.append_assoc] at same
        obtain ⟨rfl, one⟩ := List.append_inj' same rfl
        obtain rfl : move = last := List.singleton_inj.mp one
        rw [List.concat_eq_append, Unseen, along_concat] at unseen
        have reached : thread.run (before ++ .part parting :: between) =
            between.foldl step ((thread.run before).step (.part parting)) := by rw [run, List.foldl_append]; rfl
        refine .inl ⟨ih.mpr ⟨before, between, rfl, enters, unseen.1⟩, ?_⟩
        rw [reached]
        exact unseen.2

/-- A call of `Join` or `Detach` reads `start_requested_` as set, and by the time the thread
last started has executed `SetStoppedStatus` it has not read `is_stopped_` as clear. -/
def Missed (thread : Thread) (moves : List Move) : Prop :=
  ∃ before parting between, before ++ .part parting :: between <+: moves ∧ (thread.run before).Enters ∧
    Unseen ((thread.run before).step (.part parting)) between ∧ (thread.run (before ++ .part parting :: between)).Ended

/-- A join that waits for a thread at its end never leaves its loop by itself. -/
theorem wait_of_ended {parting : Parting} (inLoop : thread.caller = .wait parting) (stopped : thread.worker.isStopped = true)
    (n : Nat) : thread.run (List.replicate n .poll) = thread := by
  induction n with
  | zero => rfl
  | succ n ih =>
    have stays : thread.step .poll = thread := by simp [step, inLoop, Worker.isActive, stopped]
    rw [List.replicate_succ, run, List.foldl_cons, stays]
    exact ih

end LibWebserver.Thread
