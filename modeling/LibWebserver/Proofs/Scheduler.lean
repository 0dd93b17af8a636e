import LibWebserver.Scheduler
import LibWebserver.Proofs.Thread
import Mathlib.Algebra.BigOperators.Group.List.Basic
import Mathlib.Algebra.Order.Ring.Nat

/-! What the shutdown of the pool comes to. When it is over no worker runs or will run, and
it can always come to an end unless a request to stop is lost or a join has missed the end
of its worker. -/

namespace LibWebserver.Scheduler
open Thread Refinement

/-- The flags of a worker whose thread is in a stage of `Wrapper_`. -/
def flags (stage : Wrapper) (shouldStop : Bool) : Worker where
  shouldStop
  isStopped := match stage with
    | .test | .iteration | .setIsStopped => false
    | _ => true
  startRequested := match stage with
    | .exit | .exited => false
    | _ => true

def live (stage : Wrapper) (shouldStop : Bool) (caller : Caller) (iterations : Nat) : Thread :=
  { detached := false, worker := flags stage shouldStop, started := [stage], caller, iterations }

/-- The stage behind another, and the flag then. -/
def after (shouldStop : Bool) : Wrapper → Wrapper × Bool
  | .clearShouldStop => (.clearIsStopped, false)
  | .clearIsStopped => (.test, shouldStop)
  | .test => (if shouldStop then .setIsStopped else .iteration, shouldStop)
  | .iteration => (.test, shouldStop)
  | .setIsStopped => (.clearStartRequested, shouldStop)
  | .clearStartRequested => (.exit, shouldStop)
  | .exit | .exited => (.exited, shouldStop)

/-- The worker has not left its loop. -/
def Early (stage : Wrapper) : Prop := stage = .clearShouldStop ∨ stage = .clearIsStopped ∨ stage = .test ∨ stage = .iteration

/-- The thread has done with its worker. -/
def Over (stage : Wrapper) : Prop := stage = .exit ∨ stage = .exited

instance (stage : Wrapper) : Decidable (Early stage) := by unfold Early; infer_instance
instance (stage : Wrapper) : Decidable (Over stage) := by unfold Over; infer_instance

section Live
variable (stage : Wrapper) (shouldStop : Bool) (caller : Caller) (n : Nat)

theorem advance_live : ∃ m, (live stage shouldStop caller n).step (.advance 0 false) =
    live (after shouldStop stage).1 (after shouldStop stage).2 caller m ∧ (¬ Early stage → m = n) := by
  cases stage with
  | clearShouldStop | clearIsStopped | iteration => exact ⟨n, rfl, fun _ => rfl⟩
  | setIsStopped | clearStartRequested | exit | exited => exact ⟨n, rfl, fun _ => rfl⟩
  | test =>
    cases shouldStop with
    | false => exact ⟨n + 1, rfl, fun late => absurd (by decide) late⟩
    | true => exact ⟨n, rfl, fun _ => rfl⟩

theorem stop_live : (live stage shouldStop .idle n).step .stop = live stage true .broadcast n := rfl

theorem broadcast_live : (live stage shouldStop .broadcast n).step .broadcast = live stage shouldStop .idle n := rfl

theorem join_live : (live stage shouldStop .idle n).step (.part .join) =
    live stage shouldStop (if Over stage then .idle else .wait .join) n := by
  cases stage <;> rfl

theorem poll_live : (live stage shouldStop (.wait .join) n).step .poll =
    live stage shouldStop (if (flags stage shouldStop).isStopped then .wait .join else .part .join) n := by
  cases stage <;> rfl

theorem release_live : (live stage shouldStop (.part .join) n).step .release =
    live stage shouldStop (if stage = .exited then .idle else .part .join) n := by
  cases stage <;> rfl

end Live

inductive Phase where
  | fresh
  | starting
  | running
  | leaving (caller : Caller)
  | gone
  | unknown

def phase (duty : Duty) (j : Nat) : Phase :=
  match duty with
  | .start i => if j < i then .running else .fresh
  | .create i => if j < i then .running else if j = i then .starting else .fresh
  | .failed => .unknown
  | .serve => .running
  | .stop i => if j < i then .gone else .running
  | .broadcast i => if j < i then .gone else if j = i then .leaving .broadcast else .running
  | .join i => if j < i then .gone else if j = i then .leaving .idle else .running
  | .wait i => if j < i then .gone else if j = i then .leaving (.wait .join) else .running
  | .release i => if j < i then .gone else if j = i then .leaving (.part .join) else .running
  | .active _ | .done => .gone

def Fits (worker : Thread) : Phase → Prop
  | .fresh => worker = { detached := false }
  | .starting => worker = { detached := false, worker := { startRequested := true }, caller := .create }
  | .running => ∃ stage n, worker = live stage false .idle n ∧ Early stage
  | .leaving caller => ∃ stage shouldStop n, worker = live stage shouldStop caller n
  | .gone => ∃ stage shouldStop n, worker = live stage shouldStop .idle n ∧ Over stage
  | .unknown => True

variable {self : Scheduler} {i : Nat} {worker : Thread}

def Orderly (self : Scheduler) : Prop := ∀ j worker, self.pool[j]? = some worker → Fits worker (phase self.duty j)

theorem set_cases {pool : List Thread} {j : Nat} {own new : Thread} (found : pool[i]? = some own)
    (member : (pool.set i new)[j]? = some worker) : j = i ∧ worker = new ∨ j ≠ i ∧ pool[j]? = some worker := by
  by_cases same : j = i
  · subst same
    rw [List.getElem?_set_self (List.getElem?_eq_some_iff.mp found).1] at member
    exact .inl ⟨rfl, (Option.some.inj member).symm⟩
  · rw [List.getElem?_set_ne (Ne.symm same)] at member
    exact .inr ⟨same, member⟩

theorem attend_some (found : self.pool[i]? = some worker) (move : Move) (next : Caller → Duty) (ended : Duty) :
    self.attend i move next ended = { pool := self.pool.set i (worker.step move), duty := next (worker.step move).caller } := by
  rw [attend, found]

theorem attend_none (absent : self.pool[i]? = none) (move : Move) (next : Caller → Duty) (ended : Duty) :
    self.attend i move next ended = { self with duty := ended } := by
  rw [attend, absent]

theorem Orderly.attend (orderly : self.Orderly) {move : Move} {next : Caller → Duty} {ended : Duty}
    (others : ∀ j ≠ i, ∀ worker caller, Fits worker (phase self.duty j) → Fits worker (phase (next caller) j))
    (before : ∀ j < i, phase ended j = phase self.duty j)
    (fits : ∀ worker, Fits worker (phase self.duty i) → Fits (worker.step move) (phase (next (worker.step move).caller) i)) :
    (self.attend i move next ended).Orderly := by
  cases found : self.pool[i]? with
  | none =>
    rw [attend_none found]
    intro j worker member
    have inside : j < i := Nat.lt_of_lt_of_le (List.getElem?_eq_some_iff.mp member).1 (List.getElem?_eq_none_iff.mp found)
    rw [before j inside]
    exact orderly j worker member
  | some own =>
    rw [attend_some found]
    intro j worker member
    rcases set_cases found member with ⟨rfl, rfl⟩ | ⟨other, member⟩
    · exact fits own (orderly j own found)
    · exact others j other worker _ (orderly j worker member)

theorem Fits.advance {now : Phase} (fits : Fits worker now) : Fits (worker.step (.advance 0 false)) now := by
  cases now with
  | fresh | starting =>
    cases fits
    rfl
  | running =>
    obtain ⟨stage, n, rfl, early⟩ := fits
    obtain ⟨m, same, _⟩ := advance_live stage false .idle n
    rw [same]
    rcases early with rfl | rfl | rfl | rfl
    all_goals exact ⟨_, m, rfl, by decide⟩
  | leaving caller =>
    obtain ⟨stage, shouldStop, n, rfl⟩ := fits
    obtain ⟨m, same, _⟩ := advance_live stage shouldStop caller n
    exact ⟨_, _, m, same⟩
  | gone =>
    obtain ⟨stage, shouldStop, n, rfl, ended⟩ := fits
    obtain ⟨m, same, _⟩ := advance_live stage shouldStop .idle n
    rw [same]
    rcases ended with rfl | rfl
    all_goals exact ⟨_, _, m, rfl, .inr rfl⟩
  | unknown => trivial

theorem lt_succ_other {j i : Nat} (other : j ≠ i) : j < i + 1 ↔ j < i := by omega

section Duties

variable {pool : List Thread} {refused : Bool}

theorem Orderly.starts (orderly : Orderly { pool, duty := .start i }) :
    (Scheduler.perform { pool, duty := .start i } refused).Orderly := by
  refine orderly.attend (fun j other worker _ fits => ?_) (fun j before => ?_) fun worker fits => ?_
  · simpa [phase, other] using fits
  · simp [phase, before]
  · simp only [phase, Nat.lt_irrefl, if_false, if_true] at fits ⊢
    cases fits
    rfl

theorem Orderly.creates (orderly : Orderly { pool, duty := .create i }) :
    (Scheduler.perform { pool, duty := .create i } refused).Orderly := by
  refine orderly.attend (fun j other worker _ fits => ?_) (fun j before => ?_) fun worker fits => ?_
  · cases refused with
    | true => trivial
    | false => simpa [phase, other, lt_succ_other other] using fits
  · simp [phase, before]
  · simp only [phase, Nat.lt_irrefl, if_false, if_true] at fits
    cases fits
    cases refused with
    | true => trivial
    | false =>
      simp only [phase, Nat.lt_add_one, if_true, Bool.false_eq_true, if_false]
      exact ⟨.clearShouldStop, 0, rfl, .inl rfl⟩

theorem Orderly.stops (orderly : Orderly { pool, duty := .stop i }) :
    (Scheduler.perform { pool, duty := .stop i } refused).Orderly := by
  refine orderly.attend (fun j other worker _ fits => ?_) (fun j before => ?_) fun worker fits => ?_
  · simpa [phase, other] using fits
  · simp [phase, before]
  · simp only [phase, Nat.lt_irrefl, if_false, if_true] at fits ⊢
    obtain ⟨stage, n, rfl, _⟩ := fits
    exact ⟨stage, true, n, stop_live stage false n⟩

theorem Orderly.broadcasts (orderly : Orderly { pool, duty := .broadcast i }) :
    (Scheduler.perform { pool, duty := .broadcast i } refused).Orderly := by
  refine orderly.attend (fun j other worker _ fits => ?_) (fun j before => ?_) fun worker fits => ?_
  · simpa [phase, other] using fits
  · simp [phase, before]
  · simp only [phase, Nat.lt_irrefl, if_false, if_true] at fits ⊢
    obtain ⟨stage, shouldStop, n, rfl⟩ := fits
    exact ⟨stage, shouldStop, n, broadcast_live stage shouldStop n⟩

theorem Orderly.joins (orderly : Orderly { pool, duty := .join i }) :
    (Scheduler.perform { pool, duty := .join i } refused).Orderly := by
  refine orderly.attend (fun j other worker caller fits => ?_) (fun j before => ?_) fun worker fits => ?_
  · by_cases idle : caller = .idle
    · simpa [phase, other, lt_succ_other other, idle] using fits
    · simpa [phase, other, idle] using fits
  · simp [phase, before]
  · simp only [phase, Nat.lt_irrefl, if_false, if_true] at fits
    obtain ⟨stage, shouldStop, n, rfl⟩ := fits
    rw [join_live]
    by_cases ended : Over stage
    · simp only [ended, live, if_true, phase, Nat.lt_add_one]
      exact ⟨stage, shouldStop, n, rfl, ended⟩
    · simp only [ended, live, if_false, phase, Nat.lt_irrefl, if_true, reduceCtorEq]
      exact ⟨stage, shouldStop, n, rfl⟩

theorem Orderly.waits (orderly : Orderly { pool, duty := .wait i }) :
    (Scheduler.perform { pool, duty := .wait i } refused).Orderly := by
  refine orderly.attend (fun j other worker caller fits => ?_) (fun j before => ?_) fun worker fits => ?_
  · by_cases part : caller = .part .join
    · simpa [phase, other, part] using fits
    · simpa [phase, other, part] using fits
  · simp [phase, before]
  · simp only [phase, Nat.lt_irrefl, if_false, if_true] at fits
    obtain ⟨stage, shouldStop, n, rfl⟩ := fits
    rw [poll_live]
    by_cases stopped : (flags stage shouldStop).isStopped
    · simp only [stopped, live, if_true, phase, Nat.lt_irrefl, if_false, reduceCtorEq]
      exact ⟨stage, shouldStop, n, rfl⟩
    · simp only [stopped, live, if_true, phase, Nat.lt_irrefl, if_false, Bool.false_eq_true]
      exact ⟨stage, shouldStop, n, rfl⟩

theorem Orderly.releases (orderly : Orderly { pool, duty := .release i }) :
    (Scheduler.perform { pool, duty := .release i } refused).Orderly := by
  refine orderly.attend (fun j other worker caller fits => ?_) (fun j before => ?_) fun worker fits => ?_
  · by_cases idle : caller = .idle
    · simpa [phase, other, lt_succ_other other, idle] using fits
    · simpa [phase, other, idle] using fits
  · simp [phase, before]
  · simp only [phase, Nat.lt_irrefl, if_false, if_true] at fits
    obtain ⟨stage, shouldStop, n, rfl⟩ := fits
    rw [release_live]
    by_cases exited : stage = .exited
    · simp only [exited, live, if_true, phase, Nat.lt_add_one]
      exact ⟨.exited, shouldStop, n, rfl, .inr rfl⟩
    · simp only [exited, live, if_false, phase, Nat.lt_irrefl, if_true, reduceCtorEq]
      exact ⟨stage, shouldStop, n, rfl⟩

end Duties

theorem Orderly.perform (orderly : self.Orderly) (refused : Bool) : (self.perform refused).Orderly := by
  obtain ⟨pool, duty⟩ := self
  cases duty with
  | start i => exact orderly.starts
  | create i => exact orderly.creates
  | stop i => exact orderly.stops
  | broadcast i => exact orderly.broadcasts
  | join i => exact orderly.joins
  | wait i => exact orderly.waits
  | release i => exact orderly.releases
  | serve | failed | done => exact orderly
  | active i =>
    unfold Scheduler.perform
    dsimp only
    split
    · exact orderly
    · exact orderly

theorem Orderly.step (orderly : self.Orderly) (turn : Turn) : (self.step turn).Orderly := by
  cases turn with
  | scheduler refused => exact orderly.perform refused
  | worker i =>
    unfold Scheduler.step
    dsimp only
    split
    next => exact orderly
    next own found =>
      intro j worker member
      rcases set_cases found member with ⟨rfl, rfl⟩ | ⟨-, member⟩
      · exact (orderly j own found).advance
      · exact orderly j worker member

theorem orderly_create (workers : Nat) : (create workers).Orderly := by
  intro j worker member
  exact List.eq_of_mem_replicate (List.mem_of_getElem? member)

theorem orderly_run (workers : Nat) (turns : List Turn) : (run workers turns).Orderly :=
  List.foldlRecOn turns Scheduler.step (orderly_create workers) fun _ orderly turn _ => orderly.step turn

/-- The request to stop is gone, or will be when the worker clears its flag. -/
def Forgotten (worker : Thread) : Prop :=
  ∃ stage ∈ worker.started.head?, stage = .clearShouldStop ∨ worker.worker.shouldStop = false ∧ Early stage

/-- At or behind the writes of `SetStoppedStatus`. -/
def Late (stage : Wrapper) : Prop := stage = .clearStartRequested ∨ stage = .exit ∨ stage = .exited

instance (stage : Wrapper) : Decidable (Late stage) := by unfold Late; infer_instance

/-- The join waits for a worker to become active that has come to its end. -/
def Missed (worker : Thread) : Prop := worker.caller = .wait .join ∧ ∃ stage ∈ worker.started.head?, Late stage

/-- The worker that the scheduler is stopping. -/
def leaving : Duty → Option Nat
  | .broadcast i | .join i | .wait i | .release i => some i
  | _ => none

/-- The worker that the scheduler calls, and where the call is. -/
def calling : Duty → Option (Nat × Caller)
  | .broadcast i => some (i, .broadcast)
  | .join i => some (i, .idle)
  | .wait i => some (i, .wait .join)
  | .release i => some (i, .part .join)
  | _ => none

theorem Orderly.calls (orderly : self.Orderly) {caller : Caller} (now : calling self.duty = some (i, caller))
    (found : self.pool[i]? = some worker) : ∃ stage shouldStop n, worker = live stage shouldStop caller n := by
  have fits := orderly i worker found
  obtain ⟨pool, duty⟩ := self
  cases duty with
  | start | create | failed | serve | stop | active | done => cases now
  | broadcast j | join j | wait j | release j =>
    cases now
    simp only [phase, Nat.lt_irrefl, if_false, if_true] at fits
    exact fits

/-- A worker that is about to be stopped is in its loop or on the way there. -/
theorem Orderly.runs (orderly : self.Orderly) (now : self.duty = .stop i) (found : self.pool[i]? = some worker) :
    ∃ stage n, worker = live stage false .idle n := by
  have fits := orderly i worker found
  rw [now] at fits
  simp only [phase, Nat.lt_irrefl, if_false] at fits
  obtain ⟨stage, n, same, _⟩ := fits
  exact ⟨stage, n, same⟩

/-- A worker that the scheduler is stopping has been started. -/
theorem Orderly.leaves (orderly : self.Orderly) (now : leaving self.duty = some i) (found : self.pool[i]? = some worker) :
    ∃ stage shouldStop caller n, worker = live stage shouldStop caller n ∧ (caller = .wait .join → self.duty = .wait i) := by
  obtain ⟨pool, duty⟩ := self
  cases duty with
  | start | create | failed | serve | stop | active | done => cases now
  | broadcast j | join j | wait j | release j =>
    cases now
    obtain ⟨stage, shouldStop, n, same⟩ := orderly.calls rfl found
    exact ⟨stage, shouldStop, _, n, same, by simp⟩

/-- A worker has not been started, or one is never going to be joined. -/
def Stuck (self : Scheduler) : Prop :=
  self.duty = .failed ∨
    ∃ i ∈ leaving self.duty, ∃ worker ∈ self.pool[i]?, Forgotten worker ∨ Missed worker

instance (worker : Thread) : Decidable (Forgotten worker) := by unfold Forgotten; infer_instance
instance (worker : Thread) : Decidable (Missed worker) := by unfold Missed; infer_instance
instance (self : Scheduler) : Decidable self.Stuck := by unfold Stuck; infer_instance

section Live
variable {stage : Wrapper} {shouldStop : Bool} {caller : Caller} {n : Nat}

theorem forgotten_live : Forgotten (live stage shouldStop caller n) ↔
    stage = .clearShouldStop ∨ shouldStop = false ∧ Early stage := by
  constructor
  · rintro ⟨_, same, forgotten⟩
    cases same
    exact forgotten
  · intro forgotten
    exact ⟨stage, rfl, forgotten⟩

theorem missed_live : Missed (live stage shouldStop caller n) ↔ caller = .wait .join ∧ Late stage := by
  constructor
  · rintro ⟨waiting, _, same, late⟩
    cases same
    exact ⟨waiting, late⟩
  · intro missed
    exact ⟨missed.1, stage, rfl, missed.2⟩

theorem early_of_forgotten (forgotten : Forgotten (live stage shouldStop caller n)) : Early stage := by
  rcases forgotten_live.mp forgotten with rfl | ⟨_, early⟩
  · exact .inl rfl
  · exact early

theorem forgotten_caller (forgotten : Forgotten (live stage shouldStop caller n)) (other : Caller) :
    Forgotten (live stage shouldStop other n) := forgotten_live.mpr (forgotten_live.mp forgotten)

theorem forgotten_of_lost (lost : Forgotten (live stage shouldStop caller n) ∨ Missed (live stage shouldStop caller n))
    (elsewhere : caller ≠ .wait .join) : Forgotten (live stage shouldStop caller n) :=
  lost.resolve_right fun missed => elsewhere missed.1

/-- A worker that goes on does not make good what it has missed. -/
theorem lost_advance (lost : Forgotten (live stage shouldStop caller n) ∨ Missed (live stage shouldStop caller n)) :
    Forgotten ((live stage shouldStop caller n).step (.advance 0 false)) ∨
      Missed ((live stage shouldStop caller n).step (.advance 0 false)) := by
  obtain ⟨m, same, _⟩ := advance_live stage shouldStop caller n
  rw [same]
  rw [forgotten_live, missed_live] at lost ⊢
  cases stage <;> cases shouldStop <;> simp_all [Early, Late, after]

end Live

theorem stuck_attend {move : Move} {next : Caller → Duty} {ended : Duty} (found : self.pool[i]? = some worker)
    (same : leaving (next (worker.step move).caller) = some i) (lost : Forgotten (worker.step move) ∨ Missed (worker.step move)) :
    (self.attend i move next ended).Stuck := by
  rw [attend_some found]
  refine .inr ⟨i, same, worker.step move, ?_, lost⟩
  exact List.getElem?_set_self (List.getElem?_eq_some_iff.mp found).1

theorem Stuck.perform (stuck : self.Stuck) (orderly : self.Orderly) (refused : Bool) : (self.perform refused).Stuck := by
  obtain ⟨pool, duty⟩ := self
  rcases stuck with rfl | ⟨i, now, worker, found, lost⟩
  · exact .inl rfl
  · unfold Scheduler.perform
    cases duty with
    | start | create | failed | serve | stop | active | done => cases now
    | broadcast j =>
      cases now
      obtain ⟨stage, shouldStop, n, rfl⟩ := orderly.calls rfl found
      have forgotten := forgotten_of_lost lost (by decide)
      refine stuck_attend found rfl (.inl ?_)
      rw [broadcast_live]
      exact forgotten_caller forgotten .idle
    | join j =>
      cases now
      obtain ⟨stage, shouldStop, n, rfl⟩ := orderly.calls rfl found
      have forgotten := forgotten_of_lost lost (by decide)
      have inside : ¬ Over stage := by
        intro ended
        rcases early_of_forgotten forgotten with rfl | rfl | rfl | rfl
        all_goals exact absurd ended (by decide)
      have same := join_live stage shouldStop n
      rw [if_neg inside] at same
      refine stuck_attend found ?_ (.inl ?_)
      · rw [same]
        rfl
      · rw [same]
        exact forgotten_caller forgotten (.wait .join)
    | wait j =>
      cases now
      obtain ⟨stage, shouldStop, n, rfl⟩ := orderly.calls rfl found
      have same := poll_live stage shouldStop n
      refine stuck_attend found ?_ ?_
      · rw [same]
        cases (flags stage shouldStop).isStopped <;> rfl
      · rw [same]
        rcases lost with forgotten | missed
        · exact .inl (forgotten_caller forgotten _)
        · have late := (missed_live.mp missed).2
          have stopped : (flags stage shouldStop).isStopped = true := by
            rcases late with rfl | rfl | rfl <;> rfl
          rw [stopped, if_pos rfl]
          exact .inr missed
    | release j =>
      cases now
      obtain ⟨stage, shouldStop, n, rfl⟩ := orderly.calls rfl found
      have forgotten := forgotten_of_lost lost (by decide)
      have inside : stage ≠ .exited := by
        rintro rfl
        exact absurd (early_of_forgotten forgotten) (by decide)
      have same := release_live stage shouldStop n
      rw [if_neg inside] at same
      refine stuck_attend found ?_ (.inl ?_)
      · rw [same]
        rfl
      · rw [same]
        exact forgotten

theorem Stuck.step (stuck : self.Stuck) (orderly : self.Orderly) (turn : Turn) : (self.step turn).Stuck := by
  cases turn with
  | scheduler refused => exact stuck.perform orderly refused
  | worker j =>
    unfold Scheduler.step
    dsimp only
    split
    next => exact stuck
    next own mine =>
      rcases stuck with failed | ⟨i, now, worker, found, lost⟩
      · exact .inl failed
      · by_cases same : j = i
        · subst same
          obtain rfl : own = worker := Option.some.inj (mine.symm.trans found)
          obtain ⟨stage, shouldStop, caller, n, rfl, _⟩ := orderly.leaves now found
          refine .inr ⟨j, now, _, ?_, lost_advance lost⟩
          exact List.getElem?_set_self (List.getElem?_eq_some_iff.mp mine).1
        · refine .inr ⟨i, now, worker, ?_, lost⟩
          exact (List.getElem?_set_ne same).trans found

theorem Stuck.run (stuck : self.Stuck) (orderly : self.Orderly) (turns : List Turn) :
    (turns.foldl Scheduler.step self).Stuck := by
  induction turns generalizing self with
  | nil => exact stuck
  | cons turn turns ih => exact ih (stuck.step orderly turn) (orderly.step turn)

/-- No thread is refused, a worker has cleared its flag when it is stopped, and it does not
come to its end between the test of its flag by the join and the end of the loop there. -/
def Timely (self : Scheduler) : Turn → Prop
  | .scheduler refused => match self.duty with
    | .create _ => refused = false
    | .stop i => ∀ worker ∈ self.pool[i]?, worker.started ≠ [.clearShouldStop]
    | .join i => ∀ worker ∈ self.pool[i]?, worker.started ≠ [.clearStartRequested]
    | _ => True
  | .worker i => self.duty = .wait i → ∀ worker ∈ self.pool[i]?, worker.started ≠ [.setIsStopped]

instance (self : Scheduler) (turn : Turn) : Decidable (self.Timely turn) := by
  unfold Timely
  split
  · split <;> infer_instance
  · infer_instance

theorem free_of_plain (plain : leaving self.duty = none) (started : self.duty ≠ .failed) : ¬ self.Stuck := by
  rintro (failed | ⟨j, now, _⟩)
  · exact started failed
  · rw [Option.mem_def, plain] at now
    cases now

theorem free_attend {move : Move} {next : Caller → Duty} {ended : Duty} (plain : leaving ended = none) (started : ended ≠ .failed)
    (free : ∀ worker, self.pool[i]? = some worker → next (worker.step move).caller ≠ .failed ∧
      ∀ j, leaving (next (worker.step move).caller) = some j →
        j = i ∧ ¬ (Forgotten (worker.step move) ∨ Missed (worker.step move))) :
    ¬ (self.attend i move next ended).Stuck := by
  cases found : self.pool[i]? with
  | none =>
    rw [attend_none found]
    exact free_of_plain plain started
  | some worker =>
    obtain ⟨kept, others⟩ := free worker found
    rw [attend_some found]
    rintro (failed | ⟨j, now, other, member, lost⟩)
    · exact kept failed
    · obtain ⟨rfl, sound⟩ := others j now
      rcases set_cases found member with ⟨-, rfl⟩ | ⟨away, -⟩
      · exact sound lost
      · exact absurd rfl away

/-- A request that has come through is kept, and an end in time is seen. -/
theorem sound_advance {stage : Wrapper} {shouldStop : Bool} {caller : Caller} {n : Nat}
    (sound : ¬ (Forgotten (live stage shouldStop caller n) ∨ Missed (live stage shouldStop caller n)))
    (timely : caller = .wait .join → stage ≠ .setIsStopped) :
    ¬ (Forgotten ((live stage shouldStop caller n).step (.advance 0 false)) ∨
      Missed ((live stage shouldStop caller n).step (.advance 0 false))) := by
  obtain ⟨m, same, _⟩ := advance_live stage shouldStop caller n
  rw [same]
  rw [forgotten_live, missed_live] at sound ⊢
  cases stage <;> cases shouldStop <;> simp_all [Early, Late, after]

section Duties

variable {pool : List Thread} {refused : Bool}

theorem free_stop (orderly : Orderly { pool, duty := .stop i })
    (timely : Timely { pool, duty := .stop i } (.scheduler refused)) :
    ¬ (Scheduler.perform { pool, duty := .stop i } refused).Stuck := by
  refine free_attend rfl (by decide) fun worker found => ⟨by simp, fun j now => ?_⟩
  obtain ⟨stage, n, rfl⟩ := orderly.runs rfl found
  have fresh := timely _ found
  cases now
  refine ⟨rfl, ?_⟩
  rw [stop_live, forgotten_live, missed_live]
  simpa [live] using fresh

theorem free_broadcast (orderly : Orderly { pool, duty := .broadcast i }) (free : ¬ Stuck { pool, duty := .broadcast i }) :
    ¬ (Scheduler.perform { pool, duty := .broadcast i } refused).Stuck := by
  refine free_attend rfl (by decide) fun worker found => ⟨by simp, fun j now => ?_⟩
  obtain ⟨stage, shouldStop, n, rfl⟩ := orderly.calls rfl found
  cases now
  refine ⟨rfl, ?_⟩
  rintro (forgotten | missed)
  · exact free (.inr ⟨i, rfl, _, found, .inl (forgotten_caller forgotten .broadcast)⟩)
  · cases missed.1

theorem free_join (orderly : Orderly { pool, duty := .join i }) (free : ¬ Stuck { pool, duty := .join i })
    (timely : Timely { pool, duty := .join i } (.scheduler refused)) :
    ¬ (Scheduler.perform { pool, duty := .join i } refused).Stuck := by
  refine free_attend rfl (by decide) fun worker found => ?_
  obtain ⟨stage, shouldStop, n, rfl⟩ := orderly.calls rfl found
  have ending := timely _ found
  rw [join_live]
  by_cases ended : Over stage
  · simp [ended, live, leaving]
  · refine ⟨by simp [ended, live], fun j now => ?_⟩
    simp only [ended, live, if_false, leaving, reduceCtorEq, Option.some.injEq] at now
    refine ⟨now.symm, ?_⟩
    rw [if_neg ended]
    rintro (forgotten | missed)
    · exact free (.inr ⟨i, rfl, _, found, .inl (forgotten_caller forgotten .idle)⟩)
    · rcases (missed_live.mp missed).2 with rfl | late
      · exact ending rfl
      · exact ended late

theorem free_wait (orderly : Orderly { pool, duty := .wait i }) (free : ¬ Stuck { pool, duty := .wait i }) :
    ¬ (Scheduler.perform { pool, duty := .wait i } refused).Stuck := by
  refine free_attend rfl (by decide) fun worker found => ?_
  obtain ⟨stage, shouldStop, n, rfl⟩ := orderly.calls rfl found
  rw [poll_live]
  by_cases stopped : (flags stage shouldStop).isStopped
  · rw [if_pos stopped]
    refine ⟨by simp [live], fun j now => ?_⟩
    cases now
    exact ⟨rfl, fun lost => free (.inr ⟨i, rfl, _, found, lost⟩)⟩
  · rw [if_neg stopped]
    refine ⟨by simp [live], fun j now => ?_⟩
    cases now
    refine ⟨rfl, ?_⟩
    rintro (forgotten | missed)
    · exact free (.inr ⟨i, rfl, _, found, .inl (forgotten_caller forgotten _)⟩)
    · cases missed.1

theorem free_release (orderly : Orderly { pool, duty := .release i }) (free : ¬ Stuck { pool, duty := .release i }) :
    ¬ (Scheduler.perform { pool, duty := .release i } refused).Stuck := by
  refine free_attend rfl (by decide) fun worker found => ?_
  obtain ⟨stage, shouldStop, n, rfl⟩ := orderly.calls rfl found
  rw [release_live]
  by_cases exited : stage = .exited
  · simp [exited, live, leaving]
  · rw [if_neg exited]
    refine ⟨by simp [live], fun j now => ?_⟩
    cases now
    exact ⟨rfl, fun lost => free (.inr ⟨i, rfl, _, found, lost⟩)⟩

end Duties

theorem free_perform (orderly : self.Orderly) (free : ¬ self.Stuck) {refused : Bool}
    (timely : self.Timely (.scheduler refused)) : ¬ (self.perform refused).Stuck := by
  obtain ⟨pool, duty⟩ := self
  cases duty with
  | start i => exact free_attend rfl (by decide) fun worker _ => ⟨by simp, fun j now => by cases now⟩
  | create i =>
    obtain rfl : refused = false := timely
    exact free_attend rfl (by decide) fun worker _ => ⟨by simp, fun j now => by cases now⟩
  | stop i => exact free_stop orderly timely
  | broadcast i => exact free_broadcast orderly free
  | join i => exact free_join orderly free timely
  | wait i => exact free_wait orderly free
  | release i => exact free_release orderly free
  | serve => exact free_of_plain rfl (by simp [Scheduler.perform])
  | active i =>
    unfold Scheduler.perform
    dsimp only
    split
    · exact free_of_plain rfl (by simp)
    · exact free_of_plain rfl (by simp)
  | failed => exact absurd (.inl rfl) free
  | done => exact free

theorem free_step (orderly : self.Orderly) (free : ¬ self.Stuck) {turn : Turn} (timely : self.Timely turn) :
    ¬ (self.step turn).Stuck := by
  cases turn with
  | scheduler refused => exact free_perform orderly free timely
  | worker i =>
    unfold Scheduler.step
    dsimp only
    split
    next => exact free
    next worker found =>
      rintro (failed | ⟨j, now, other, member, lost⟩)
      · exact free (.inl failed)
      · rcases set_cases found member with ⟨rfl, rfl⟩ | ⟨-, mine⟩
        · obtain ⟨stage, shouldStop, caller, n, rfl, waits⟩ := orderly.leaves now found
          refine sound_advance (fun lost => free (.inr ⟨j, now, _, found, lost⟩)) (fun waiting ending => ?_) lost
          exact timely (waits waiting) _ found (congrArg (fun stage => [stage]) ending)
        · exact free (.inr ⟨j, now, other, mine, lost⟩)

/-- The steps left to a worker that is to stop. -/
def stageRank : Wrapper → Nat
  | .clearShouldStop => 7
  | .clearIsStopped => 6
  | .iteration => 5
  | .test => 4
  | .setIsStopped => 3
  | .clearStartRequested => 2
  | .exit => 1
  | .exited => 0

def remaining (worker : Thread) : Nat := (worker.started.head?.map stageRank).getD 8

/-- The steps left to the scheduler. -/
def dutyRank (workers : Nat) : Duty → Nat
  | .start i => 6 * workers + 2 * (workers - i) + 10
  | .create i => 6 * workers + 2 * (workers - i) + 9
  | .failed => 0
  | .serve => 6 * workers + 8
  | .stop i => workers + 5 * (workers - i) + 7
  | .broadcast i => workers + 5 * (workers - i) + 6
  | .join i => workers + 5 * (workers - i) + 5
  | .wait i => workers + 5 * (workers - i) + 4
  | .release i => workers + 5 * (workers - i) + 3
  | .active i => workers - i + 1
  | .done => 0

def rank (self : Scheduler) : Nat := (self.pool.map remaining).sum + dutyRank self.pool.length self.duty

theorem sum_set (found : self.pool[i]? = some worker) (other : Thread) :
    ((self.pool.set i other).map remaining).sum + remaining worker = (self.pool.map remaining).sum + remaining other := by
  obtain ⟨bound, rfl⟩ := List.getElem?_eq_some_iff.mp found
  have before := ((List.getElem_cons_eraseIdx_perm bound).map remaining).sum_eq
  have later := ((List.set_perm_cons_eraseIdx bound other).map remaining).sum_eq
  rw [List.map_cons, List.sum_cons] at before later
  omega

theorem rank_attend {move : Move} {next : Caller → Duty} {ended : Duty} (found : self.pool[i]? = some worker)
    (less : dutyRank self.pool.length (next (worker.step move).caller) < dutyRank self.pool.length self.duty)
    (same : remaining (worker.step move) ≤ remaining worker) : (self.attend i move next ended).rank < self.rank := by
  have sums := sum_set found (worker.step move)
  rw [attend_some found]
  simp only [rank, List.length_set]
  omega

theorem rank_over {move : Move} {next : Caller → Duty} {ended : Duty} (absent : self.pool[i]? = none)
    (less : dutyRank self.pool.length ended < dutyRank self.pool.length self.duty) :
    (self.attend i move next ended).rank < self.rank := by
  rw [attend_none absent]
  exact Nat.add_lt_add_left less _

theorem rank_worker {stage : Wrapper} {shouldStop : Bool} {caller : Caller} {n : Nat}
    (found : self.pool[i]? = some (live stage shouldStop caller n))
    (less : stageRank (after shouldStop stage).1 < stageRank stage) : (self.step (.worker i)).rank < self.rank := by
  obtain ⟨m, same, _⟩ := advance_live stage shouldStop caller n
  have sums := sum_set found (live (after shouldStop stage).1 (after shouldStop stage).2 caller m)
  simp only [Scheduler.step, found, same, rank, List.length_set]
  simp only [remaining, live, List.head?_cons, Option.map_some, Option.getD_some] at sums less ⊢
  omega

/-- A step that is in time and brings the scheduler closer to the end. -/
def Advances (self : Scheduler) : Prop := ∃ turn, self.Timely turn ∧ (self.step turn).rank < self.rank

section Leaving
variable {stage : Wrapper} {shouldStop : Bool} {n : Nat} {pool : List Thread}

theorem advances_stop (found : pool[i]? = some (live stage false .idle n)) : Advances { pool, duty := .stop i } := by
  by_cases fresh : stage = .clearShouldStop
  · subst fresh
    exact ⟨.worker i, fun now => (by cases now), rank_worker found (by decide)⟩
  · refine ⟨.scheduler false, fun worker member => ?_, rank_attend found ?_ (Nat.le_refl _)⟩
    · cases found.symm.trans member
      simpa [live] using fresh
    · simp [dutyRank]

theorem advances_join (found : pool[i]? = some (live stage shouldStop .idle n)) : Advances { pool, duty := .join i } := by
  have inside : i < pool.length := (List.getElem?_eq_some_iff.mp found).1
  have joined := join_live stage shouldStop n
  by_cases ending : stage = .clearStartRequested
  · subst ending
    exact ⟨.worker i, fun now => (by cases now), rank_worker found (by cases shouldStop <;> decide)⟩
  · refine ⟨.scheduler false, fun worker member => ?_, rank_attend found ?_ ?_⟩
    · cases found.symm.trans member
      simpa [live] using ending
    · rw [joined]
      by_cases ended : Over stage
      · simp only [ended, live, if_true, dutyRank]
        omega
      · simp [ended, live, dutyRank]
    · rw [joined]
      exact Nat.le_refl _

theorem advances_wait (free : ¬ Stuck { pool, duty := .wait i })
    (found : pool[i]? = some (live stage shouldStop (.wait .join) n)) : Advances { pool, duty := .wait i } := by
  have polled := poll_live stage shouldStop n
  by_cases ready : (flags stage shouldStop).isStopped
  · obtain rfl : stage = .clearIsStopped := by
      cases stage with
      | clearIsStopped => rfl
      | clearShouldStop =>
        exact absurd (.inr ⟨i, rfl, _, found, .inl (forgotten_live.mpr (.inl rfl))⟩) free
      | test | iteration | setIsStopped => cases ready
      | clearStartRequested | exit | exited =>
        exact absurd (.inr ⟨i, rfl, _, found, .inr (missed_live.mpr ⟨rfl, by decide⟩)⟩) free
    refine ⟨.worker i, fun _ worker member => ?_, rank_worker found (by cases shouldStop <;> decide)⟩
    cases found.symm.trans member
    simp [live]
  · rw [if_neg ready] at polled
    refine ⟨.scheduler false, trivial, rank_attend found ?_ ?_⟩
    · rw [polled]
      simp [live, dutyRank]
    · rw [polled]
      exact Nat.le_refl _

theorem advances_release (free : ¬ Stuck { pool, duty := .release i })
    (found : pool[i]? = some (live stage shouldStop (.part .join) n)) : Advances { pool, duty := .release i } := by
  have inside : i < pool.length := (List.getElem?_eq_some_iff.mp found).1
  by_cases exited : stage = .exited
  · subst exited
    have released := release_live .exited shouldStop n
    refine ⟨.scheduler false, trivial, rank_attend found ?_ ?_⟩
    · rw [released]
      simp only [live, if_true, dutyRank]
      omega
    · rw [released]
      exact Nat.le_refl _
  · have requested : Early stage → shouldStop = true := by
      intro early
      cases shouldStop with
      | true => rfl
      | false => exact absurd (.inr ⟨i, rfl, _, found, .inl (forgotten_live.mpr (.inr ⟨rfl, early⟩))⟩) free
    refine ⟨.worker i, fun now => (by cases now), rank_worker found ?_⟩
    cases stage with
    | test =>
      rw [requested (by decide)]
      decide
    | exited => exact absurd rfl exited
    | clearShouldStop | clearIsStopped | iteration => cases shouldStop <;> decide
    | setIsStopped | clearStartRequested | exit => cases shouldStop <;> decide

end Leaving

/-- The worker that the next step of the scheduler is for. -/
def addressee : Duty → Option Nat
  | .start i | .create i | .stop i | .broadcast i | .join i | .wait i | .release i => some i
  | _ => none

theorem advances_over (absent : self.pool[i]? = none) (now : addressee self.duty = some i) : self.Advances := by
  obtain ⟨pool, duty⟩ := self
  cases duty with
  | failed | serve | active | done => cases now
  | create j =>
    cases now
    exact ⟨.scheduler false, rfl, rank_over absent (by simp only [dutyRank]; omega)⟩
  | stop j | join j =>
    cases now
    refine ⟨.scheduler false, fun worker member => ?_, rank_over absent (by simp only [dutyRank]; omega)⟩
    cases absent.symm.trans member
  | start j | broadcast j | wait j | release j =>
    cases now
    exact ⟨.scheduler false, trivial, rank_over absent (by simp only [dutyRank]; omega)⟩

/-- One that is not stuck has a step that brings it closer to the end. -/
theorem advances (orderly : self.Orderly) (free : ¬ self.Stuck) (going : self.duty ≠ .done) : self.Advances := by
  obtain ⟨pool, duty⟩ := self
  have within (i : Nat) (now : addressee duty = some i)
      (one : ∀ worker, pool[i]? = some worker → Advances { pool, duty }) : Advances { pool, duty } := by
    cases found : pool[i]? with
    | none => exact advances_over found now
    | some worker => exact one worker found
  cases duty with
  | start i =>
    refine within i rfl fun worker found => ?_
    have fresh := orderly i worker found
    simp only [phase, Nat.lt_irrefl, if_false] at fresh
    cases fresh
    exact ⟨.scheduler false, trivial, rank_attend found (by simp [dutyRank]) (Nat.le_refl _)⟩
  | create i =>
    refine within i rfl fun worker found => ?_
    have inside : i < pool.length := (List.getElem?_eq_some_iff.mp found).1
    have starting := orderly i worker found
    simp only [phase, Nat.lt_irrefl, if_false, if_true] at starting
    cases starting
    exact ⟨.scheduler false, rfl, rank_attend found (by simp [dutyRank]; omega) (by decide)⟩
  | serve => exact ⟨.scheduler false, trivial, by simp only [Scheduler.step, Scheduler.perform, rank, dutyRank]; omega⟩
  | stop i =>
    refine within i rfl fun worker found => ?_
    obtain ⟨stage, n, rfl⟩ := orderly.runs rfl found
    exact advances_stop found
  | broadcast i =>
    refine within i rfl fun worker found => ?_
    obtain ⟨stage, shouldStop, n, rfl⟩ := orderly.calls rfl found
    exact ⟨.scheduler false, trivial, rank_attend found (by simp [dutyRank]) (Nat.le_refl _)⟩
  | join i =>
    refine within i rfl fun worker found => ?_
    obtain ⟨stage, shouldStop, n, rfl⟩ := orderly.calls rfl found
    exact advances_join found
  | wait i =>
    refine within i rfl fun worker found => ?_
    obtain ⟨stage, shouldStop, n, rfl⟩ := orderly.calls rfl found
    exact advances_wait free found
  | release i =>
    refine within i rfl fun worker found => ?_
    obtain ⟨stage, shouldStop, n, rfl⟩ := orderly.calls rfl found
    exact advances_release free found
  | active i =>
    refine ⟨.scheduler false, trivial, ?_⟩
    simp only [Scheduler.step, Scheduler.perform]
    split
    next absent => simp [rank, dutyRank]
    next worker found =>
      have inside : i < pool.length := (List.getElem?_eq_some_iff.mp found).1
      obtain ⟨stage, shouldStop, n, rfl, out⟩ := orderly i worker found
      have idle : (live stage shouldStop .idle n).worker.isActive = false := by
        rcases out with rfl | rfl <;> rfl
      rw [idle]
      simp only [rank, dutyRank, Bool.false_eq_true, if_false]
      omega
  | failed => exact absurd (.inl rfl) free
  | done => exact absurd rfl going

theorem completes (orderly : self.Orderly) (free : ¬ self.Stuck) :
    ∃ turns : List Turn, (turns.foldl Scheduler.step self).duty = .done := by
  induction bound : self.rank using Nat.strongRecOn generalizing self with
  | ind bound ih =>
    by_cases done : self.duty = .done
    · exact ⟨[], done⟩
    · obtain ⟨turn, timely, less⟩ := advances orderly free done
      subst bound
      obtain ⟨turns, ends⟩ := ih _ less (orderly.step turn) (free_step orderly free timely) rfl
      exact ⟨turn :: turns, ends⟩

theorem run_append (workers : Nat) (turns more : List Turn) :
    run workers (turns ++ more) = more.foldl Scheduler.step (run workers turns) := List.foldl_append

/-- At every point of every run the shutdown can still come to its end, unless a thread was
refused or the worker being stopped has lost its request or was missed by the join. -/
theorem shutdown_iff (workers : Nat) (turns : List Turn) :
    (∃ more, (run workers (turns ++ more)).duty = .done) ↔ ¬ (run workers turns).Stuck := by
  constructor
  · rintro ⟨more, ends⟩ stuck
    rw [run_append] at ends
    rcases stuck.run (orderly_run workers turns) more with failed | ⟨i, now, _⟩
    · rw [ends] at failed
      cases failed
    · rw [ends] at now
      cases now
  · intro free
    obtain ⟨more, ends⟩ := completes (orderly_run workers turns) free
    exact ⟨more, by rw [run_append]; exact ends⟩

/-- A run in time can always come to the end of its shutdown. -/
theorem shutdown_completes (workers : Nat) (turns : List Turn)
    (timely : Along (fun scheduler turn => some (scheduler.step turn)) Timely (create workers) turns) :
    ∃ more, (run workers (turns ++ more)).duty = .done := by
  have kept : (run workers turns).Orderly ∧ ¬ (run workers turns).Stuck := by
    refine @invariant_along _ _ Scheduler.step Timely (fun scheduler => scheduler.Orderly ∧ ¬ scheduler.Stuck)
      (fun _ turn kept timely => ⟨kept.1.step turn, free_step kept.1 kept.2 timely⟩) _ _ ?_ timely
    exact ⟨orderly_create workers, free_of_plain rfl (by simp [create])⟩
  exact (shutdown_iff workers turns).mpr kept.2

/-- A pool of two that serves, and its shutdown up to the join of the second worker. -/
def joining : List Turn := List.flatten
  [List.replicate 5 (.scheduler false), List.replicate 4 (.worker 0), List.replicate 3 (.worker 1),
    List.replicate 5 (.scheduler false), List.replicate 6 (.worker 0), List.replicate 5 (.scheduler false)]

theorem shutdown_completes_joining :
    (run 2 joining).duty = .release 1 ∧ ∃ more, (run 2 (joining ++ more)).duty = .done :=
  ⟨by decide, shutdown_completes 2 joining (by decide)⟩

/-- A worker that has not begun to run when it is stopped takes the request back. -/
example : (run 1 (List.replicate 6 (.scheduler false))).Stuck := by decide

/-- Nothing moves but threads that exit. -/
structure Ended (self after : Scheduler) : Prop where
  done : after.duty = .done
  iterations : after.pool.map (·.iterations) = self.pool.map (·.iterations)

theorem Ended.step {after : Scheduler} (ended : Ended self after) (orderly : after.Orderly) (turn : Turn) :
    Ended self (after.step turn) := by
  obtain ⟨done, same⟩ := ended
  cases turn with
  | scheduler refused =>
    have stays : after.perform refused = after := by
      unfold Scheduler.perform
      rw [done]
    simp only [Scheduler.step]
    rw [stays]
    exact ⟨done, same⟩
  | worker i =>
    unfold Scheduler.step
    dsimp only
    split
    next => exact ⟨done, same⟩
    next worker found =>
      refine ⟨done, Eq.trans ?_ same⟩
      have fits := orderly i worker found
      rw [done] at fits
      obtain ⟨stage, shouldStop, n, rfl, ended⟩ := fits
      obtain ⟨m, live, kept⟩ := advance_live stage shouldStop .idle n
      have out : ¬ Early stage := by rcases ended with rfl | rfl <;> decide
      obtain ⟨bound, mine⟩ := List.getElem?_eq_some_iff.mp found
      have inside : i < (after.pool.map (·.iterations)).length := by simpa using bound
      have count : n = (after.pool.map (·.iterations))[i] := by
        rw [List.getElem_map, mine]
        rfl
      rw [live, kept out, List.map_set]
      exact (congrArg _ count).trans (List.set_getElem_self inside)

/-- When the shutdown is over it stays so, no worker is active, and none enters the body of
its loop again. -/
theorem shutdown_safe (workers : Nat) (turns more : List Turn) (ends : (run workers turns).duty = .done) :
    (run workers (turns ++ more)).duty = .done ∧
    (∀ worker ∈ (run workers (turns ++ more)).pool, ¬ worker.worker.isActive) ∧
    (run workers (turns ++ more)).pool.map (·.iterations) = (run workers turns).pool.map (·.iterations) := by
  have later : Ended (run workers turns) (run workers (turns ++ more)) ∧ (run workers (turns ++ more)).Orderly := by
    rw [run_append]
    refine @List.foldlRecOn _ _ (fun scheduler => Ended (run workers turns) scheduler ∧ scheduler.Orderly) more
      Scheduler.step _ ?_ fun _ kept turn _ => ?_
    · exact ⟨⟨ends, rfl⟩, orderly_run workers turns⟩
    · exact ⟨kept.1.step kept.2 turn, kept.2.step turn⟩
  obtain ⟨⟨done, same⟩, orderly⟩ := later
  refine ⟨done, fun worker member => ?_, same⟩
  obtain ⟨j, found⟩ := List.mem_iff_getElem?.mp member
  have fits := orderly j worker found
  rw [done] at fits
  obtain ⟨stage, shouldStop, n, rfl, ended⟩ := fits
  rcases ended with rfl | rfl
  all_goals exact Bool.false_ne_true

def stopped : List Turn := joining ++ List.replicate 6 (.worker 1) ++ List.replicate 5 (.scheduler false)

theorem shutdown_safe_stopped :
    (run 2 (stopped ++ [.worker 0])).duty = .done ∧
    (∀ worker ∈ (run 2 (stopped ++ [.worker 0])).pool, ¬ worker.worker.isActive) ∧
    (run 2 (stopped ++ [.worker 0])).pool.map (·.iterations) = (run 2 stopped).pool.map (·.iterations) :=
  shutdown_safe 2 stopped [.worker 0] (by decide)

end LibWebserver.Scheduler
