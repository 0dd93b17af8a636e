import LibWebserver.Thread

/-! The scheduler of the demo with its pool of workers. It starts them one after another. On
shutdown it stops and joins them in the same order and then waits until none is active. -/

namespace LibWebserver

/-- Where the scheduler is. -/
inductive Duty where
  /-- `StartWorkers_`, in `Start` of a worker, before and behind the write of its flag. -/
  | start (i : Nat)
  | create (i : Nat)
  /-- `Start` has thrown, and `Setup` with it. -/
  | failed
  /-- The loop of `Run`. -/
  | serve
  /-- `StopWorkers_`, in `Stop` of a worker, before and behind the write of its flag. -/
  | stop (i : Nat)
  | broadcast (i : Nat)
  /-- In its `Join`, at the test of the flag, in the loop and at the call of the system. -/
  | join (i : Nat)
  | wait (i : Nat)
  | release (i : Nat)
  /-- `ArePoolsActive`, at a worker. -/
  | active (i : Nat)
  | done
  deriving DecidableEq, Repr

structure Scheduler where
  pool : List Thread
  duty : Duty := .start 0
  deriving DecidableEq, Repr

namespace Scheduler

/-- Who moves next. The system may refuse to create a thread. -/
inductive Turn where
  | scheduler (refused : Bool)
  | worker (i : Nat)
  deriving DecidableEq, Repr

variable (self : Scheduler)

/-- One step of a call on a worker, or the end of the loop over the pool. -/
def attend (i : Nat) (move : Move) (next : Caller → Duty) (ending : Duty) : Scheduler :=
  match self.pool[i]? with
  | none => { self with duty := ending }
  | some worker => { pool := self.pool.set i (worker.step move), duty := next (worker.step move).caller }

def perform (refused : Bool) : Scheduler :=
  match self.duty with
  | .start i => self.attend i .start (fun _ => .create i) .serve
  | .create i => self.attend i (.create refused) (fun _ => if refused then .failed else .start (i + 1)) .serve
  | .serve => { self with duty := .stop 0 }
  | .stop i => self.attend i .stop (fun _ => .broadcast i) (.active 0)
  | .broadcast i => self.attend i .broadcast (fun _ => .join i) (.active 0)
  | .join i => self.attend i (.part .join) (fun caller => if caller = .idle then .stop (i + 1) else .wait i) (.active 0)
  | .wait i => self.attend i .poll (fun caller => if caller = .part .join then .release i else .wait i) (.active 0)
  | .release i => self.attend i .release (fun caller => if caller = .idle then .stop (i + 1) else .release i) (.active 0)
  | .active i => match self.pool[i]? with
    | none => { self with duty := .done }
    -- an active worker ends the scan, and the next one begins a second later
    | some worker => { self with duty := .active (if worker.worker.isActive then 0 else i + 1) }
  | .failed | .done => self

/-- `BaseWorker::Run` leaves its loop at the test only. -/
def step : Turn → Scheduler
  | .scheduler refused => self.perform refused
  | .worker i => match self.pool[i]? with
    | none => self
    | some worker => { self with pool := self.pool.set i (worker.step (.advance 0 false)) }

def create (workers : Nat) : Scheduler := { pool := List.replicate workers { detached := false } }

def run (workers : Nat) (turns : List Turn) : Scheduler := turns.foldl step (create workers)

end Scheduler
end LibWebserver
