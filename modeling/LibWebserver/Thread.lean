import LibWebserver.Library.Refinement

/-! A thread that runs a worker, and the one that controls it. Every read or write
of a flag is a step of its own. -/

namespace LibWebserver

structure Worker where
  shouldStop : Bool := false
  isStopped : Bool := true
  startRequested : Bool := false
  deriving DecidableEq, Repr

def Worker.isActive (self : Worker) : Bool := !self.isStopped

/-- Where a started thread is in `Wrapper_`. -/
inductive Wrapper where
  /-- `ClearStoppedStatus`, at either of its writes. -/
  | clearShouldStop
  | clearIsStopped
  /-- `Run`, at the test of `while (!ShouldStop())` or in the body. -/
  | test
  | iteration
  /-- `SetStoppedStatus`, at either of its writes. -/
  | setIsStopped
  | clearStartRequested
  | exit
  | exited
  deriving DecidableEq, Repr

/-- What ends the care for a thread. -/
inductive Parting where
  | join
  | detach
  deriving DecidableEq, Repr

/-- Where the controlling thread is. -/
inductive Caller where
  | idle
  /-- `Start`, behind the write of the flag. -/
  | create
  /-- `Stop`, behind the write of the flag. -/
  | broadcast
  /-- `Join` or `Detach`, in the loop `while (!IsActive())`. -/
  | wait (parting : Parting)
  /-- `Join` or `Detach`, at the call of the system. -/
  | part (parting : Parting)
  deriving DecidableEq, Repr

structure Thread where
  detached : Bool
  worker : Worker := {}
  /-- One for each `pthread_create` so far, the last one of which is joined. -/
  started : List Wrapper := []
  caller : Caller := .idle
  /-- How often the body of `Run` has been entered. -/
  iterations : Nat := 0
  deriving DecidableEq, Repr

/-- Who moves next. Controlling calls follow one another in any order. -/
inductive Move where
  | start
  /-- The system may refuse to create a thread, which `Start` throws. -/
  | create (refused : Bool)
  | stop
  | broadcast
  | part (parting : Parting)
  | poll
  | release
  /-- A started thread, whose `Run` may return from the body as well. -/
  | advance (i : Nat) (returns : Bool)
  deriving DecidableEq, Repr

namespace Thread

variable (self : Thread)

/-- A started thread goes on to the next stage of `Wrapper_`. -/
def goOn (i : Nat) (stage : Wrapper) (worker : Worker) : Thread :=
  { self with worker, started := self.started.set i stage }

def advance (i : Nat) (returns : Bool) : Wrapper → Thread
  | .clearShouldStop => self.goOn i .clearIsStopped { self.worker with shouldStop := false }
  | .clearIsStopped => self.goOn i .test { self.worker with isStopped := false }
  | .test =>
    if self.worker.shouldStop then self.goOn i .setIsStopped self.worker
    else { self.goOn i .iteration self.worker with iterations := self.iterations + 1 }
  | .iteration => self.goOn i (if returns then .setIsStopped else .test) self.worker
  | .setIsStopped => self.goOn i .clearStartRequested { self.worker with isStopped := true }
  | .clearStartRequested => self.goOn i .exit { self.worker with startRequested := false }
  | .exit | .exited => self.goOn i .exited self.worker

/-- A move that is not possible changes nothing. -/
def step : Move → Thread
  | .start =>
    if self.caller = .idle then
      { self with worker := { self.worker with startRequested := true }, caller := .create }
    else self
  | .create refused =>
    if self.caller = .create then
      { self with started := if refused then self.started else self.started ++ [.clearShouldStop], caller := .idle }
    else self
  | .stop =>
    if self.caller = .idle then { self with worker := { self.worker with shouldStop := true }, caller := .broadcast }
    else self
  | .broadcast => if self.caller = .broadcast then { self with caller := .idle } else self
  | .part parting =>
    if self.caller = .idle ∧ ¬ self.detached ∧ self.worker.startRequested then { self with caller := .wait parting }
    else self
  | .poll => match self.caller with
    | .wait parting => if self.worker.isActive then { self with caller := .part parting } else self
    | _ => self
  | .release => match self.caller with
    -- a join returns when the thread has exited
    | .part .join => if self.started.getLast? = some .exited then { self with caller := .idle } else self
    | .part .detach => { self with caller := .idle }
    | _ => self
  | .advance i returns => match self.started[i]? with
    | none => self
    | some stage => self.advance i returns stage

def run (moves : List Move) : Thread := moves.foldl step self

end Thread
end LibWebserver
