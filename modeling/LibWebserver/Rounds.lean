import LibWebserver.Dispatch
import LibWebserver.HttpWorker

/-! The loop of a worker of the demo: it waits for a batch of events, calls the handlers
of the connections in it, and answers what has arrived. An exception that leaves a
handler leaves the worker too, which then gives no result. -/

namespace LibWebserver

/-- What the sockets answer to the handlers of an entry. -/
structure Answers where
  read : RecvResult
  write : List SendResult

/-- What the kernel does in a round: the batch of `epoll_wait`, unless it fails, and its
answers to each entry. -/
structure Round where
  batch : Option (List ReadyEvent)
  answers : Nat → Answers

/-- The world after an operation that did not throw. -/
def Ended.normal (self : Ended) : Option World := if self.thrown = none then some self.world else none

namespace World

def doPoll (w : World) : Option (List ReadyEvent) → World
  | some batch => w.poll ({ · with events := batch })
  | none => w

def isInactive (w : World) (c : Nat) : Bool := (w.conn c).state = .inactive ∨ (w.conn c).state = .closing

/-- The handler of a branch, when it returns. -/
def handle (w : World) (c : Nat) (answers : Answers) : Branch → Option World
  | .error => (w.eventError c).normal
  | .read => (w.eventRead c answers.read).bind (·.normal)
  | .write =>
    let run := w.eventWrite c answers.write
    if run.returned ∧ run.thrown = none then some run.world else none

/-- A branch of an entry, for the event loaded at its start. -/
def branch (answers : Answers) (ready : ReadyEvent) (w : World) (branch : Branch) : Option World :=
  match ready.ptr with
  | none => some w
  | some c =>
    if branch ∈ Poll.reported ready.events ∧ ¬ w.isInactive c ∧
        w.server.poll.eventMask (w.descriptor c) &&& Multiplexer.bit Poll branch ≠ 0 then w.handle c answers branch
    else some w

def entry (answers : Nat → Answers) (w : World) (i : Nat) : Option World :=
  match w.server.poll.events[i]? with
  | none => some w
  | some ready => [.error, .read, .write].foldlM (branch (answers i) ready) w

/-- `PollEPoll::Perform`. -/
def performPoll (answers : Nat → Answers) (w : World) : Option World :=
  ((List.range w.server.poll.events.length).foldlM (entry answers) w).map (·.poll ({ · with events := [] }))

/-- `Server::Perform`. -/
def performServer (w : World) (round : Round) : Option World := (w.doPoll round.batch).performPoll round.answers

end World

namespace HttpWorker

/-- `Process_`. -/
def process (w : World) (round : Round) : Option World := (w.performServer round).bind serve

/-- `BaseWorker::Run`, which ends with the round in which the worker is told to stop. -/
def run (w : World) (rounds : List Round) : Option World := rounds.foldlM process w

end HttpWorker
end LibWebserver
