import LibWebserver.Connection
import LibWebserver.KQueue

/-! `Perform` over a batch of ready events. A handler may do anything a program can
do to the poll and to the events in it, and close any of them. What `Perform` looks
at, and which handlers it calls, is recorded in order. -/

namespace LibWebserver

inductive Branch where
  | error
  | read
  | write
  deriving DecidableEq, Repr

/-- What `Perform` did with an event: looked at its state and descriptor, or called a
handler. A call carries the branches the kernel reported for the entry, the events
`Close` was called for in it, and whether it returned. -/
inductive Touch where
  | look (event : Nat)
  | call (branch : Branch) (event : Nat) (reported : List Branch) (closed : List Nat) (returned : Bool)
  deriving DecidableEq, Repr

/-- What a handler does, one thing after another. -/
inductive Effect where
  | close (event : Nat)
  | change (state : Nat → State) (descriptor : Nat → Int) (table : List UInt32)
  | throw

/-- A poll with a batch of events, of either kind. -/
class Multiplexer (π : Type) where
  eventMask : π → Int → UInt32
  setTable : π → List UInt32 → π
  closeEvent : π → Nat → Int → Except Exception π
  bit : Branch → UInt32
  /-- The event an entry of the batch points to, when it is not null. -/
  event : π → Nat → Option Nat

instance : Multiplexer Poll where
  eventMask := Poll.eventMask
  setTable self table := { self with table }
  closeEvent := Poll.closeEvent
  bit
    | .error => Poll.EPOLLERR
    | .read => Poll.EPOLLIN
    | .write => Poll.EPOLLOUT
  event self i := self.events[i]?.bind (·.ptr)

instance : Multiplexer PollKQueue where
  eventMask := PollKQueue.eventMask
  setTable self table := { self with table }
  closeEvent := PollKQueue.closeEvent
  bit
    | .error => PollKQueue.flagError
    | .read => PollKQueue.flagRead
    | .write => PollKQueue.flagWrite
  event self i := self.events[i]?.bind (·.udata)

structure Dispatch (π : Type) where
  poll : π
  state : Nat → State
  descriptor : Nat → Int
  trace : List Touch := []
  returned : Bool := true

namespace Dispatch

variable {π : Type} [Multiplexer π]

/-- The effects of a handler, with the events it closed. An exception leaves it, and
`Perform` too, since nothing in between catches any. -/
def perform (self : Dispatch π) : List Effect → Dispatch π × List Nat
  | [] => (self, [])
  | .throw :: _ => ({ self with returned := false }, [])
  | .change state descriptor table :: effects =>
    perform { self with poll := Multiplexer.setTable self.poll table, state, descriptor } effects
  | .close event :: effects =>
    match Multiplexer.closeEvent self.poll event (self.descriptor event) with
    | .error _ => ({ self with returned := false }, [event])
    | .ok poll =>
      let (after, closed) := perform { self with poll } effects
      (after, event :: closed)

def isInactive (self : Dispatch π) (event : Nat) : Bool :=
  self.state event = .inactive ∨ self.state event = .closing

/-- A handler is called with all that has been done so far. -/
abbrev Handlers := List Touch → Branch → Nat → List Effect

def call (handlers : Handlers) (reported : List Branch) (branch : Branch) (event : Nat) (self : Dispatch π) : Dispatch π :=
  let (after, closed) := self.perform (handlers self.trace branch event)
  { after with trace := self.trace ++ [.call branch event reported closed after.returned] }

/-- One branch of an entry, for the event loaded at its start. -/
def branch (handlers : Handlers) (event : Option Nat) (reported : List Branch) (self : Dispatch π) (branch : Branch) :
    Dispatch π :=
  if ¬ self.returned ∨ branch ∉ reported then self
  else match event with
    | none => self
    | some event =>
      let looked := { self with trace := self.trace ++ [.look event] }
      if self.isInactive event then looked
      else if Multiplexer.eventMask self.poll (self.descriptor event) &&& Multiplexer.bit π branch = 0 then looked
      else looked.call handlers reported branch event

end Dispatch

namespace Poll

/-- The branches an entry reports. -/
def reported (events : UInt32) : List Branch :=
  [.error, .read, .write].filter fun branch => events &&& Multiplexer.bit Poll branch ≠ 0

def entry (handlers : Dispatch.Handlers) (self : Dispatch Poll) (i : Nat) : Dispatch Poll :=
  match self.poll.events[i]? with
  | none => self
  | some ready => [.error, .read, .write].foldl (Dispatch.branch handlers ready.ptr (reported ready.events)) self

def perform (handlers : Dispatch.Handlers) (self : Dispatch Poll) : Dispatch Poll :=
  let after := (List.range self.poll.events.length).foldl (entry handlers) self
  if after.returned then { after with poll := { after.poll with events := [] } } else after

end Poll

namespace PollKQueue

def reported : Filter → List Branch
  | .read => [.read]
  | .write => [.write]
  | .other _ => []

/-- The text of an error names the descriptor of the event. -/
def entry (handlers : Dispatch.Handlers) (self : Dispatch PollKQueue) (i : Nat) : Dispatch PollKQueue :=
  if ¬ self.returned then self
  else match self.poll.events[i]? with
    | none => self
    | some ready => match ready.error with
      | some error =>
        if error = EBADF ∨ error = EINVAL ∨ error = ENOENT then self
        else { self with trace := self.trace ++ (ready.udata.map .look).toList, returned := false }
      | none => [.read, .write].foldl (Dispatch.branch handlers ready.udata (reported ready.filter)) self

def perform (handlers : Dispatch.Handlers) (self : Dispatch PollKQueue) : Dispatch PollKQueue :=
  let after := (List.range self.poll.events.length).foldl (entry handlers) self
  if after.returned then { after with poll := { after.poll with events := [] } } else after

end PollKQueue
end LibWebserver
