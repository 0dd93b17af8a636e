import LibWebserver.Control

/-! The socket and the poll of a listener, from its constructor to its destructor, with
every call of the kernel allowed to fail. `poll_` is a plain pointer, which `Close` does not
clear. A call through it that finds no poll is undefined, and has no result. -/

namespace LibWebserver

/-- `io::Poll`. The kernel answers a change with the number of an error. -/
inductive Polling where
  | kqueue (poll : PollKQueue)
  | epoll (poll : Poll)

namespace Polling

variable (self : Polling) (event : Nat) (fd : Int) (refused : Option Nat)

def ofKQueue (after : Controlled PollKQueue Unit) : Polling × Option Exception := (.kqueue after.poll, after.thrown)

def ofEPoll (after : Controlled Poll Unit) : Polling × Option Exception := (.epoll after.poll, after.thrown)

/-- The answer of `kevent`. -/
def answer (_ : Unit) (_ : Bool) (_ : Filter) (_ : Int) (_ : Nat) : Unit × Option Nat := ((), refused)

/-- The answer of `epoll_ctl`. -/
def ctl (_ : Unit) (_ : CtlOp) (_ : Int) (_ : Registration) : Unit × Bool := ((), refused.isNone)

def openEvent : Polling × Option Exception := match self with
  | .kqueue poll => match poll.openEvent fd with
    | .error error => (self, some error)
    | .ok poll => (.kqueue poll, none)
  | .epoll poll => match poll.openEvent fd with
    | .error error => (self, some error)
    | .ok poll => (.epoll poll, none)

def closeEvent : Polling × Option Exception := match self with
  | .kqueue poll => match poll.closeEvent event fd with
    | .error error => (self, some error)
    | .ok poll => (.kqueue poll, none)
  | .epoll poll => match poll.closeEvent event fd with
    | .error error => (self, some error)
    | .ok poll => (.epoll poll, none)

def insertRead : Polling × Option Exception := match self with
  | .kqueue poll => ofKQueue (poll.insertReadCtl (answer refused) () event fd)
  | .epoll poll => ofEPoll (poll.insertReadCtl (ctl refused) () event fd)

def insertError : Polling × Option Exception := match self with
  | .kqueue poll => ofKQueue (poll.insertErrorCtl ())
  | .epoll poll => ofEPoll (poll.insertErrorCtl (ctl refused) () event fd)

def removeRead : Polling × Option Exception := match self with
  | .kqueue poll => ofKQueue (poll.removeReadCtl (answer refused) () event fd)
  | .epoll poll => ofEPoll (poll.removeReadCtl (ctl refused) () event fd)

def removeError : Polling × Option Exception := match self with
  | .kqueue poll => ofKQueue (poll.removeErrorCtl ())
  | .epoll poll => ofEPoll (poll.removeErrorCtl (ctl refused) () event fd)

end Polling

/-- A poll on the heap, and the descriptor it holds. -/
structure PollObject where
  fd : Nat
  polling : Polling
  deleted : Bool := false

/-- The listener is event 0. -/
structure Listening where
  fd : Int := -1
  state : State := .inactive
  /-- `poll_`, a place among the polls made so far. -/
  poll : Option Nat := none
  polls : List PollObject := []
  /-- The descriptors of sockets and polls, and the calls of `close`. -/
  opened : List Int := []
  closed : List Int := []

/-- How a function of the listener was left. -/
structure Left (α : Type) where
  listening : Listening
  result : Except Exception α

/-- What the kernel answers to `Open`. -/
structure Opening where
  socket : Option Nat
  getFlags : Bool
  setFlags : Bool
  reuseAddress : Bool
  kqueue : Option Nat
  epoll : Option Nat
  bind : Bool
  listen : Bool
  insertRead : Option Nat
  insertError : Option Nat

/-- The two `Create`, for a table of a size. -/
def Opening.create (self : Opening) (size : Nat) : Option PollObject :=
  match self.kqueue, self.epoll with
  | some fd, _ => some { fd, polling := .kqueue { table := List.replicate size 0, events := [] } }
  | none, some fd => some { fd, polling := .epoll { table := List.replicate size 0, events := [] } }
  | none, none => none

/-- What the kernel answers to the removals of `Close`. -/
structure Removal where
  read : Option Nat := none
  error : Option Nat := none

inductive ListenerCall where
  | openSocket (answers : Opening)
  | close (answers : Removal)
  /-- `Run`, with the rounds it makes and what `Perform` throws in each. -/
  | run (rounds : List (Option Exception)) (answers : Removal)

namespace Listening

variable (self : Listening)

def returns {α : Type} (value : α) : Option (Left α) := some ⟨self, .ok value⟩

def throws {α : Type} (error : Exception) : Option (Left α) := some ⟨self, .error error⟩

/-- Goes on unless an exception is thrown. -/
def next {α β : Type} (left : Option (Left α)) (f : Listening → Option (Left β)) : Option (Left β) :=
  left.bind fun left => match left.result with
    | .ok _ => f left.listening
    | .error error => left.listening.throws error

/-- The poll behind the pointer. -/
def live : Option PollObject := (self.poll.bind (self.polls[·]?)).filter (¬ ·.deleted)

def store (object : PollObject) : Listening :=
  { self with polls := match self.poll with
      | none => self.polls
      | some i => self.polls.set i object }

/-- A call through `poll_`. -/
def call (f : Polling → Polling × Option Exception) : Option (Left Unit) :=
  self.live.bind fun object =>
    let (polling, thrown) := f object.polling
    let after := self.store { object with polling }
    match thrown with
    | none => after.returns ()
    | some error => after.throws error

/-- `delete poll_`, which closes the descriptor of the poll. -/
def deletePoll : Option (Left Unit) :=
  if self.poll.isNone then self.returns ()
  else self.live.bind fun object =>
    ({ self.store { object with deleted := true } with closed := self.closed ++ [(object.fd : Int)] }).returns ()

def close (answers : Removal) : Option (Left Unit) :=
  if self.fd < 0 then self.returns ()
  else
    next (self.call (·.removeRead 0 self.fd answers.read)) fun after =>
    next (after.call (·.removeError 0 self.fd answers.error)) fun after =>
    next (after.call (·.closeEvent 0 self.fd)) fun after =>
    ({ after with fd := -1, closed := after.closed ++ [self.fd] }).deletePoll

/-- `Open`, for the address its host was resolved to. -/
def openSocket (answers : Opening) : Option (Left Bool) :=
  match answers.socket with
  | none => ({ self with fd := -1 }).throws (.ioException "Could not allocate socket for listening.")
  | some fd =>
    let self := { self with fd := (fd : Int), opened := self.opened ++ [(fd : Int)] }
    if ¬ answers.getFlags then self.throws (.ioException "Cannot get socket flags.")
    else if ¬ answers.setFlags ∨ ¬ answers.reuseAddress then
      self.throws (.ioException "Could not allocate socket for listening.")
    else match answers.create (fd + 1) with
      | none => ({ self with poll := none }).throws (.ioException "No suitable poll mechanism detected.")
      | some object =>
        let self := { self with
          poll := some self.polls.length, polls := self.polls ++ [object], opened := self.opened ++ [(object.fd : Int)] }
        if answers.bind ∧ answers.listen then
          next (({ self with state := .listening }).call (·.openEvent fd)) fun after =>
          next (after.call (·.insertRead 0 fd answers.insertRead)) fun after =>
          next (after.call (·.insertError 0 fd answers.insertError)) fun after =>
          after.returns true
        -- nothing is registered with this poll yet, so `Close` asks the kernel for nothing
        else next (self.close {}) fun after => after.returns false

/-- `DoPoll` and `Perform` until the listener is told to stop. The handlers leave the socket
and the poll alone. -/
def loop (self : Listening) : List (Option Exception) → Option (Left Unit)
  | [] => self.returns ()
  | thrown :: rounds => next (self.call fun polling => (polling, thrown)) (loop · rounds)

def run (rounds : List (Option Exception)) (answers : Removal) : Option (Left Unit) :=
  next (self.loop rounds) (·.close answers)

/-- The caller catches what a call throws and keeps the listener. -/
def step (self : Listening) : ListenerCall → Option Listening
  | .openSocket answers => (self.openSocket answers).map (·.listening)
  | .close answers => (self.close answers).map (·.listening)
  | .run rounds answers => (self.run rounds answers).map (·.listening)

def steps (calls : List ListenerCall) : Option Listening := calls.foldlM step {}

/-- The destructor. When it throws the program ends. -/
def destroy (answers : Removal) : Option (Left Unit) := self.close answers

end Listening
end LibWebserver
