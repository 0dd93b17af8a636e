import LibWebserver.Poll

/-! The kqueue variant of the poll. It keeps the same table, but with flags of its
own, and tells the kernel about one filter at a time. Errors are not subscribed to. -/

namespace LibWebserver

inductive Filter where
  | read
  | write
  | other (filter : Int)
  deriving DecidableEq, Repr

/-- An entry of the batch `kevent` returned. `error` is its data when its flags are
`EV_ERROR`. -/
structure KEvent where
  udata : Option Nat
  filter : Filter
  error : Option Int
  deriving DecidableEq, Repr

structure PollKQueue where
  table : List UInt32
  events : List KEvent
  deriving DecidableEq, Repr

namespace PollKQueue

abbrev flagRead : UInt32 := 1
abbrev flagWrite : UInt32 := 2
abbrev flagError : UInt32 := 4

abbrev EBADF : Int := 9
abbrev EINVAL : Int := 22
abbrev ENOENT : Int := 2

def eventMask (self : PollKQueue) (fd : Int) : UInt32 := if 0 ≤ fd then self.table.getD fd.toNat 0 else 0

def setEventMask (self : PollKQueue) (fd : Int) (mask : UInt32) : PollKQueue :=
  if 0 ≤ fd then { self with table := self.table.set fd.toNat mask } else self

def inRead (self : PollKQueue) (fd : Int) : Bool := self.eventMask fd &&& flagRead ≠ 0
def inWrite (self : PollKQueue) (fd : Int) : Bool := self.eventMask fd &&& flagWrite ≠ 0
def inError (self : PollKQueue) (fd : Int) : Bool := self.eventMask fd &&& flagError ≠ 0

def activity (self : PollKQueue) (fd : Int) : String :=
  toString fd ++ ":" ++ (if self.inRead fd then "r" else "") ++ (if self.inWrite fd then "w" else "") ++
    (if self.inError fd then "e" else "")

def openEvent (self : PollKQueue) (fd : Int) : Except Exception PollKQueue :=
  if self.eventMask fd ≠ 0 then
    .error (.ioException ("PollKQueue::Open(...) called but the file descriptor " ++ self.activity fd ++ " is active"))
  else .ok self

def closeEvent (self : PollKQueue) (event : Nat) (fd : Int) : Except Exception PollKQueue :=
  if self.eventMask fd ≠ 0 then
    .error (.ioException ("PollKQueue::Close(...) called but the file descriptor " ++ self.activity fd ++ " is active"))
  else .ok { self with events := self.events.map fun ready =>
    if ready.udata = some event then { ready with udata := none } else ready }

end PollKQueue
end LibWebserver
