import LibWebserver.Exception
import Mathlib.Data.UInt

/-! The interest table of the poll. A mask is kept for each descriptor below the
size of the table; writes outside it are undefined in the source and have no
effect here. `epoll_ctl` is taken to succeed. -/

namespace LibWebserver

/-- An entry of the batch `DoPoll` returned; a closed event is taken out of it. -/
structure ReadyEvent where
  ptr : Option Nat
  events : UInt32
  deriving DecidableEq, Repr

structure Poll where
  table : List UInt32
  events : List ReadyEvent
  deriving DecidableEq, Repr

namespace Poll

abbrev EPOLLIN : UInt32 := 1
abbrev EPOLLOUT : UInt32 := 4
abbrev EPOLLERR : UInt32 := 8

def eventMask (self : Poll) (fd : Int) : UInt32 := if 0 ≤ fd then self.table.getD fd.toNat 0 else 0

def setEventMask (self : Poll) (fd : Int) (mask : UInt32) : Poll :=
  if 0 ≤ fd then { self with table := self.table.set fd.toNat mask } else self

def modify (self : Poll) (fd : Int) (mask : UInt32) : Poll :=
  if self.eventMask fd = mask then self else self.setEventMask fd mask

def insert (self : Poll) (fd : Int) (bit : UInt32) : Poll := self.modify fd (self.eventMask fd ||| bit)
def remove (self : Poll) (fd : Int) (bit : UInt32) : Poll := self.modify fd (self.eventMask fd &&& ~~~bit)

def insertRead (self : Poll) (fd : Int) : Poll := self.insert fd EPOLLIN
def insertWrite (self : Poll) (fd : Int) : Poll := self.insert fd EPOLLOUT
def insertError (self : Poll) (fd : Int) : Poll := self.insert fd EPOLLERR
def removeRead (self : Poll) (fd : Int) : Poll := self.remove fd EPOLLIN
def removeWrite (self : Poll) (fd : Int) : Poll := self.remove fd EPOLLOUT
def removeError (self : Poll) (fd : Int) : Poll := self.remove fd EPOLLERR

def inRead (self : Poll) (fd : Int) : Bool := self.eventMask fd &&& EPOLLIN ≠ 0
def inWrite (self : Poll) (fd : Int) : Bool := self.eventMask fd &&& EPOLLOUT ≠ 0
def inError (self : Poll) (fd : Int) : Bool := self.eventMask fd &&& EPOLLERR ≠ 0

/-- What a descriptor is active for, as the error of `Open` and `Close` tells it. -/
def activity (self : Poll) (fd : Int) : String :=
  toString fd ++ ":" ++ (if self.inRead fd then "r" else "") ++ (if self.inWrite fd then "w" else "") ++
    (if self.inError fd then "e" else "")

def openEvent (self : Poll) (fd : Int) : Except Exception Poll :=
  if self.eventMask fd ≠ 0 then
    .error (.ioException ("PollEPoll::Open(...) called but the file descriptor " ++ self.activity fd ++ " is active "))
  else .ok self

def closeEvent (self : Poll) (event : Nat) (fd : Int) : Except Exception Poll :=
  if self.eventMask fd ≠ 0 then
    .error (.ioException ("PollEPoll::Close(...) called but the file descriptor " ++ self.activity fd ++ " is active"))
  else .ok { self with events := self.events.map fun ready =>
    if ready.ptr = some event then { ready with ptr := none } else ready }

end Poll
end LibWebserver
