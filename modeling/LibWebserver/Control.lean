import LibWebserver.Dispatch

/-! The polls against a kernel that may refuse. The table is changed before the kernel
is asked, so that a refusal leaves the two different. -/

namespace LibWebserver

inductive CtlOp where
  | add
  | mod
  | del
  deriving DecidableEq, Repr

/-- What the kernel keeps for a descriptor: `epoll_event`. -/
structure Registration where
  events : UInt32
  ptr : Nat
  deriving DecidableEq, Repr

/-- The poll and the kernel after a call, and what it threw. -/
structure Controlled (π κ : Type) where
  poll : π
  kernel : κ
  thrown : Option Exception := none

namespace Poll

variable {κ : Type} (ctl : κ → CtlOp → Int → Registration → κ × Bool) (self : Poll) (kernel : κ) (event : Nat) (fd : Int)

def modifyCtl (op : CtlOp) (mask : UInt32) : Controlled Poll κ :=
  if self.eventMask fd = mask then { poll := self, kernel }
  else
    let (after, done) := ctl kernel op fd { events := mask, ptr := event }
    { poll := self.setEventMask fd mask, kernel := after
      thrown := if done then none else some (.internalError "epoll_ctl call failed") }

def insertCtl (bit : UInt32) : Controlled Poll κ :=
  self.modifyCtl ctl kernel event fd (if self.eventMask fd ≠ 0 then .mod else .add) (self.eventMask fd ||| bit)

def removeCtl (bit : UInt32) : Controlled Poll κ :=
  let mask := self.eventMask fd &&& ~~~bit
  self.modifyCtl ctl kernel event fd (if mask ≠ 0 then .mod else .del) mask

def insertReadCtl : Controlled Poll κ := self.insertCtl ctl kernel event fd EPOLLIN
def insertWriteCtl : Controlled Poll κ := self.insertCtl ctl kernel event fd EPOLLOUT
def insertErrorCtl : Controlled Poll κ := self.insertCtl ctl kernel event fd EPOLLERR
def removeReadCtl : Controlled Poll κ := self.removeCtl ctl kernel event fd EPOLLIN
def removeWriteCtl : Controlled Poll κ := self.removeCtl ctl kernel event fd EPOLLOUT
def removeErrorCtl : Controlled Poll κ := self.removeCtl ctl kernel event fd EPOLLERR

end Poll

namespace PollKQueue

-- A call of `kevent` with one change gives the error number when it fails.
variable {κ : Type} (kevent : κ → Bool → Filter → Int → Nat → κ × Option Nat) (self : PollKQueue) (kernel : κ) (event : Nat)
  (fd : Int)

/-- The text of the error is a pointer moved by the error number. -/
def modifyCtl (add : Bool) (filter : Filter) : Controlled PollKQueue κ :=
  let (after, failed) := kevent kernel add filter fd event
  { poll := self, kernel := after
    thrown := failed.map fun errno => .ioException ("PollKQueue::Modify_() error: ".drop errno).toString }

def insertCtl (flag : UInt32) (filter : Filter) : Controlled PollKQueue κ :=
  if self.eventMask fd &&& flag ≠ 0 then { poll := self, kernel }
  else (self.setEventMask fd (self.eventMask fd ||| flag)).modifyCtl kevent kernel event fd true filter

def removeCtl (flag : UInt32) (filter : Filter) : Controlled PollKQueue κ :=
  if self.eventMask fd &&& flag = 0 then { poll := self, kernel }
  else (self.setEventMask fd (self.eventMask fd &&& ~~~flag)).modifyCtl kevent kernel event fd false filter

def insertReadCtl : Controlled PollKQueue κ := self.insertCtl kevent kernel event fd flagRead .read
def insertWriteCtl : Controlled PollKQueue κ := self.insertCtl kevent kernel event fd flagWrite .write
def insertErrorCtl : Controlled PollKQueue κ := { poll := self, kernel }
def removeReadCtl : Controlled PollKQueue κ := self.removeCtl kevent kernel event fd flagRead .read
def removeWriteCtl : Controlled PollKQueue κ := self.removeCtl kevent kernel event fd flagWrite .write
def removeErrorCtl : Controlled PollKQueue κ := { poll := self, kernel }

end PollKQueue

/-- The registrations of an epoll instance. Closing a descriptor drops its own. -/
abbrev Epoll := Int → Option Registration

namespace Epoll

def ctl (self : Epoll) (op : CtlOp) (fd : Int) (registration : Registration) : Epoll × Bool :=
  match op, self fd with
  | .add, none => (Function.update self fd (some registration), true)
  | .mod, some _ => (Function.update self fd (some registration), true)
  | .del, some _ => (Function.update self fd none, true)
  | .add, some _ => (self, false)
  | .mod, none => (self, false)
  | .del, none => (self, false)

def closeDescriptor (self : Epoll) (fd : Int) : Epoll := Function.update self fd none

end Epoll

/-- The filters of a kqueue, each with the event it carries. -/
abbrev KQueue := Int → Filter → Option Nat

namespace KQueue

/-- Adding a filter that is there replaces it; deleting one that is not is `ENOENT`. -/
def kevent (self : KQueue) (add : Bool) (filter : Filter) (fd : Int) (event : Nat) : KQueue × Option Nat :=
  if add then (Function.update self fd (Function.update (self fd) filter (some event)), none)
  else match self fd filter with
    | some _ => (Function.update self fd (Function.update (self fd) filter none), none)
    | none => (self, some 2)

def closeDescriptor (self : KQueue) (fd : Int) : KQueue := Function.update self fd fun _ => none

end KQueue

/-- What is done with an event and its descriptor. -/
inductive Subscription where
  | socket (fd : Int)
  | openEvent (event : Nat) (fd : Int)
  | insert (branch : Branch) (event : Nat) (fd : Int)
  | remove (branch : Branch) (event : Nat) (fd : Int)
  | closeEvent (event : Nat) (fd : Int)
  | closeSocket (fd : Int)
  deriving DecidableEq, Repr

/-- A poll of either kind with its kernel. -/
class Subscribes (π κ : Type) where
  openEvent : π → Int → Except Exception π
  insert : π → κ → Branch → Nat → Int → Controlled π κ
  remove : π → κ → Branch → Nat → Int → Controlled π κ
  closeEvent : π → Nat → Int → Except Exception π
  closeDescriptor : κ → Int → κ

instance : Subscribes Poll Epoll where
  openEvent := Poll.openEvent
  insert self kernel branch event fd := match branch with
    | .error => self.insertErrorCtl Epoll.ctl kernel event fd
    | .read => self.insertReadCtl Epoll.ctl kernel event fd
    | .write => self.insertWriteCtl Epoll.ctl kernel event fd
  remove self kernel branch event fd := match branch with
    | .error => self.removeErrorCtl Epoll.ctl kernel event fd
    | .read => self.removeReadCtl Epoll.ctl kernel event fd
    | .write => self.removeWriteCtl Epoll.ctl kernel event fd
  closeEvent := Poll.closeEvent
  closeDescriptor := Epoll.closeDescriptor

instance : Subscribes PollKQueue KQueue where
  openEvent := PollKQueue.openEvent
  insert self kernel branch event fd := match branch with
    | .error => self.insertErrorCtl kernel
    | .read => self.insertReadCtl KQueue.kevent kernel event fd
    | .write => self.insertWriteCtl KQueue.kevent kernel event fd
  remove self kernel branch event fd := match branch with
    | .error => self.removeErrorCtl kernel
    | .read => self.removeReadCtl KQueue.kevent kernel event fd
    | .write => self.removeWriteCtl KQueue.kevent kernel event fd
  closeEvent := PollKQueue.closeEvent
  closeDescriptor := KQueue.closeDescriptor

/-- A poll and its kernel, as long as nothing is thrown. -/
structure Subscribed (π κ : Type) where
  poll : π
  kernel : κ

namespace Subscribed

variable {π κ : Type} [Subscribes π κ]

def ofControlled (after : Controlled π κ) : Option (Subscribed π κ) :=
  if after.thrown.isSome then none else some { poll := after.poll, kernel := after.kernel }

/-- `none` when an exception is thrown. -/
def step (self : Subscribed π κ) : Subscription → Option (Subscribed π κ)
  | .socket _ => some self
  | .openEvent _ fd => (Subscribes.openEvent κ self.poll fd).toOption.map fun poll => { self with poll }
  | .insert branch event fd => ofControlled (Subscribes.insert self.poll self.kernel branch event fd)
  | .remove branch event fd => ofControlled (Subscribes.remove self.poll self.kernel branch event fd)
  | .closeEvent event fd => (Subscribes.closeEvent κ self.poll event fd).toOption.map fun poll => { self with poll }
  | .closeSocket fd => some { self with kernel := Subscribes.closeDescriptor π self.kernel fd }

end Subscribed
end LibWebserver
