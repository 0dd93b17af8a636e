import LibWebserver.Control
import LibWebserver.Operation

/-! Making a connection and dropping it again, with every call of the kernel allowed to
fail. Calls of `close` are recorded. A mask written outside the interest table, or a bit
outside an `fd_set`, has no defined meaning, so that is recorded too. -/

namespace LibWebserver

/-- To the setters of `SetOptions_`. Without `SO_NOSIGPIPE`, the first one succeeds. -/
structure Options where
  noSignal : Bool
  noDelay : Bool
  getFlags : Bool
  setFlags : Bool
  sendTimeout : Bool
  receiveTimeout : Bool
  deriving DecidableEq, Repr

/-- To the calls of `epoll_ctl`, by the operation of the poll that makes them. -/
structure PollAnswers where
  insert : Branch → Bool
  remove : Branch → Bool

/-- All calls succeed. -/
def PollAnswers.granted : PollAnswers where
  insert _ := true
  remove _ := true

/-- To `connect`, and to the `select` that waits for it. -/
inductive Connecting where
  | connected
  | inProgress (ready : Bool)
  | failed
  deriving DecidableEq, Repr

structure Outgoing where
  socket : Option Nat
  reuseAddress : Bool
  /-- Without a local address there is no call. -/
  bind : Option Bool
  options : Options
  resolved : Bool
  connecting : Connecting
  isPersistent : Bool
  deriving DecidableEq, Repr

/-- A call of either `Create`: on an accepted descriptor or to a peer. -/
inductive Attempt where
  | incoming (fd : Nat) (options : Options)
  | outgoing (peer : Outgoing)
  deriving DecidableEq, Repr

/-- The descriptors opened for it. -/
def Attempt.opened : Attempt → List Nat
  | .incoming fd _ => [fd]
  | .outgoing peer => peer.socket.toList

namespace Controlled

variable {π κ : Type}

/-- Goes on unless an exception is thrown. -/
def next (self : Controlled π κ) (f : π → κ → Controlled π κ) : Controlled π κ :=
  if self.thrown.isSome then self else f self.poll self.kernel

end Controlled

namespace Poll

variable {κ : Type} (ctl : Branch → κ → CtlOp → Int → Registration → κ × Bool) (self : Poll) (kernel : κ) (event : Nat)
  (fd : Int)

/-- `Open` and the three insertions of `Initialize`. -/
def initialiseCtl : Controlled Poll κ :=
  match self.openEvent fd with
  | .error error => { poll := self, kernel, thrown := some error }
  | .ok poll => ((poll.insertReadCtl (ctl .read) kernel event fd).next
      (·.insertWriteCtl (ctl .write) · event fd)).next (·.insertErrorCtl (ctl .error) · event fd)

/-- The three removals of `Close`, and `Close` of the poll. -/
def closeCtl : Controlled Poll κ :=
  (((self.removeReadCtl (ctl .read) kernel event fd).next
    (·.removeWriteCtl (ctl .write) · event fd)).next (·.removeErrorCtl (ctl .error) · event fd)).next
      fun poll kernel => match poll.closeEvent event fd with
        | .error error => { poll, kernel, thrown := some error }
        | .ok poll => { poll, kernel }

end Poll

/-- Each operation of the poll has its own answer. -/
def answering (answers : Branch → Bool) (branch : Branch) (_ : Unit) (_ : CtlOp) (_ : Int) (_ : Registration) : Unit × Bool :=
  ((), answers branch)

structure Progress where
  world : World
  closed : List Int := []
  outside : Bool := false
  thrown : Option Exception := none

namespace Progress

variable (self : Progress) (c : Nat)

def next (f : Progress → Progress) : Progress := if self.thrown.isSome then self else f self

def throw (error : Exception) : Progress := { self with thrown := some error }

/-- `SocketFd::Close` on a copy of the descriptor. -/
def closeSocket (fd : Int) : Progress := { self with closed := self.closed ++ [fd] }

/-- `Descriptor().Close()`. -/
def closeDescriptor : Progress :=
  { self.closeSocket (self.world.descriptor c) with world := self.world.modify c ({ · with fd := -1 }) }

def setDescriptor (fd : Int) : Progress := { self with world := self.world.modify c ({ · with fd }) }

def setOptions (options : Options) : Progress :=
  if ¬ options.noSignal then self.closeDescriptor c
  else if ¬ options.noDelay then self.closeDescriptor c
  else if self.world.descriptor c < 0 then self.throw (.ioException "Socket function called on an invalid fd.")
  else if ¬ options.getFlags then self.throw (.ioException "Cannot get socket flags.")
  else if ¬ options.setFlags then self.closeDescriptor c
  else if ¬ options.sendTimeout then self.closeDescriptor c
  else if ¬ options.receiveTimeout then self.closeDescriptor c
  else self

/-- Bits of an `fd_set`. -/
def FD_SETSIZE : Nat := 1024

/-- `FD_SET` of the connection's descriptor. -/
def fdSet : Progress :=
  let fd := self.world.descriptor c
  { self with outside := self.outside || ¬ (0 ≤ fd ∧ fd < FD_SETSIZE) }

/-- `SocketFd::Connect` and what follows it. On a descriptor that is closed, it fails. -/
def connect (peer : Outgoing) (fd : Nat) : Progress :=
  if ¬ peer.resolved then self.throw (.ioException "Cannot resolve address")
  else match if (fd : Int) ∈ self.closed then .failed else peer.connecting with
    | .connected => self
    | .failed => (self.closeSocket fd).throw (.ioException "Could not connect to remote peer")
    | .inProgress true => self.fdSet c
    | .inProgress false => ((self.fdSet c).closeDescriptor c).throw (.ioException "Connection timed out")

/-- The constructor of an outgoing connection. -/
def dial (peer : Outgoing) : Progress :=
  match peer.socket with
  | none => self.throw (.ioException "Could not allocate socket for communication")
  | some fd =>
    if ¬ peer.reuseAddress then self.throw (.ioException "Could not allocate socket for communication")
    else if peer.bind = some false then self.throw (.ioException "Could not bind socket to address")
    else ((self.setDescriptor c fd).setOptions c peer.options).next (·.connect c peer fd)

def newConnection (maxConnects : Nat) : Progress :=
  if self.world.server.connections.length ≥ maxConnects then self.throw .tooManyConnectionsError
  else
    let connections := Server.insertSet self.world.descriptor c self.world.server.connections
    { self with world := { self.world with server := { self.world.server with connections } } }

def initialise (answers : PollAnswers) : Progress :=
  let poll := self.world.server.poll
  let fd := self.world.descriptor c
  let initialised := poll.initialiseCtl (answering answers.insert) () c fd
  let world := self.world.poll fun _ => initialised.poll
  { self with
    world := if initialised.thrown.isSome then world else world.setState c .connected
    outside := self.outside || (poll.openEvent fd).toBool && ¬ (0 ≤ fd ∧ fd < poll.table.length)
    thrown := initialised.thrown }

/-- `~Socket`. -/
def destroySocket : Progress :=
  let fd := self.world.descriptor c
  if 0 ≤ fd then self.throw (.ioException ("~Socket() called, but descriptor " ++ toString fd ++ " is still valid"))
  else self

/-- `~BaseConnection`. The weak reference has expired, so the registry is not asked. -/
def destroy (answers : PollAnswers) : Progress :=
  let closed : Progress :=
    if (self.world.conn c).state = .closing then self
    else
      let world := self.world.setState c .closing
      let removed := world.server.poll.closeCtl (answering answers.remove) () c (world.descriptor c)
      let closed := { self with world := world.poll fun _ => removed.poll, thrown := removed.thrown }
      closed.next fun closed => if 0 ≤ closed.world.descriptor c then closed.closeDescriptor c else closed
  closed.next (·.destroySocket c)

end Progress

/-- A destructor that throws while another exception is on its way ends the program. -/
inductive Exit where
  | returned
  | thrown (error : Exception)
  | terminated
  deriving DecidableEq, Repr

structure Created where
  world : World
  closed : List Int
  outside : Bool
  exit : Exit

namespace Progress

variable (self : Progress) (c : Nat)

def finish (exit : Exit) : Created := { world := self.world, closed := self.closed, outside := self.outside, exit }

/-- An exception out of the constructor destroys the base class. -/
def leaveConstructor (error : Exception) : Created :=
  let destroyed := { self with thrown := none }.destroySocket c
  destroyed.finish (if destroyed.thrown.isSome then .terminated else .thrown error)

/-- Whether the registry refers to a connection. -/
def registered : Prop := c ∈ self.world.server.connections ∨ c ∈ self.world.server.activity

instance : Decidable (self.registered c) := inferInstanceAs (Decidable (_ ∨ _))

/-- An exception out of `Create` drops its reference. -/
def leave (answers : PollAnswers) (error : Exception) : Created :=
  if self.registered c then self.finish (.thrown error)
  else
    let destroyed := { self with thrown := none }.destroy c answers
    destroyed.finish (if destroyed.thrown.isSome then .terminated else .thrown error)

/-- The incoming `Create` behind the constructor. -/
def accept (maxConnects : Nat) (answers : PollAnswers) : Created :=
  let admitted := (self.newConnection c maxConnects).next (·.initialise c answers)
  match admitted.thrown with
  | none => admitted.finish .returned
  | some .tooManyConnectionsError =>
    { admitted with world := admitted.world.sendMessage c .tooManyConnections }.finish .returned
  | some error => admitted.leave c answers error

/-- The outgoing `Create` behind the constructor. -/
def register (maxConnects : Nat) (answers : PollAnswers) (isPersistent : Bool) : Created :=
  let made := { self with world := self.world.setPersistence c isPersistent }
  let admitted := (made.newConnection c maxConnects).next (·.initialise c answers)
  match admitted.thrown with
  | none => admitted.finish .returned
  | some error => admitted.leave c answers error

end Progress

namespace World

variable (w : World) (maxConnects : Nat) (c : Nat) (answers : PollAnswers)

/-- A new object, before its constructor gives it a descriptor. -/
def allocate : Progress := { world := w.modify c fun _ => .create (-1) }

/-- `HttpConnection::Create`. -/
def create : Attempt → Created
  | .incoming fd options =>
    let made := ((w.allocate c).setDescriptor c fd).setOptions c options
    match made.thrown with
    | some error => made.leaveConstructor c error
    | none => made.accept c maxConnects answers
  | .outgoing peer =>
    let made := (w.allocate c).dial c peer
    match made.thrown with
    | some error => made.leaveConstructor c error
    | none => made.register c maxConnects answers peer.isPersistent

end World

/-- `HttpListener::ProcessEventRead_` drops the connection `Create` returned. -/
def Created.drop (self : Created) (c : Nat) (answers : PollAnswers) : Created :=
  let progress : Progress := { world := self.world, closed := self.closed, outside := self.outside }
  if progress.registered c then self
  else
    let destroyed := progress.destroy c answers
    destroyed.finish (destroyed.thrown.elim .returned .thrown)

end LibWebserver
