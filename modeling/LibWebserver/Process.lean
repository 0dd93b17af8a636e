import LibWebserver.Interests

/-! A process with any number of servers and listeners. The descriptors they use, and
those of other files, come from one kernel, which hands out the lowest one not in use;
the interest tables belong to the single polls. What is recorded is every call of
`SetEventMask_`, with the size of the table it was made for. -/

namespace LibWebserver

structure MaskCall where
  descriptor : Int
  size : Nat
  deriving DecidableEq, Repr

/-- An event as its poll sees it: a connection or a listener. -/
structure Endpoint where
  poll : Poll
  fd : Int
  state : State
  calls : List MaskCall := []
  deriving DecidableEq, Repr

/-- What an operation on a connection comes to: nothing the poll would notice, a message
in the queue, a queue found empty, or the end of the connection. -/
inductive Change where
  | nothing
  | queues
  | drained
  | closes
  deriving DecidableEq, Repr

namespace Endpoint

-- The bits of `EPOLLERR` and so on, or those of the kqueue flags.
variable (bit : Branch → UInt32) (self : Endpoint)

def modify (mask : UInt32) : Endpoint :=
  if self.poll.eventMask self.fd = mask then self
  else { self with
    poll := self.poll.setEventMask self.fd mask
    calls := self.calls ++ [{ descriptor := self.fd, size := self.poll.table.length }] }

def insert (branch : Branch) : Endpoint := self.modify (self.poll.eventMask self.fd ||| bit branch)
def remove (branch : Branch) : Endpoint := self.modify (self.poll.eventMask self.fd &&& ~~~bit branch)

/-- `Initialize`; an event that is active leaves it by an exception. -/
def initialise : Endpoint :=
  match self.poll.openEvent self.fd with
  | .error _ => self
  | .ok _ => { ((self.insert bit .read).insert bit .write).insert bit .error with state := .connected }

/-- `Close`, less what it does with the registry. -/
def close (event : Nat) : Endpoint :=
  if self.state = .closing then self
  else
    let removed := (({ self with state := .closing }.remove bit .read).remove bit .write).remove bit .error
    match removed.poll.closeEvent event removed.fd with
    | .error _ => removed
    | .ok poll => { removed with poll, fd := if 0 ≤ removed.fd then -1 else removed.fd }

def operate (event : Nat) : Change → Endpoint
  | .nothing => self
  | .queues => if self.state = .connected then self.insert bit .write else self
  | .drained => if self.state = .connected then self.remove bit .write else self
  | .closes => self.close bit event

end Endpoint

structure Member where
  server : Nat
  fd : Int
  state : State
  deriving DecidableEq, Repr

structure Process where
  maxConnects : Nat
  opened : List Nat
  server : Nat → Option Server
  member : Nat → Option Member
  listener : Nat → Option Endpoint
  calls : List MaskCall

/-- What happens in a process. Servers, connections and listeners are named by the step
that makes them. -/
inductive ProcessStep where
  | openFile
  | closeFile (fd : Nat)
  | createServer (s : Nat)
  /-- A listener on a socket that could be bound or not. -/
  | openListener (l : Nat) (bound : Bool)
  | closeListener (l : Nat)
  /-- An accepted connection, and whether all its options could be set. -/
  | accept (s c : Nat) (options : Bool)
  /-- A connection to a peer. Unless it could be made, with all options set, the
  constructor throws; `leaked` says whether the descriptor stays open then. -/
  | connect (s c : Nat) (made leaked : Bool)
  | operate (c : Nat) (change : Change)
  deriving DecidableEq, Repr

namespace Process

variable (bit : Branch → UInt32) (self : Process)

def start (maxConnects : Nat) (opened : List Nat) : Process :=
  { maxConnects, opened, server := fun _ => none, member := fun _ => none, listener := fun _ => none, calls := [] }

/-- The lowest descriptor not in use. -/
def lowest : Nat := ((List.range (self.opened.length + 1)).find? (· ∉ self.opened)).getD (self.opened.length + 1)

def openDescriptor : Process := { self with opened := self.lowest :: self.opened }

def closeDescriptor (fd : Int) : Process := { self with opened := self.opened.filter fun other => (other : Int) ≠ fd }

def descriptor (c : Nat) : Int := (self.member c).elim (-1) (·.fd)

/-- An operation on a member and the poll of its server, as the poll sees it. -/
def withEndpoint (c : Nat) (operation : Endpoint → Endpoint) : Process :=
  match self.member c with
  | none => self
  | some member => match self.server member.server with
    | none => self
    | some server =>
      let after := operation { poll := server.poll, fd := member.fd, state := member.state }
      { self with
        opened := if after.fd = member.fd then self.opened else (self.closeDescriptor member.fd).opened
        server := Function.update self.server member.server (some { server with poll := after.poll })
        member := Function.update self.member c (some { member with fd := after.fd, state := after.state })
        calls := self.calls ++ after.calls }

def deleteConnection (c : Nat) : Process :=
  match self.member c with
  | none => self
  | some member =>
    let server := (self.server member.server).map (·.deleteConnection self.descriptor c)
    { self with server := Function.update self.server member.server server }

def operate (c : Nat) (change : Change) : Process :=
  let registry := if change = .closes ∧ (self.member c).any (·.state ≠ .closing) then self.deleteConnection c else self
  registry.withEndpoint c (·.operate bit c change)

/-- `NewConnection` and `Initialize` of a new connection; one that is refused is
destroyed, and was never in the registry. -/
def letIn (s c : Nat) (fd : Int) : Process :=
  match self.server s with
  | none => self
  | some server =>
    let made := { self with member := Function.update self.member c (some { server := s, fd, state := .inactive }) }
    if server.connections.length ≥ self.maxConnects then made.withEndpoint c (·.close bit c)
    else
      let connections := Server.insertSet made.descriptor c server.connections
      let registered := { made with server := Function.update made.server s (some { server with connections }) }
      registered.withEndpoint c (·.initialise bit)

/-- `poll_->Open`, `InsertRead` and `InsertError` of a listener. -/
def listen (endpoint : Endpoint) : Endpoint :=
  match endpoint.poll.openEvent endpoint.fd with
  | .error _ => endpoint
  | .ok _ => ({ endpoint with state := .listening }.insert bit .read).insert bit .error

def step : ProcessStep → Process
  | .openFile => self.openDescriptor
  | .closeFile fd => self.closeDescriptor fd
  | .createServer s => match self.server s with
    | some _ => self
    | none =>
      let poll : Poll := { table := List.replicate (self.maxConnects + 10) 0, events := [] }
      { self.openDescriptor with
        server := Function.update self.server s (some { connections := [], activity := [], poll }) }
  | .openListener l bound => match self.listener l with
    | some _ => self
    | none =>
      let poll : Poll := { table := List.replicate (self.lowest + 1) 0, events := [] }
      let endpoint : Endpoint := { poll, fd := self.lowest, state := .inactive }
      if bound then
        let listening := listen bit endpoint
        -- the second descriptor is the poll's
        { self.openDescriptor.openDescriptor with
          listener := Function.update self.listener l (some { listening with calls := [] })
          calls := self.calls ++ listening.calls }
      else self
  | .closeListener l => match self.listener l with
    | none => self
    | some endpoint =>
      let removed := (endpoint.remove bit .read).remove bit .error
      { self.closeDescriptor endpoint.fd with
        listener := Function.update self.listener l none, calls := self.calls ++ removed.calls }
  | .accept s c options => match self.member c with
    | some _ => self
    | none => if options then self.openDescriptor.letIn bit s c self.lowest else self.letIn bit s c (-1)
  | .connect s c made leaked => match self.member c with
    | some _ => self
    | none =>
      if made then self.openDescriptor.letIn bit s c self.lowest
      else if leaked then self.openDescriptor
      else self
  | .operate c change => self.operate bit c change

def run (steps : List ProcessStep) : Process := steps.foldl (step bit) self

end Process
end LibWebserver
