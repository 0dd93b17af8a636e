import LibWebserver.Creation

/-! Several threads on the connections of one server. An operation is cut into stages
where another thread may come between; each call of the registry is within one stage.
In `Initialize` and `Close` the poll may throw. -/

namespace LibWebserver

/-- Where a thread is in an operation on a connection. -/
inductive Stage where
  /-- `Create` behind the constructor. -/
  | register
  | initialise
  | connect
  /-- The only reference to a connection is dropped. -/
  | destroy
  | eventRead (result : RecvResult)
  | process
  | eventWrite (answers : List SendResult)
  | write (position : Nat) (messages : List OutgoingHttpMessage) (answers : List SendResult)
  | eventError
  | sendMessage (message : OutgoingHttpMessage)
  | getMessages (messages : List IncomingHttpMessage)
  /-- `Close`, and its calls in their order. -/
  | close
  | delete
  | unsubscribe
  | release
  deriving DecidableEq, Repr

/-- The first stage of an operation. -/
def Operation.stage : Operation → Stage
  | .eventRead result => .eventRead result
  | .eventWrite answers => .eventWrite answers
  | .eventError => .eventError
  | .sendMessage message => .sendMessage message
  | .getMessages messages => .getMessages messages
  | .close => .close

/-- `NewConnection`, with room. -/
def World.insertConnection (w : World) (c : Nat) : World :=
  let connections := Server.insertSet w.descriptor c w.server.connections
  { w with server := { w.server with connections } }

/-- The world after a stage, and the next stage unless the operation ends. -/
def Stage.step (maxConnects : Nat) (answers : PollAnswers) (w : World) (c : Nat) : Stage → World × Option Stage
  | .register =>
    if w.server.connections.length ≥ maxConnects then (w.sendMessage c .tooManyConnections, some .destroy)
    else (w.insertConnection c, some .initialise)
  | .initialise =>
    let initialised := w.server.poll.initialiseCtl (answering answers.insert) () c (w.descriptor c)
    (w.poll fun _ => initialised.poll, if initialised.thrown.isSome then none else some .connect)
  | .connect => (w.setState c .connected, none)
  | .destroy => if (w.conn c).state = .closing then (w, none) else (w.setState c .closing, some .unsubscribe)
  | .eventRead result =>
    if (w.conn c).state ≠ .connected then (w, none)
    else
      let buffer := World.storeRead (World.reserveBuffer (w.conn c).buffer) result
      let w := w.setBuffer c buffer
      match readStream bufferLength result with
      | .error _ => (w, some .close)
      | .ok len => match buffer.adjustLength len with
        | .error _ => (w, none)
        | .ok buffer => if len = 0 then (w.setBuffer c buffer.clear, none) else (w.setBuffer c buffer, some .process)
  | .process => match World.processStep c w with
    | .next after => (after, some .process)
    | .exit (some ended) => (ended.world, none)
    -- a parser that does not return keeps its thread
    | .exit none => (w, some .process)
  | .eventWrite answers =>
    if (w.conn c).state ≠ .connected then (w, none)
    else if (w.conn c).outgoing = [] then (w.poll (·.removeWrite (w.descriptor c)), none)
    else (w.modify c ({ · with outgoing := [] }), some (.write 0 (w.conn c).outgoing answers))
  | .write _ [] _ => (w, none)
  | .write position (message :: messages) answers =>
    if (w.conn c).state ≠ .connected then (w, none)
    else
      let sent := writeMessage (w.descriptor c) position message.getLength answers
      match sent.outcome with
      | none => (w, some (.write position (message :: messages) answers))
      | some (.error _) => (w, some .close)
      | some (.ok _) => (w, some (if message.isPersistent then .write (position + 1) messages sent.rest else .close))
  | .eventError => if (w.conn c).state = .inactive then (w, none) else (w, some .close)
  | .sendMessage message => (w.sendMessage c message, none)
  | .getMessages messages => ((w.getMessages c messages).2.2, none)
  | .close => if (w.conn c).state = .closing then (w, none) else (w.setState c .closing, some .delete)
  | .delete => (w.deleteConnection c, some .unsubscribe)
  | .unsubscribe =>
    let removed := w.server.poll.closeCtl (answering answers.remove) () c (w.descriptor c)
    (w.poll fun _ => removed.poll, if removed.thrown.isSome then none else some .release)
  | .release => (if 0 ≤ w.descriptor c then w.modify c ({ · with fd := -1 }) else w, none)

/-- An operation that a thread is in. -/
structure Task where
  connection : Nat
  stage : Stage
  answers : PollAnswers

/-- A server with the connections made so far and what each thread does. -/
structure Threads where
  world : World
  made : List Nat
  task : Nat → Option Task

/-- What happens next. -/
inductive Turn where
  /-- A thread accepts a connection, all options of which are set, and enters `Create`. -/
  | create (thread c fd : Nat) (answers : PollAnswers)
  | start (thread c : Nat) (operation : Operation) (answers : PollAnswers)
  | advance (thread : Nat)
  | getActiveConnection

namespace Threads

variable (maxConnects : Nat) (self : Threads)

/-- A server without connections and threads without tasks. -/
def start (size : Nat) : Threads where
  world := { conn := fun _ => .create (-1)
             server := { connections := [], activity := [], poll := { table := List.replicate size 0, events := [] } } }
  made := []
  task _ := none

/-- A turn that is not possible changes nothing. The kernel gives a descriptor that no
connection has. -/
def step : Turn → Threads
  | .create thread c fd answers =>
    if self.task thread = none ∧ c ∉ self.made ∧ ∀ d ∈ self.made, self.world.descriptor d ≠ fd then
      { world := self.world.modify c fun _ => .create fd, made := c :: self.made
        task := Function.update self.task thread (some { connection := c, stage := .register, answers }) }
    else self
  | .start thread c operation answers =>
    if self.task thread = none ∧ c ∈ self.made then
      { self with task := Function.update self.task thread (some { connection := c, stage := operation.stage, answers }) }
    else self
  | .advance thread => match self.task thread with
    | none => self
    | some task =>
      let (world, next) := task.stage.step maxConnects task.answers self.world task.connection
      { self with world, task := Function.update self.task thread (next.map fun stage => { task with stage }) }
  | .getActiveConnection =>
    { self with world := { self.world with server := { self.world.server with activity := self.world.server.activity.tail } } }

def run (turns : List Turn) : Threads := turns.foldl (step maxConnects) self

end Threads
end LibWebserver
