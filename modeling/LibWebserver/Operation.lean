import LibWebserver.Connection

/-! Runs of the operations on the connections of a server, one after another. -/

namespace LibWebserver

inductive Operation where
  | eventRead (result : RecvResult)
  | eventWrite (answers : List SendResult)
  | eventError
  | sendMessage (message : OutgoingHttpMessage)
  | getMessages (messages : List IncomingHttpMessage)
  | close
  deriving DecidableEq, Repr

/-- What an operation did: the world after it, its calls of `send` and the messages
it handed out. One that has not returned is the last of its run. -/
structure Performed where
  world : World
  calls : List SendCall := []
  handed : List IncomingHttpMessage := []
  returned : Bool := true

/-- The messages of a list some bytes of which were accepted. -/
def sentMessages (messages : List OutgoingHttpMessage) (calls : List SendCall) : List OutgoingHttpMessage :=
  calls.filterMap fun call => match call.result with
    | some (.accepted (_ + 1)) => messages[call.position]?
    | _ => none

namespace World

def perform (w : World) (c : Nat) : Operation → Performed
  | .eventRead result => match w.eventRead c result with
    | some ended => { world := ended.world }
    | none => { world := w, returned := false }
  | .eventWrite answers =>
    let run := w.eventWrite c answers
    { world := run.world, calls := run.calls, returned := run.returned }
  | .eventError => { world := (w.eventError c).world }
  | .sendMessage message => { world := w.sendMessage c message }
  | .getMessages messages =>
    let (found, handed, world) := w.getMessages c messages
    { world, handed := if found then handed else [] }
  | .close => { world := (w.close c).world }

end World

/-- What has happened to a connection: the messages put in its queue, and those some
bytes of which were sent, both in order. -/
structure History where
  queued : List OutgoingHttpMessage := []
  sent : List OutgoingHttpMessage := []

/-- Adds an operation on a connection to the history of another or the same. -/
def History.record (history : History) (c : Nat) (w : World) (d : Nat) (operation : Operation) : History :=
  { queued := history.queued ++ ((w.perform d operation).world.conn c).outgoing.drop (w.conn c).outgoing.length
    sent := history.sent ++
      if d = c then sentMessages (w.conn c).outgoing (w.perform c operation).calls else [] }

/-- Any order of operations on any connections, with the history of one of them. -/
inductive Run (c : Nat) (start : World) : History → World → Prop where
  | start : Run c start {} start
  | step {history w} (before : Run c start history w) (d : Nat) (operation : Operation)
      (returned : (w.perform d operation).returned) :
      Run c start (history.record c w d operation) (w.perform d operation).world

end LibWebserver
