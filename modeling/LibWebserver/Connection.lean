import LibWebserver.IncomingHttpMessage
import LibWebserver.OutgoingHttpMessage
import LibWebserver.Server

/-! The connections of a server and the operations on them. The kernel's answers
to `recv` and `send` are arguments; log output and the traffic statistics are
left out. An operation gives no result when it does not return. -/

namespace LibWebserver

inductive State where
  | inactive
  | listening
  | connecting
  | connected
  | closing
  deriving DecidableEq, Repr

inductive Errno where
  | eagain
  | eintr
  | ewouldblock
  | etimedout
  | econnreset
  | econnaborted
  | edeadlk
  | other (code : Int)
  deriving DecidableEq, Repr

structure Connection where
  fd : Int
  state : State
  isPersistent : Bool
  buffer : CString
  incoming : List IncomingHttpMessage
  outgoing : List OutgoingHttpMessage
  bufferHasBadData : Bool
  deriving DecidableEq, Repr

/-- `buffer_length_`. -/
def bufferLength : Nat := 1500

/-- A connection as its constructor leaves it. -/
def Connection.create (fd : Int) : Connection :=
  { fd, state := .inactive, isPersistent := false, buffer := .ofSize bufferLength, incoming := [], outgoing := []
    bufferHasBadData := false }

/-- What `recv` returns: bytes, none at the end of the stream, or an error. -/
inductive RecvResult where
  | received (bytes : Bytes)
  | failed (errno : Errno)
  deriving DecidableEq, Repr

/-- What `send` returns. -/
inductive SendResult where
  | accepted (count : Nat)
  | failed (errno : Errno)
  deriving DecidableEq, Repr

/-- The common treatment of `errno`: 0 asks for another try. -/
def socketError : Errno → Except Exception Nat
  | .eagain | .eintr => .ok 0
  | .ewouldblock | .etimedout => .error (.socketException .connectionTimeout)
  | .econnreset | .econnaborted => .error (.socketException .connectionTerminated)
  | .edeadlk => .error (.socketException .connectionBlocked)
  | .other code => .error (.socketException (.unknownSocket code))

def readStream (length : Nat) (result : RecvResult) : Except Exception Nat :=
  if length = 0 then .error (.socketException .zeroReadBuffer)
  else match result with
    | .received [] => .error (.socketException .connectionTerminated)
    | .received bytes => .ok bytes.length
    | .failed errno => socketError errno

def writeStream (result : SendResult) : Except Exception Nat :=
  match result with
  | .accepted 0 => .error (.socketException .connectionTerminated)
  | .accepted count => .ok count
  | .failed errno => socketError errno

/-- A call of `send`: which message of the list, from which byte of it, and the
answer, `none` while the call has not returned. -/
structure SendCall where
  position : Nat
  offset : Nat
  result : Option SendResult
  deriving DecidableEq, Repr

structure WriteLoop where
  calls : List SendCall
  outcome : Option (Except Exception Nat)
  rest : List SendResult

/-- `while (WriteStream(response, length) == 0) Yield();` -/
def retryWrite (position : Nat) : List SendResult → WriteLoop
  | [] => ⟨[⟨position, 0, none⟩], none, []⟩
  | result :: rest => match writeStream result with
    | .ok 0 =>
      let later := retryWrite position rest
      { later with calls := ⟨position, 0, some result⟩ :: later.calls }
    | outcome => ⟨[⟨position, 0, some result⟩], some outcome, rest⟩

/-- The checks in front of `send` fail before it is called. -/
def writeMessage (fd : Int) (position length : Nat) (answers : List SendResult) : WriteLoop :=
  if length = 0 then ⟨[], some (.error (.socketException .zeroWriteBuffer)), answers⟩
  else if fd < 0 then ⟨[], some (.error (.ioException "Socket function called on an invalid fd.")), answers⟩
  else retryWrite position answers

structure World where
  conn : Nat → Connection
  server : Server

/-- An operation that returned, by an exception or not. -/
structure Ended where
  world : World
  thrown : Option Exception := none

structure WriteRun where
  world : World
  calls : List SendCall
  returned : Bool
  thrown : Option Exception := none

namespace World

def modify (w : World) (c : Nat) (f : Connection → Connection) : World :=
  { w with conn := Function.update w.conn c (f (w.conn c)) }

def descriptor (w : World) (c : Nat) : Int := (w.conn c).fd

def poll (w : World) (f : Poll → Poll) : World := { w with server := { w.server with poll := f w.server.poll } }

def setState (w : World) (c : Nat) (state : State) : World := w.modify c ({ · with state })

def deleteConnection (w : World) (c : Nat) : World := { w with server := w.server.deleteConnection w.descriptor c }

def markActivity (w : World) (c : Nat) : World := { w with server := w.server.activityOn w.descriptor c }

def pushIncoming (w : World) (c : Nat) (message : IncomingHttpMessage) : World :=
  w.modify c fun conn => { conn with incoming := conn.incoming ++ [message] }

def setPersistence (w : World) (c : Nat) (isPersistent : Bool) : World := w.modify c ({ · with isPersistent })

def setBuffer (w : World) (c : Nat) (buffer : CString) : World := w.modify c ({ · with buffer })

/-- `Initialize`, on a server with a poll. -/
def initialise (w : World) (c : Nat) : Ended :=
  match w.server.poll.openEvent (w.descriptor c) with
  | .error error => ⟨w, some error⟩
  | .ok _ =>
    let fd := w.descriptor c
    ⟨(w.poll fun poll => ((poll.insertRead fd).insertWrite fd).insertError fd).setState c .connected, none⟩

def close (w : World) (c : Nat) : Ended :=
  if (w.conn c).state = .closing then ⟨w, none⟩
  else
    let w := (w.setState c .closing).deleteConnection c
    let fd := w.descriptor c
    let w := w.poll fun poll => ((poll.removeRead fd).removeWrite fd).removeError fd
    match w.server.poll.closeEvent c fd with
    | .error error => ⟨w, some error⟩
    | .ok poll =>
      let w := w.poll fun _ => poll
      ⟨if 0 ≤ fd then w.modify c ({ · with fd := -1 }) else w, none⟩

def sendMessage (w : World) (c : Nat) (message : OutgoingHttpMessage) : World :=
  if (w.conn c).state ≠ .connected then w
  else
    let w := w.modify c fun conn => { conn with outgoing := conn.outgoing ++ [message.serialize] }
    w.poll (·.insertWrite (w.descriptor c))

/-- The answer, the caller's list and the world after swapping it with the queue. -/
def getMessages (w : World) (c : Nat) (messages : List IncomingHttpMessage) : Bool × List IncomingHttpMessage × World :=
  if (w.conn c).state ≠ .connected ∨ (w.conn c).incoming = [] then (false, messages, w)
  else (true, (w.conn c).incoming, w.modify c ({ · with incoming := messages }))

def eventError (w : World) (c : Nat) : Ended :=
  if (w.conn c).state = .inactive then
    ⟨w, some (.ioException "EventError() called on an inactive worker connection.")⟩
  else w.close c

/-- The handler of a `DeserializationError`: the second one in a row is answered. -/
def badData (w : World) (c : Nat) (message : IncomingHttpMessage) : World :=
  if (w.conn c).bufferHasBadData then
    match message.getRequestId with
    | some id => w.sendMessage c (.badRequestFor id.value)
    | none => w.sendMessage c .badRequest
  else w.modify c ({ · with bufferHasBadData := true })

/-- One pass of `while (Deserialize(...))`; a parser that does not return is an
exit without a result. -/
def processStep (c : Nat) (w : World) : Loop.Step World (Option Ended) :=
  match IncomingHttpMessage.deserialize (w.conn c).buffer.content with
  | none => .exit none
  | some .incomplete => .exit (some ⟨w.modify c ({ · with bufferHasBadData := false }), none⟩)
  | some (.thrown (.deserializationError _) message) => .exit (some ⟨w.badData c message, none⟩)
  | some (.thrown error _) => .exit (some ⟨w, some error⟩)
  | some (.complete message eof) =>
    let w := w.pushIncoming c message
    match (w.conn c).buffer.erase 0 eof with
    | .error error => .exit (some ⟨w, some error⟩)
    | .ok buffer => .next (((w.setBuffer c buffer).setPersistence c message.isPersistent).markActivity c)

/-- As many passes as bytes, and one more, decide the loop. -/
def processEventRead (w : World) (c : Nat) : Option Ended :=
  (Loop.run (processStep c) ((w.conn c).buffer.length + 1) w).join

/-- Makes room for a read behind the content. -/
def reserveBuffer (buffer : CString) : CString :=
  if buffer.reserved < addSize bufferLength buffer.length then buffer.reserve (subSize bufferLength buffer.reserved)
  else buffer

/-- `recv` stores at `End()`. -/
def storeRead (buffer : CString) : RecvResult → CString
  | .received bytes => { buffer with string := memcpy buffer.string buffer.length bytes }
  | .failed _ => buffer

def eventRead (w : World) (c : Nat) (result : RecvResult) : Option Ended :=
  if (w.conn c).state ≠ .connected then some ⟨w, none⟩
  else
    let buffer := storeRead (reserveBuffer (w.conn c).buffer) result
    let w := w.setBuffer c buffer
    match readStream bufferLength result with
    | .error _ => some (w.close c)
    | .ok len => match buffer.adjustLength len with
      | .error error => some ⟨w, some error⟩
      | .ok buffer =>
        if len = 0 then some ⟨w.setBuffer c buffer.clear, none⟩
        else (w.setBuffer c buffer).processEventRead c

/-- Reads delivered one by one, up to one that does not return or throws. -/
def readAll (c : Nat) : List RecvResult → World → Option Ended
  | [], w => some ⟨w, none⟩
  | result :: results, w => match w.eventRead c result with
    | some ⟨w, none⟩ => readAll c results w
    | other => other

/-- The loop over the list of messages taken from the queue. -/
def writeMessages (c : Nat) : Nat → List OutgoingHttpMessage → List SendResult → World → WriteRun
  | _, [], _, w => ⟨w, [], true, none⟩
  | position, message :: messages, answers, w =>
    if (w.conn c).state ≠ .connected then ⟨w, [], true, none⟩
    else
      let sent := writeMessage (w.descriptor c) position message.getLength answers
      match sent.outcome with
      | none => ⟨w, sent.calls, false, none⟩
      | some (.error _) => ⟨(w.close c).world, sent.calls, true, (w.close c).thrown⟩
      | some (.ok _) =>
        if message.isPersistent then
          let later := writeMessages c (position + 1) messages sent.rest w
          { later with calls := sent.calls ++ later.calls }
        else ⟨(w.close c).world, sent.calls, true, (w.close c).thrown⟩

def eventWrite (w : World) (c : Nat) (answers : List SendResult) : WriteRun :=
  if (w.conn c).state ≠ .connected then ⟨w, [], true, none⟩
  else if (w.conn c).outgoing = [] then ⟨w.poll (·.removeWrite (w.descriptor c)), [], true, none⟩
  else writeMessages c 0 (w.conn c).outgoing answers (w.modify c ({ · with outgoing := [] }))

end World
end LibWebserver
