import LibWebserver.Operation

/-! What a connection tells the statistics about its traffic: the length of each request
it takes off its buffer, and each response it has written. -/

namespace LibWebserver

/-- The traffic counters of `WebserverStatus`. -/
structure Counters where
  trafficIn : UInt64 := 0
  trafficOut : UInt64 := 0
  httpServed : HttpCode → UInt64 := fun _ => 0

namespace Counters

def incomingRequest (self : Counters) (length : Nat) : Counters :=
  { self with trafficIn := self.trafficIn + UInt64.ofNat length }

/-- `ServedRequest`, but for the latency. -/
def servedRequest (self : Counters) (message : OutgoingHttpMessage) : Counters :=
  { self with
    httpServed := Function.update self.httpServed message.responseCode (self.httpServed message.responseCode + 1)
    trafficOut := self.trafficOut + UInt64.ofNat message.getLength }

end Counters

/-- Bytes that leave the buffer of a connection: those of a request, which is told to
`IncomingRequest` with its length, or those a read without bytes clears away. -/
inductive Portion where
  | request (message : IncomingHttpMessage) (length : Nat) (bytes : Bytes)
  | cleared (bytes : Bytes)
  deriving DecidableEq, Repr

namespace Portion

def bytes : Portion → Bytes
  | .request _ _ bytes => bytes
  | .cleared bytes => bytes

def message : Portion → Option IncomingHttpMessage
  | .request message _ _ => some message
  | .cleared _ => none

/-- What `IncomingRequest` was told. -/
def counted : Portion → Nat
  | .request _ length _ => length
  | .cleared _ => 0

/-- What nobody is told. -/
def lost : Portion → Nat
  | .request _ _ _ => 0
  | .cleared bytes => bytes.length

def report (counters : Counters) : Portion → Counters
  | .request _ length _ => counters.incomingRequest length
  | .cleared _ => counters

end Portion

namespace World

/-- What a pass of `ProcessEventRead_` that goes on has taken. -/
def requestPortion (w : World) (c : Nat) : List Portion :=
  match IncomingHttpMessage.deserialize (w.conn c).buffer.content with
  | some (.complete message eof) => [.request message eof ((w.conn c).buffer.content.take eof)]
  | _ => []

/-- `ProcessEventRead_`. -/
def passPortions (c : Nat) : Nat → World → List Portion
  | 0, _ => []
  | fuel + 1, w => match processStep c w with
    | .exit _ => []
    | .next after => w.requestPortion c ++ passPortions c fuel after

/-- `EventRead`. -/
def readPortions (w : World) (c : Nat) (result : RecvResult) : List Portion :=
  if (w.conn c).state ≠ .connected then []
  else match readStream bufferLength result with
    | .error _ => []
    | .ok len => match (storeRead (reserveBuffer (w.conn c).buffer) result).adjustLength len with
      | .error _ => []
      | .ok buffer =>
        if len = 0 then [.cleared buffer.content] else passPortions c (buffer.length + 1) (w.setBuffer c buffer)

end World
end LibWebserver
