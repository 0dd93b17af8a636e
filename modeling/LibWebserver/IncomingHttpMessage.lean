import LibWebserver.CString
import LibWebserver.HttpTypes
import LibWebserver.Library.Loop

/-! The parser of incoming messages. Its loops run for a bounded number of
passes, and the parser gives no outcome when one of them has not ended by then. -/

namespace LibWebserver
open CStr

structure IncomingHttpMessage where
  method : HttpMethod := .response
  uri : Bytes := []
  length : Nat := 0
  isPersistent : Bool := false
  headers : List HttpPair := []
  queries : List HttpPair := []
  requestId : Option HttpPair := none
  deriving DecidableEq, Repr

/-- How a parsing stage ends: `true` with the message and `eof` so far, `false`
on incomplete data, or an exception, which leaves the message to its handler.
After `false` nothing reads the message or `eof` again. -/
inductive Outcome where
  | complete (message : IncomingHttpMessage) (eof : Nat)
  | incomplete
  | thrown (error : Exception) (message : IncomingHttpMessage)
  deriving DecidableEq, Repr

namespace IncomingHttpMessage

/-- Throws a `DeserializationError` that quotes the first line. -/
def throwLine (self : IncomingHttpMessage) (request : Bytes) (text : String) (eof : Nat) : Outcome :=
  match CString.substring request 0 eof with
  | .error error => .thrown error self
  | .ok line => .thrown (.deserializationError (cstr (ascii text ++ line))) self

def readUri (self : IncomingHttpMessage) (request : Bytes) (p eof : Nat) : Outcome :=
  match CString.posFrom request (ascii " HTTP/1.") p with
  | .error error => .thrown error self
  | .ok none => self.throwLine request "Invalid protocol: " eof
  | .ok (some pp) => match CString.substring request p (pp - p) with
    | .error error => .thrown error self
    | .ok uri => .complete { self with uri := cstr uri } eof

def checkCode (self : IncomingHttpMessage) (request : Bytes) (p eof : Nat) : Outcome :=
  if CString.compare request (ascii "200") p 3 ≠ .eq then self.throwLine request "Response code is not 200: " eof
  else .complete self eof

def deserializeMethod (self : IncomingHttpMessage) (request : Bytes) : Outcome :=
  match CString.pos request crlf with
  | none => .incomplete
  | some found =>
    let eof := found + 2
    if CString.compare request (ascii "POST ") 0 5 = .eq then
      { self with method := .post }.readUri request 5 eof
    else if CString.compare request (ascii "GET ") 0 4 = .eq then
      { self with method := .get }.readUri request 4 eof
    else if CString.compare request (ascii "HTTP/1.1 ") 0 9 = .eq then
      { self with method := .response }.checkCode request 9 eof
    else if CString.compare request (ascii "HTTP/1.0 ") 0 9 = .eq then
      { self with method := .response }.checkCode request 9 eof
    else self.throwLine request "Invalid method: " eof

structure KeyScan where
  key : Bytes
  p : Bytes
  eof : Nat
  deriving DecidableEq, Repr

/-- The key loop: up to the end of the buffer, a CR, or just past a ": ". -/
def scanKey : Bytes → Nat → KeyScan
  | [], eof => ⟨[], [], eof⟩
  | c :: p, eof =>
    if c = 0 ∨ c = cr then ⟨[], c :: p, eof⟩
    else if c = 58 ∧ peek p = 32 then ⟨[], p.tail, eof + 2⟩
    else
      let rest := scanKey p (eof + 1)
      { rest with key := c :: rest.key }

structure ValueScan where
  value : Bytes
  p : Bytes
  eof : Nat
  headerLineEnd : Bool
  deriving DecidableEq, Repr

/-- The value loop: up to the end of the buffer or just past a CRLF. -/
def scanValue : Bytes → Nat → ValueScan
  | [], eof => ⟨[], [], eof, false⟩
  | c :: p, eof =>
    if c = 0 then ⟨[], c :: p, eof, false⟩
    else if c = cr ∧ peek p = lf then ⟨[], p.tail, eof + 2, true⟩
    else
      let rest := scanValue p (eof + 1)
      { rest with value := c :: rest.value }

/-- A pair with a value is stored, and three of them have a meaning of their own. -/
def pushHeader (self : IncomingHttpMessage) (pair : HttpPair) : IncomingHttpMessage :=
  if pair.value = [] then self
  else
    let self := { self with headers := self.headers ++ [pair] }
    if strcasecmp pair.key (ascii "content-length") = .eq then
      { self with length := strtoul pair.value }
    else if strcasecmp pair.key (ascii "connection") = .eq then
      { self with isPersistent := strcasecmp pair.value (ascii "keep-alive") = .eq }
    else if strcasecmp pair.key (ascii "x-request-id") = .eq then
      { self with requestId := some pair }
    else self

structure HeaderState where
  message : IncomingHttpMessage
  p : Bytes
  eof : Nat
  headerLineEnd : Bool
  deriving DecidableEq, Repr

/-- One pass of `while (*p)`. -/
def headerStep (request : Bytes) (state : HeaderState) : Loop.Step HeaderState Outcome :=
  if peek state.p = 0 then .exit .incomplete
  else if state.eof + 2 > request.length then .exit .incomplete
  else if peek state.p = cr ∧ peek state.p.tail = lf ∧ state.headerLineEnd then
    .exit (.complete state.message (state.eof + 2))
  else
    let key := scanKey state.p state.eof
    if key.key = [] then .next { state with p := key.p, eof := key.eof, headerLineEnd := false }
    else
      let value := scanValue key.p key.eof
      .next { message := state.message.pushHeader ⟨key.key, value.value⟩
              p := value.p, eof := value.eof, headerLineEnd := value.headerLineEnd }

def deserializeHeader (fuel : Nat) (self : IncomingHttpMessage) (request : Bytes) (eof : Nat) : Option Outcome :=
  if eof ≥ request.length then some .incomplete
  else Loop.run (headerStep request) fuel ⟨self, request.drop eof, eof, false⟩

structure QueryState where
  p : Bytes
  queries : List HttpPair
  deriving DecidableEq, Repr

/-! The tests of the inner loops. -/

def isSeparator (c : UInt8) : Bool := c = 63 ∨ c = 38
def inKey (c : UInt8) : Bool := c ≠ 61 ∧ c ≠ 0
def isEquals (c : UInt8) : Bool := c = 61
def inValue (c : UInt8) : Bool := c ≠ 38 ∧ c ≠ 0

/-- One pass of `while (*p)`: separators, key, run of '=', value. -/
def queryStep (state : QueryState) : Loop.Step QueryState (List HttpPair) :=
  if peek state.p = 0 then .exit state.queries
  else
    let p := state.p.dropWhile isSeparator
    let key := p.takeWhile inKey
    let p := (p.dropWhile inKey).dropWhile isEquals
    if key = [] then .next { state with p }
    else
      let value := p.takeWhile inValue
      let p := p.dropWhile inValue
      .next { p, queries := if value = [] then state.queries else state.queries ++ [⟨key, value⟩] }

def pushQueries (fuel : Nat) (self : IncomingHttpMessage) (p : Bytes) (eof : Nat) : Option Outcome :=
  (Loop.run queryStep fuel ⟨p, self.queries⟩).map fun queries => .complete { self with queries } eof

def deserializeQuery (fuel : Nat) (self : IncomingHttpMessage) (request : Bytes) (eof : Nat) : Option Outcome :=
  match self.method with
  | .get => match strstr (ascii "?") self.uri with
    | none => some (.complete self (addSize eof self.length))
    | some p => self.pushQueries fuel (self.uri.drop p) (addSize eof self.length)
  | .post | .response =>
    if addSize eof self.length > request.length then some .incomplete
    else self.pushQueries fuel (request.drop eof) (addSize eof self.length)

def deserializeWithin (fuel : Nat) (data : Bytes) : Option Outcome :=
  if CString.isEmpty data then some .incomplete
  else match deserializeMethod {} data with
    | .complete message eof => match deserializeHeader fuel message data eof with
      | some (.complete message eof) => message.deserializeQuery fuel data eof
      | other => other
    | other => some other

/-- `Deserialize`, `none` when it does not return: more passes than bytes decide
every loop (`deserialize_eq_some_iff`). -/
def deserialize (data : Bytes) : Option Outcome := deserializeWithin (data.length + 1) data

/-- The loop of `FindHeader` and `FindQuery`. -/
def findPair (pairs : List HttpPair) (key : Bytes) : Option HttpPair :=
  pairs.find? fun pair => strcasecmp key pair.key = .eq

def findHeader (self : IncomingHttpMessage) (key : Bytes) : Option HttpPair := findPair self.headers key

def findQuery (self : IncomingHttpMessage) (key : Bytes) : Option HttpPair := findPair self.queries key

def getRequestId (self : IncomingHttpMessage) : Option HttpPair := self.requestId

end IncomingHttpMessage
end LibWebserver
