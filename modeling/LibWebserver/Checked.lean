import LibWebserver.IncomingHttpMessage

/-! `Deserialize` over the memory it reads. A pointer is an index from `Str()`, kept
apart from `eof`, the loops test one condition at a time, and a read behind the byte at
`Length()` is a fault. -/

namespace LibWebserver.Checked
open CStr IncomingHttpMessage

/-- An access to memory outside what a function may use. -/
inductive Fault where
  | read (index : Nat)
  | write (index : Nat)
  | compare (start len : Nat)
  deriving DecidableEq, Repr

/-- What a `const char*` may be used for: the bytes of a block up to the one at `length`. -/
structure Text where
  block : Bytes
  length : Nat
  deriving DecidableEq, Repr

namespace Text

def readable (text : Text) : Bytes := text.block.take (text.length + 1)

def read (text : Text) (index : Nat) : Except Fault UInt8 :=
  match text.readable[index]? with
  | some c => .ok c
  | none => .error (.read index)

/-- `*p == first && *(p + 1) == second`. -/
def readPair (text : Text) (p : Nat) (first second : UInt8) : Except Fault Bool := do
  let c ← text.read p
  if c = first then return (← text.read (p + 1)) == second
  else return false

/-- `strstr` from an index reads up to the first NUL there is. -/
def strstr (text : Text) (needle : Bytes) (start : Nat) : Except Fault (Option Nat) :=
  if 0 ∈ text.readable.drop start then .ok ((CStr.strstr needle (text.readable.drop start)).map (· + start))
  else .error (.read (text.length + 1))

/-- `memcmp` with a literal may read all `len` bytes of both. -/
def memcmp (text : Text) (literal : Bytes) (start len : Nat) : Except Fault Ordering :=
  if start + len ≤ text.length ∧ len ≤ literal.length then .ok (CStr.memcmp (text.readable.drop start) literal len)
  else .error (.compare start len)

end Text

def textOf (s : CString) : Text := ⟨s.string, s.length⟩

/-- `c_str()` of a `std::string`. -/
def ofString (s : Bytes) : Text := ⟨s ++ [0], s.length⟩

/-- `IsEmpty()`, with `strempty` as the test of the first byte. -/
def isEmpty (s : CString) : Except Fault Bool :=
  if s.length = 0 then .ok true
  else do return (← (textOf s).read 0) == 0

/-- `Pos(str)`, none for `npos`. -/
def pos (s : CString) (str : Bytes) : Except Fault (Option Nat) := (textOf s).strstr str 0

/-- `Pos(str, pos)`. -/
def posFrom (s : CString) (str : Bytes) (start : Nat) : Except Fault (Except Exception (Option Nat)) :=
  if start ≥ s.length then .ok (.error (.internalError "CString size overflow"))
  else do return .ok (← (textOf s).strstr str start)

def compare (s : CString) (str : Bytes) (start len : Nat) : Except Fault Ordering :=
  if addSize start len ≤ s.length then (textOf s).memcmp str start len
  else (textOf s).memcmp str start (subSize s.length start)

def substring (s : CString) (start len : Nat) : Except Fault (Except Exception Bytes) :=
  if addSize start len > s.length then .ok (.error (.internalError "CString size overflow"))
  else if start + len ≤ s.length then .ok (.ok (((textOf s).readable.drop start).take len))
  else .error (.read (start + len))

/-- `Substring` with the memory its result needs, which `malloc` may refuse. -/
def allocatedSubstring (allocates : Nat → Bool) (s : CString) (start len : Nat) :
    Except Fault (Except Exception Bytes) :=
  if addSize start len > s.length then .ok (.error (.internalError "CString size overflow"))
  else if allocates (addSize len 1) then substring s start len
  else .ok (.error (.internalError "malloc failed"))

def throwLine (self : IncomingHttpMessage) (request : CString) (text : String) (eof : Nat) : Except Fault Outcome := do
  match ← substring request 0 eof with
  | .error error => return .thrown error self
  | .ok line => return .thrown (.deserializationError (cstr (ascii text ++ line))) self

def readUri (self : IncomingHttpMessage) (request : CString) (p eof : Nat) : Except Fault Outcome := do
  match ← posFrom request (ascii " HTTP/1.") p with
  | .error error => return .thrown error self
  | .ok none => throwLine self request "Invalid protocol: " eof
  | .ok (some pp) => match ← substring request p (pp - p) with
    | .error error => return .thrown error self
    | .ok uri => return .complete { self with uri := cstr uri } eof

def checkCode (self : IncomingHttpMessage) (request : CString) (p eof : Nat) : Except Fault Outcome := do
  if (← compare request (ascii "200") p 3) ≠ .eq then throwLine self request "Response code is not 200: " eof
  else return .complete self eof

def deserializeMethod (self : IncomingHttpMessage) (request : CString) : Except Fault Outcome := do
  match ← pos request crlf with
  | none => return .incomplete
  | some found =>
    let eof := found + 2
    if (← compare request (ascii "POST ") 0 5) = .eq then readUri { self with method := .post } request 5 eof
    else if (← compare request (ascii "GET ") 0 4) = .eq then readUri { self with method := .get } request 4 eof
    else if (← compare request (ascii "HTTP/1.1 ") 0 9) = .eq then checkCode { self with method := .response } request 9 eof
    else if (← compare request (ascii "HTTP/1.0 ") 0 9) = .eq then checkCode { self with method := .response } request 9 eof
    else throwLine self request "Invalid method: " eof

/-- Which loop of the header function tests its condition next. -/
inductive Place where
  | line
  | key
  | value
  deriving DecidableEq, Repr

/-- The locals of the header function; `p` counts from `Str()`. -/
structure Cursor where
  message : IncomingHttpMessage
  p : Nat
  eof : Nat
  headerLineEnd : Bool
  place : Place
  pair : HttpPair
  deriving DecidableEq, Repr

namespace Cursor

/-- `p` and `eof` are moved by the same amount, in two statements. -/
def skip (cursor : Cursor) (count : Nat) : Cursor := { cursor with p := cursor.p + count, eof := cursor.eof + count }

def leaveKey (cursor : Cursor) : Cursor :=
  if cursor.pair.key = [] then { cursor with place := .line } else { cursor with place := .value }

def leaveValue (cursor : Cursor) : Cursor :=
  { cursor with place := .line, message := cursor.message.pushHeader cursor.pair }

end Cursor

/-- One test of a loop condition and the statements up to the next one. -/
def headerStep (request : CString) (cursor : Cursor) : Except Fault (Loop.Step Cursor Outcome) := do
  let text := textOf request
  let c ← text.read cursor.p
  match cursor.place with
  | .line =>
    if c = 0 then return .exit .incomplete
    else if cursor.eof + 2 > request.length then return .exit .incomplete
    else if (← text.readPair cursor.p cr lf) && cursor.headerLineEnd then
      return .exit (.complete cursor.message (cursor.eof + 2))
    else return .next { cursor with headerLineEnd := false, place := .key, pair := ⟨[], []⟩ }
  | .key =>
    if c = 0 ∨ c = cr then return .next cursor.leaveKey
    else if ← text.readPair cursor.p 58 32 then return .next (cursor.skip 2).leaveKey
    else return .next { cursor.skip 1 with pair.key := cursor.pair.key ++ [c] }
  | .value =>
    if c = 0 then return .next cursor.leaveValue
    else if ← text.readPair cursor.p cr lf then return .next { cursor.skip 2 with headerLineEnd := true }.leaveValue
    else return .next { cursor.skip 1 with pair.value := cursor.pair.value ++ [c] }

/-- The locals in front of the loop. -/
def startHeader (self : IncomingHttpMessage) (eof : Nat) : Cursor := ⟨self, eof, eof, false, .line, ⟨[], []⟩⟩

def deserializeHeader (fuel : Nat) (self : IncomingHttpMessage) (request : CString) (eof : Nat) :
    Option (Except Fault Outcome) :=
  if eof ≥ request.length then some (.ok .incomplete)
  else Loop.run (Loop.failing (headerStep request)) fuel (startHeader self eof)

inductive QueryPlace where
  | start
  | separators
  | key
  | equals
  | value
  deriving DecidableEq, Repr

structure QueryCursor where
  p : Nat
  place : QueryPlace
  pair : HttpPair
  queries : List HttpPair
  deriving DecidableEq, Repr

namespace QueryCursor

def leaveValue (cursor : QueryCursor) : QueryCursor :=
  { cursor with
    place := .start
    queries := if cursor.pair.value = [] then cursor.queries else cursor.queries ++ [cursor.pair] }

/-- The test of a loop condition on `*p`. -/
def test (cursor : QueryCursor) (c : UInt8) : Loop.Step QueryCursor (List HttpPair) :=
  match cursor.place with
  | .start =>
    if c = 0 then .exit cursor.queries
    else .next { cursor with place := .separators, pair := ⟨[], []⟩ }
  | .separators =>
    if isSeparator c then .next { cursor with p := cursor.p + 1 }
    else .next { cursor with place := .key }
  | .key =>
    if inKey c then .next { cursor with p := cursor.p + 1, pair.key := cursor.pair.key ++ [c] }
    else .next { cursor with place := .equals }
  | .equals =>
    if isEquals c then .next { cursor with p := cursor.p + 1 }
    else .next { cursor with place := if cursor.pair.key = [] then .start else .value }
  | .value =>
    if inValue c then .next { cursor with p := cursor.p + 1, pair.value := cursor.pair.value ++ [c] }
    else .next cursor.leaveValue

end QueryCursor

def queryStep (text : Text) (cursor : QueryCursor) : Except Fault (Loop.Step QueryCursor (List HttpPair)) := do
  return cursor.test (← text.read cursor.p)

def pushQueries (fuel : Nat) (self : IncomingHttpMessage) (text : Text) (p eof : Nat) : Option (Except Fault Outcome) :=
  (Loop.run (Loop.failing (queryStep text)) fuel ⟨p, .start, ⟨[], []⟩, self.queries⟩).map
    (·.map fun queries => .complete { self with queries } eof)

def deserializeQuery (fuel : Nat) (self : IncomingHttpMessage) (request : CString) (eof : Nat) :
    Option (Except Fault Outcome) :=
  match self.method with
  | .get => match (ofString self.uri).strstr (ascii "?") 0 with
    | .error fault => some (.error fault)
    | .ok none => some (.ok (.complete self (addSize eof self.length)))
    | .ok (some p) => pushQueries fuel self (ofString self.uri) p (addSize eof self.length)
  | .post | .response =>
    if addSize eof self.length > request.length then some (.ok .incomplete)
    else pushQueries fuel self (textOf request) eof (addSize eof self.length)

/-- `Deserialize`, none when a loop has not left after `fuel` tests. -/
def deserialize (fuel : Nat) (request : CString) : Option (Except Fault Outcome) :=
  match isEmpty request with
  | .error fault => some (.error fault)
  | .ok true => some (.ok .incomplete)
  | .ok false => match deserializeMethod {} request with
    | .ok (.complete message eof) => match deserializeHeader fuel message request eof with
      | some (.ok (.complete message eof)) => deserializeQuery fuel message request eof
      | other => other
    | other => some other

end LibWebserver.Checked
