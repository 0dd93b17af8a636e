import LibWebserver.CString
import LibWebserver.HttpTypes

/-! The outgoing message: setters, factories and the serializer, which copies
each part to its place in a block allocated by a length counted beforehand. -/

namespace LibWebserver
open CStr

structure OutgoingHttpMessage where
  isPersistent : Bool := false
  method : HttpMethod := .response
  responseCode : HttpCode := .ok
  uri : Bytes := []
  header : Bytes := []
  dataLen : Nat := 0
  len : Nat := 0
  data : Bytes := []
  message : Bytes := []
  deriving DecidableEq, Repr

namespace OutgoingHttpMessage

/-- `memcpy(message_ + pos, text, length)` and `pos += length`. -/
def put (out : Bytes × Nat) (text : Bytes) : Bytes × Nat := (memcpy out.1 out.2 text, out.2 + text.length)

def contentLength (dataLen : Nat) : Bytes := ascii "Content-Length: " ++ decimal dataLen ++ crlf

/-- Allocates the counted length and writes the parts and the NUL behind them. -/
def write (self : OutgoingHttpMessage) (len : Nat) (parts : List Bytes) : OutgoingHttpMessage :=
  let out := parts.foldl put (malloc len, 0)
  { self with len, message := memcpy out.1 out.2 [0] }

def serialize (self : OutgoingHttpMessage) : OutgoingHttpMessage :=
  match self.method with
  | .get =>
    self.write (addSize (addSize (addSize self.uri.length self.header.length) self.dataLen) 19)
      [ascii "GET ", self.uri, ascii "?", self.data, ascii " HTTP/1.1\r\n", self.header, crlf]
  | .post =>
    let self := { self with header := self.header ++ contentLength self.dataLen }
    self.write (addSize (addSize (addSize self.uri.length self.header.length) self.dataLen) 19)
      [ascii "POST ", self.uri, ascii " HTTP/1.1\r\n", self.header, crlf, self.data]
  | .response =>
    let self :=
      if self.responseCode = .ok ∧ self.dataLen = 0 then { self with responseCode := .noContent }
      else { self with header := self.header ++ contentLength self.dataLen }
    self.write (addSize (addSize (addSize self.responseCode.length self.header.length) self.dataLen) 14)
      [ascii "HTTP/1.1 ", self.responseCode.message.take self.responseCode.length, crlf, self.header, crlf, self.data]

def getSerializedMessage (self : OutgoingHttpMessage) : Bytes := self.message

def getLength (self : OutgoingHttpMessage) : Nat := subSize self.len 1

def setPersistence (self : OutgoingHttpMessage) (isPersistent : Bool) : OutgoingHttpMessage :=
  { self with
    isPersistent
    header := self.header ++
      if isPersistent then ascii "Connection: keep-alive\r\n" else ascii "Connection: close\r\n" }

def setMethod (self : OutgoingHttpMessage) (method : HttpMethod) : OutgoingHttpMessage := { self with method }

def setResponseCode (self : OutgoingHttpMessage) (code : HttpCode) : OutgoingHttpMessage :=
  { self with responseCode := code }

/-- The arguments are C strings. -/
def addHeader (self : OutgoingHttpMessage) (key value : Bytes) : OutgoingHttpMessage :=
  { self with header := self.header ++ cstr key ++ ascii ": " ++ cstr value ++ crlf }

def setData (self : OutgoingHttpMessage) (data : Bytes) (len : Nat) : OutgoingHttpMessage :=
  { self with data := data.take len, dataLen := len }

/-- The response every factory starts from. They differ in the code, the fields they may
leave out and the data they fall back to. The timer argument is left out. -/
def respond (code : HttpCode) (isPersistent : Bool) : OutgoingHttpMessage :=
  ((({} : OutgoingHttpMessage).setMethod .response).setResponseCode code).setPersistence isPersistent

def addRequestId (self : OutgoingHttpMessage) (requestId : Bytes) : OutgoingHttpMessage :=
  if requestId ≠ [] then self.addHeader (ascii "X-Request-Id") requestId else self

/-- The text of the code as data. -/
def setMessage (self : OutgoingHttpMessage) (code : HttpCode) : OutgoingHttpMessage :=
  self.setData code.message code.length

def setContent (self : OutgoingHttpMessage) (code : HttpCode) (content : Bytes) : OutgoingHttpMessage :=
  if content ≠ [] then self.setData content content.length else self.setMessage code

def ok (requestId : Bytes) (isPersistent : Bool) : OutgoingHttpMessage :=
  ((respond .ok isPersistent).addRequestId requestId).setMessage .ok

def noContent (requestId : Bytes) (isPersistent : Bool) : OutgoingHttpMessage :=
  ((respond .noContent isPersistent).addRequestId requestId).setMessage .noContent

def badRequest : OutgoingHttpMessage := (respond .badRequest false).setMessage .badRequest

def badRequestFor (requestId : Bytes) : OutgoingHttpMessage :=
  ((respond .badRequest false).addRequestId requestId).setMessage .badRequest

def forbidden : OutgoingHttpMessage := (respond .forbidden false).setMessage .forbidden

def forbiddenFor (requestId : Bytes) : OutgoingHttpMessage :=
  ((respond .forbidden false).addRequestId requestId).setMessage .forbidden

def notFound (isPersistent : Bool) : OutgoingHttpMessage := (respond .notFound isPersistent).setMessage .notFound

def notFoundWith (content : Bytes) (isPersistent : Bool) : OutgoingHttpMessage :=
  (respond .notFound isPersistent).setContent .notFound content

def notFoundFor (requestId content : Bytes) (isPersistent : Bool) : OutgoingHttpMessage :=
  ((respond .notFound isPersistent).addRequestId requestId).setContent .notFound content

def notAcceptable (isPersistent : Bool) : OutgoingHttpMessage :=
  (respond .notAcceptable isPersistent).setMessage .notAcceptable

def notAcceptableWith (content : Bytes) (isPersistent : Bool) : OutgoingHttpMessage :=
  (respond .notAcceptable isPersistent).setContent .notAcceptable content

def notAcceptableFor (requestId content : Bytes) (isPersistent : Bool) : OutgoingHttpMessage :=
  ((respond .notAcceptable isPersistent).addRequestId requestId).setContent .notAcceptable content

def requestTimeout (requestId : Bytes) (isPersistent : Bool) : OutgoingHttpMessage :=
  ((respond .timeout isPersistent).addRequestId requestId).setMessage .timeout

def tooManyConnections : OutgoingHttpMessage := (respond .tooManyConnections false).setMessage .tooManyConnections

end OutgoingHttpMessage
end LibWebserver
