import LibWebserver.Library.CStr

/-! Methods, response codes and their status lines. -/

namespace LibWebserver

inductive HttpMethod where
  | response
  | post
  | get
  deriving DecidableEq, Repr

inductive HttpCode where
  | ok
  | noContent
  | badRequest
  | forbidden
  | notFound
  | notAcceptable
  | timeout
  | tooManyConnections
  deriving DecidableEq, Repr

namespace HttpCode

/-- `HTTP_CODES[code][HTTP_CODE]`. -/
def code : HttpCode → Bytes
  | ok => ascii "200"
  | noContent => ascii "204"
  | badRequest => ascii "400"
  | forbidden => ascii "403"
  | notFound => ascii "404"
  | notAcceptable => ascii "406"
  | timeout => ascii "408"
  | tooManyConnections => ascii "503"

/-- `HTTP_CODES[code][HTTP_MESSAGE]`. -/
def message : HttpCode → Bytes
  | ok => ascii "200 OK"
  | noContent => ascii "204 No Content"
  | badRequest => ascii "400 Bad Request"
  | forbidden => ascii "403 Forbidden"
  | notFound => ascii "404 Not Found"
  | notAcceptable => ascii "406 Not Acceptable"
  | timeout => ascii "408 Request Timeout"
  | tooManyConnections => ascii "503 Too Many Connections"

/-- `HTTP_CODES_LENGTH[code]`. -/
def length : HttpCode → Nat
  | ok => 6
  | noContent => 14
  | badRequest => 15
  | forbidden => 13
  | notFound => 13
  | notAcceptable => 18
  | timeout => 19
  | tooManyConnections => 24

end HttpCode

structure HttpPair where
  key : Bytes
  value : Bytes
  deriving DecidableEq, Repr

end LibWebserver
