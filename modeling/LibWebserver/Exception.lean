/-! The exceptions the modelled code throws, with the reason each carries. -/

namespace LibWebserver

/-- The subclasses of `SocketException`. -/
inductive SocketError where
  | zeroReadBuffer
  | zeroWriteBuffer
  | connectionTerminated
  | connectionTimeout
  | connectionBlocked
  | unknownSocket (errno : Int)
  deriving DecidableEq, Repr

inductive Exception where
  | deserializationError (why : List UInt8)
  | internalError (why : String)
  | invalidRange (why : String)
  | ioException (why : String)
  | socketException (error : SocketError)
  | tooManyConnectionsError
  deriving DecidableEq, Repr

end LibWebserver
