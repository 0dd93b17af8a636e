import LibWebserver.Traffic

/-! The worker of the demo. It takes the messages of every active connection, answers
the GET requests among them, and gives up a batch at the first message of another
method. -/

namespace LibWebserver

/-- The enumerators of `HttpMethod`. -/
def HttpMethod.number : HttpMethod → Nat
  | .response => 0
  | .post => 1
  | .get => 2

namespace HttpWorker
open CStr

/-- What every answer to a GET request starts with. -/
@[irreducible] def text : Bytes := ascii
  ("Huge dust coma uniform rotating Saros, and time waiting for a response amounted to 80 billion years. " ++
    "Height, sublimipuya with povephnosti yadpa comets observable. Solar eclipse selects a population close to the index, " ++
    "this last Saturday, deputy administrator NASA. Many comets have two tails, but the eccentricity is traditionally " ++
    "evaluated by an asteroid, but the rings are visible only at 40-50. Anti-aircraft Hourly Rate by accident. " ++
    "Connection, by definition, gives the asteroid, the interest in astronomy and Galla eclipses Cicero also says in his " ++
    "treatise 'On Old Age' (De senectute). ")

def greeting (uri : Bytes) (isPersistent : Bool) : OutgoingHttpMessage :=
  let str := text ++ uri
  ((((({} : OutgoingHttpMessage).setMethod .response).setPersistence isPersistent).setData str str.length).setResponseCode .ok)

/-- `c_format("Unhandled request method %i", request->GetMethod())`. -/
def unhandled (method : HttpMethod) : Bytes := ascii "Unhandled request method " ++ decimal method.number

/-- The response to a request, with the persistence the connection has when it is built. -/
def answer (isPersistent : Bool) (request : IncomingHttpMessage) : OutgoingHttpMessage :=
  if request.method = .get then greeting request.uri isPersistent
  else .notAcceptableWith (unhandled request.method) isPersistent

/-- The loop over the messages of a connection. Nothing in it throws as long as `epoll_ctl` succeeds in the
`InsertWrite` of `SendMessage`, so its handler is left out. -/
def respond (c : Nat) : List IncomingHttpMessage → World → World
  | [], w => w
  | request :: requests, w =>
    let sent := w.sendMessage c (answer (w.conn c).isPersistent request)
    if request.method ≠ .get ∧ (sent.conn c).state = .connected then sent else respond c requests sent

/-- One pass of `while (server_->GetActiveConnection(connection))`. -/
def passStep (w : World) : Loop.Step World World :=
  match w.server.getActiveConnection with
  | none => .exit w
  | some (c, server) =>
    let (found, requests, asked) := { w with server }.getMessages c []
    .next (if found then respond c requests asked else asked)

/-- The loop ends, since every pass takes a connection out of the active ones. -/
def serve (w : World) : Option World := Loop.run passStep (w.server.activity.length + 1) w

end HttpWorker
end LibWebserver
