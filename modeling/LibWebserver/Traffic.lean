import LibWebserver.Interleaving

/-! The worker of a server. It takes the active connections one by one and asks each for
its messages, with an empty list of its own. -/

namespace LibWebserver

/-- `GetActiveConnection`: the connection and the server without it among the active ones. -/
def Server.getActiveConnection (self : Server) : Option (Nat × Server) :=
  match self.activity with
  | [] => none
  | c :: activity => some (c, { self with activity })

/-- A server and its worker. -/
structure Traffic where
  world : World
  /-- The connection that was taken and not yet asked. -/
  popped : Option Nat
  /-- The messages of each connection that were deserialized, and those handed out. -/
  arrived : Nat → List IncomingHttpMessage
  handed : Nat → List IncomingHttpMessage

namespace Traffic

/-- A server without connections. -/
def start (size : Nat) : Traffic where
  world := (Threads.start size).world
  popped := none
  arrived _ := []
  handed _ := []

/-- Adds the messages a read of a connection put behind those it had. -/
def record (self : Traffic) (c : Nat) (world : World) : Traffic :=
  let arrivals := (world.conn c).incoming.drop (self.world.conn c).incoming.length
  { self with world, arrived := Function.update self.arrived c (self.arrived c ++ arrivals) }

/-- `GetMessages` on the connection that was taken. -/
def ask (self : Traffic) (c : Nat) : Traffic :=
  let (found, messages, world) := self.world.getMessages c []
  { self with world, popped := none
              handed := Function.update self.handed c (self.handed c ++ if found then messages else []) }

/-- What the worker does next. -/
def serve (self : Traffic) : Traffic :=
  match self.popped with
  | some c => self.ask c
  | none => match self.world.server.getActiveConnection with
    | none => self
    | some (c, server) => { self with world := { self.world with server }, popped := some c }

end Traffic
end LibWebserver
