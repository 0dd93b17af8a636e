import Mathlib.Data.List.Basic

/-! The pool of handlers of a listener, and how an accepted connection is given to
one of them. The listener thread runs before the first handler is added. -/

namespace LibWebserver

/-- `current_handler_` is set by `AddHandler` only. It does not wrap: once there is a
handler, the index stays below the size of the pool. -/
structure BaseListener where
  handlers : List Nat
  currentHandler : Nat
  deriving DecidableEq, Repr

namespace BaseListener

/-- A listener as its constructor leaves it; the index is what the memory held. -/
def create (indeterminate : Nat) : BaseListener := { handlers := [], currentHandler := indeterminate }

def addHandler (self : BaseListener) (server : Nat) : BaseListener :=
  { handlers := self.handlers ++ [server], currentHandler := 0 }

/-- `handlers_[current_handler_]`, `none` when the index is out of range. -/
def getCurrentHandler (self : BaseListener) : Option Nat := self.handlers[self.currentHandler]?

/-- The end of a pass of the accept loop. -/
def advance (self : BaseListener) : BaseListener :=
  { self with currentHandler := if self.currentHandler + 1 = self.handlers.length then 0 else self.currentHandler + 1 }

inductive Step where
  | addHandler (server : Nat)
  | accept
  deriving DecidableEq, Repr

def step (self : BaseListener) : Step → BaseListener
  | .addHandler server => self.addHandler server
  | .accept => self.advance

def run (self : BaseListener) (steps : List Step) : BaseListener := steps.foldl step self

/-- The calls of `GetCurrentHandler`, each with the state it was made in. -/
def calls (self : BaseListener) : List Step → List BaseListener
  | [] => []
  | .addHandler server :: steps => calls (self.addHandler server) steps
  | .accept :: steps => self :: calls self.advance steps

/-- How many of the connections accepted in a run the handler at an index was given. -/
def share (self : BaseListener) (steps : List Step) (index : Nat) : Nat :=
  (self.calls steps).countP (·.currentHandler = index)

end BaseListener
end LibWebserver
