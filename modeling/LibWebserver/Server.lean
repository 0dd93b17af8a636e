import LibWebserver.Poll
import Mathlib.Data.List.Sort

/-! The connection registry. Both sets are ordered by descriptor, so they find an
element by the descriptor it has at that moment. Connections are named by a
number, which stands for the pointer. -/

namespace LibWebserver

structure Server where
  connections : List Nat
  activity : List Nat
  poll : Poll
  deriving DecidableEq, Repr

namespace Server

variable (descriptor : Nat → Int)

/-- `std::set::insert` under `ConnectionLess`. -/
def insertSet (c : Nat) (set : List Nat) : List Nat :=
  if ∃ other ∈ set, descriptor other = descriptor c then set
  else set.orderedInsert (fun a b => descriptor a ≤ descriptor b) c

/-- `std::set::erase` of every element equivalent to the given one. -/
def eraseSet (c : Nat) (set : List Nat) : List Nat := set.filter fun other => descriptor other ≠ descriptor c

def deleteConnection (self : Server) (c : Nat) : Server :=
  { self with connections := eraseSet descriptor c self.connections, activity := eraseSet descriptor c self.activity }

def activityOn (self : Server) (c : Nat) : Server :=
  if c ∈ self.activity then self else { self with activity := insertSet descriptor c self.activity }

end Server
end LibWebserver
