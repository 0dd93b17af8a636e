import Mathlib.Algebra.Group.Nat.Defs
import Mathlib.Data.List.Basic
import Mathlib.Logic.Relation

/-! The servers of a process share one `Status`. The constructor that counts the first
server makes it, the destructor that counts the last one destroys it. Every access to
`servers_count_` and to the pointer is a step of its own, in any order. The thread of the
object is detached, so `Join` does not wait for it and nothing keeps it from using the object
after it is deleted. -/

namespace LibWebserver

/-- Where a constructor or a destructor of a server is. -/
inductive Passage where
  /-- `Constructor_`, at `servers_count_++`, in `Init`, and at the creation of the poll. -/
  | count
  | allocate
  | assign (object : Nat)
  | openPoll
  /-- `~Server`, at `--servers_count_`, at the calls of `Stop` and `Join`, and in `Destroy`. -/
  | uncount
  | stop
  | delete
  | clear
  deriving DecidableEq, Repr

structure Lifetime where
  count : Nat := 0
  status : Option Nat := none
  /-- The objects made so far, and those of them not deleted. -/
  made : Nat := 0
  objects : List Nat := []
  /-- The objects whose thread has not left `Run`. -/
  running : List Nat := []
  /-- The servers that were constructed and not destroyed, and the constructors that threw. -/
  servers : Nat := 0
  failed : Nat := 0
  passages : List Passage := []
  /-- A server or a destructor used a null pointer or a deleted object. -/
  fault : Bool := false
  /-- The thread of a deleted object used it. -/
  late : Bool := false
  deriving DecidableEq, Repr

namespace Lifetime

variable (self : Lifetime)

/-- A call through `Status::Self()`. -/
def touch : Lifetime := { self with fault := self.fault || !self.status.any (· ∈ self.objects) }

/-- The next step of a passage, and where it is then. The system may refuse to create the
thread or the poll, which leaves the constructor by an exception. -/
def perform (refused : Bool) : Passage → Lifetime × Option Passage
  | .count =>
    ({ self with count := (self.count + 1) % 2 ^ 32 }, some (if self.count = 0 then .allocate else .openPoll))
  | .allocate =>
    if refused then ({ self with failed := self.failed + 1 }, none)
    else
      ({ self with
        made := self.made + 1
        objects := self.made :: self.objects
        running := self.made :: self.running }, some (.assign self.made))
  | .assign object => ({ self with status := some object }, some .openPoll)
  | .openPoll =>
    if refused then ({ self with failed := self.failed + 1 }, none)
    else ({ self with servers := self.servers + 1 }, none)
  | .uncount =>
    let count := if self.count = 0 then 2 ^ 32 - 1 else self.count - 1
    ({ self with count }, if count = 0 then some .stop else none)
  | .stop => (self.touch, some .delete)
  | .delete => match self.status with
    | none => (self, none)
    | some object =>
      ({ self with objects := self.objects.erase object, fault := self.fault || object ∉ self.objects }, some .clear)
  | .clear => ({ self with status := none }, none)

inductive Act where
  | construct
  | destruct
  /-- A server reports to `Status`. -/
  | report
  | advance (passage : Passage) (refused : Bool)
  /-- The thread of an object uses it, or is at its end. -/
  | work (object : Nat)
  | exit (object : Nat)

inductive Step : Act → Lifetime → Lifetime → Prop where
  | construct {lifetime : Lifetime} : Step .construct lifetime { lifetime with passages := lifetime.passages ++ [.count] }
  | destruct {lifetime : Lifetime} (present : 0 < lifetime.servers) :
      Step .destruct lifetime { lifetime with servers := lifetime.servers - 1, passages := lifetime.passages ++ [.uncount] }
  | report {lifetime : Lifetime} (present : 0 < lifetime.servers) : Step .report lifetime lifetime.touch
  | advance {lifetime : Lifetime} {before after : List Passage} {passage : Passage} {refused : Bool}
      (split : lifetime.passages = before ++ passage :: after) :
      Step (.advance passage refused) lifetime
        { (lifetime.perform refused passage).1 with passages := before ++ (lifetime.perform refused passage).2.toList ++ after }
  | work {lifetime : Lifetime} {object : Nat} (running : object ∈ lifetime.running) :
      Step (.work object) lifetime { lifetime with late := lifetime.late || object ∉ lifetime.objects }
  | exit {lifetime : Lifetime} {object : Nat} (running : object ∈ lifetime.running) :
      Step (.exit object) lifetime { lifetime with running := lifetime.running.erase object }

/-- A run whose steps are of a kind, which may depend on the state they are taken in. -/
def Run (kind : Lifetime → Act → Prop) : Lifetime → Lifetime → Prop :=
  Relation.ReflTransGen fun lifetime after => ∃ act, kind lifetime act ∧ Step act lifetime after

end Lifetime
end LibWebserver
