import LibWebserver.Interests

/-! Handlers as a program against `Poll` can be written: it knows which handlers were
called and changes interests, and leaves the masks to the poll. -/

namespace LibWebserver

/-- What a handler does, in words both polls understand. -/
inductive Deed where
  | close (event : Nat)
  | change (state : Nat → State) (descriptor : Nat → Int) (interests : Int → Branch → Bool)
  | throw

/-- A call of a handler, as a program sees it. -/
structure Called where
  branch : Branch
  event : Nat
  closed : List Nat
  returned : Bool
  deriving DecidableEq, Repr

def Touch.called : Touch → Option Called
  | .look _ => none
  | .call branch event _ closed returned => some { branch, event, closed, returned }

def calls (trace : List Touch) : List Called := trace.filterMap Touch.called

/-- The table of a poll with given bits. -/
def board (bit : Branch → UInt32) (size : Nat) (interests : Int → Branch → Bool) : List UInt32 :=
  (List.range size).map fun fd : Nat => encode bit (interests fd)

def Deed.effect (bit : Branch → UInt32) (size : Nat) : Deed → Effect
  | .close event => .close event
  | .change state descriptor interests => .change state descriptor (board bit size interests)
  | .throw => .throw

abbrev Program := List Called → Branch → Nat → List Deed

def Program.handlers (bit : Branch → UInt32) (size : Nat) (program : Program) : Dispatch.Handlers :=
  fun trace branch event => (program (calls trace) branch event).map (Deed.effect bit size)

/-- The branches of an entry of epoll that kqueue has filters for. -/
def pieces (events : UInt32) : List Branch := (Poll.reported events).filter (· ≠ .error)

/-- What kqueue reports for an entry of epoll: an entry a filter. -/
def split (ready : ReadyEvent) : List KEvent :=
  (pieces ready.events).map fun branch =>
    { udata := ready.ptr, filter := if branch = .read then .read else .write, error := none }

/-- An error is not all an event waits for. -/
def Audible (interests : Branch → Bool) : Prop := interests .error → interests .read ∨ interests .write

/-- The states after the deeds of a handler that returns. -/
def settle (state : Nat → State) (deeds : List Deed) : Nat → State :=
  deeds.foldl (fun state deed => match deed with
    | .change next _ _ => next
    | _ => state) state

/-- Nothing waits for errors alone, and a handler that closes the event it was called for
leaves it inactive. -/
structure Program.Portable (program : Program) : Prop where
  audible (calls : List Called) (branch : Branch) (event : Nat) (state : Nat → State) (descriptor : Nat → Int)
    (interests : Int → Branch → Bool) :
    .change state descriptor interests ∈ program calls branch event → ∀ fd, Audible (interests fd)
  leaves (calls : List Called) (branch : Branch) (event : Nat) (state : Nat → State) :
    .close event ∈ program calls branch event →
      settle state (program calls branch event) event = .inactive ∨ settle state (program calls branch event) event = .closing

/-- A thread that performs one batch after another and works in between. It ends where
something is thrown. -/
structure Looping where
  handlers : Program
  work : List Called → List Deed

structure Looping.Portable (looping : Looping) : Prop where
  handlers : looping.handlers.Portable
  work (calls : List Called) (state : Nat → State) (descriptor : Nat → Int) (interests : Int → Branch → Bool) :
    .change state descriptor interests ∈ looping.work calls → ∀ fd, Audible (interests fd)

namespace Looping

def epollRound (size : Nat) (looping : Looping) (self : Dispatch Poll) (batch : List ReadyEvent) : Dispatch Poll :=
  if ¬ self.returned then self
  else
    let after := Poll.perform (looping.handlers.handlers (Tabled.bit Poll) size)
      { self with poll := { self.poll with events := batch } }
    if ¬ after.returned then after
    else (after.perform ((looping.work (calls after.trace)).map (Deed.effect (Tabled.bit Poll) size))).1

def kqueueRound (size : Nat) (looping : Looping) (self : Dispatch PollKQueue) (batch : List KEvent) : Dispatch PollKQueue :=
  if ¬ self.returned then self
  else
    let after := PollKQueue.perform (looping.handlers.handlers (Tabled.bit PollKQueue) size)
      { self with poll := { self.poll with events := batch } }
    if ¬ after.returned then after
    else (after.perform ((looping.work (calls after.trace)).map (Deed.effect (Tabled.bit PollKQueue) size))).1

end Looping
end LibWebserver
