import LibWebserver.Control

/-! The interests of events, followed from outside: what each descriptor is used for,
and for an event that is open the interests inserted and not removed since. -/

namespace LibWebserver

/-- What a descriptor is used for: nothing, a socket, or an event of the poll. -/
inductive Slot where
  | free
  | idle
  | active (event : Nat) (interests : Branch → Bool)

abbrev Client := Int → Slot

def noInterests : Branch → Bool := fun _ => false

def Slot.interests : Slot → Branch → Bool
  | .active _ interests => interests
  | _ => noInterests

namespace Client

def interests (self : Client) (fd : Int) : Branch → Bool := (self fd).interests

def setInterest (self : Client) (fd : Int) (branch : Branch) (value : Bool) : Client :=
  match self fd with
  | .active event interests => Function.update self fd (.active event (Function.update interests branch value))
  | _ => self

def next (self : Client) : Subscription → Client
  | .socket fd => Function.update self fd .idle
  | .openEvent event fd => Function.update self fd (.active event noInterests)
  | .insert branch _ fd => self.setInterest fd branch true
  | .remove branch _ fd => self.setInterest fd branch false
  | .closeEvent _ fd => match self fd with
    | .active _ _ => Function.update self fd .idle
    | _ => self
  | .closeSocket fd => Function.update self fd .free

/-- The kernel hands out descriptors that are not in use, an event is opened on a
socket of its own and closed without interests, and its socket is closed after it. An
event that is not open may be closed and its interests removed. -/
def Legal (size : Nat) (self : Client) : Subscription → Prop
  | .socket fd => self fd = .free ∧ 0 ≤ fd ∧ fd < size
  | .openEvent _ fd => self fd = .idle
  | .insert _ event fd => ∃ interests, self fd = .active event interests
  | .remove _ event fd => ∀ owner interests, self fd = .active owner interests → owner = event
  | .closeEvent event fd => ∀ owner interests, self fd = .active owner interests → owner = event ∧ interests = noInterests
  | .closeSocket fd => self fd = .idle

end Client

/-- The interests as a mask, given the bit of each. -/
def encode (bit : Branch → UInt32) (interests : Branch → Bool) : UInt32 :=
  (if interests .error then bit .error else 0) ||| (if interests .read then bit .read else 0) |||
    if interests .write then bit .write else 0

/-- What `BaseConnection::Initialize` does with the poll. -/
def Subscription.initialise (event : Nat) (fd : Int) : List Subscription :=
  [.openEvent event fd, .insert .read event fd, .insert .write event fd, .insert .error event fd]

/-- What `BaseConnection::Close` does with the poll and the descriptor. -/
def Subscription.close (event : Nat) (fd : Int) : List Subscription :=
  [.remove .read event fd, .remove .write event fd, .remove .error event fd, .closeEvent event fd, .closeSocket fd]

/-- A kqueue has no filter for errors. -/
def PollKQueue.bit : Branch → UInt32
  | .error => 0
  | .read => flagRead
  | .write => flagWrite

/-- The registration that belongs to an entry of the table. -/
def registration (mask : UInt32) : Slot → Option Registration
  | .active event _ => if mask = 0 then none else some { events := mask, ptr := event }
  | _ => none

/-- The filters that belong to an entry of the table. -/
def filters (read write : Bool) : Slot → Filter → Option Nat
  | .active event _, .read => if read then some event else none
  | .active event _, .write => if write then some event else none
  | _, _ => none

/-- A poll whose table has to agree with a kernel that keeps an entry a descriptor. -/
class Tabled (π : Type) (ρ : outParam Type) extends Subscribes π (Int → ρ) where
  length : π → Nat
  eventMask : π → Int → UInt32
  bit : Branch → UInt32
  blank : ρ
  /-- What the kernel should keep for a mask. -/
  registered : UInt32 → Slot → ρ

instance : Tabled Poll (Option Registration) where
  length self := self.table.length
  eventMask := Poll.eventMask
  bit := Multiplexer.bit Poll
  blank := none
  registered := registration

instance : Tabled PollKQueue (Filter → Option Nat) where
  length self := self.table.length
  eventMask := PollKQueue.eventMask
  bit := PollKQueue.bit
  blank _ := none
  registered mask := filters (mask &&& PollKQueue.flagRead ≠ 0) (mask &&& PollKQueue.flagWrite ≠ 0)

/-- The table holds the interests and the kernel what the table says. -/
structure Agrees {π ρ : Type} [Tabled π ρ] (size : Nat) (subscribed : Subscribed π (Int → ρ)) (client : Client) : Prop where
  length : Tabled.length subscribed.poll = size
  range : ∀ fd, client fd ≠ .free → 0 ≤ fd ∧ fd < size
  table : Tabled.eventMask subscribed.poll = fun fd => encode (Tabled.bit π) (client.interests fd)
  kernel : subscribed.kernel = fun fd => Tabled.registered π (Tabled.eventMask subscribed.poll fd) (client fd)

/-- A table and a kernel with nothing in them. -/
def Subscribed.epoll (size : Nat) (events : List ReadyEvent) : Subscribed Poll Epoll :=
  { poll := { table := List.replicate size 0, events }, kernel := fun _ => none }

def Subscribed.kqueue (size : Nat) (events : List KEvent) : Subscribed PollKQueue KQueue :=
  { poll := { table := List.replicate size 0, events }, kernel := fun _ _ => none }

def Client.start : Client := fun _ => .free

end LibWebserver
