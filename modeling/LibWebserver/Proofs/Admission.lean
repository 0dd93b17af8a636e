import LibWebserver.Proofs.Attention
import LibWebserver.Proofs.Overload

/-! What a call of `Create` that returns adds to a server: a connection that is waited
for, or one that was refused. -/

namespace LibWebserver

namespace Controlled

variable {π κ : Type} {self : Controlled π κ}

theorem of_next {f : π → κ → Controlled π κ} (returned : (self.next f).thrown = none) :
    self.thrown = none ∧ self.next f = f self.poll self.kernel := by
  cases thrown : self.thrown with
  | none => exact ⟨rfl, next_ok thrown⟩
  | some error =>
    rw [next_thrown thrown, thrown] at returned
    cases returned

end Controlled

namespace Poll

variable {κ : Type} {self : Poll} {kernel : κ} {event : Nat} {fd : Int}

theorem insertCtl_poll (ctl : κ → CtlOp → Int → Registration → κ × Bool) (self : Poll) (kernel : κ) (event : Nat) (fd : Int)
    (bit : UInt32) : (self.insertCtl ctl kernel event fd bit).poll = self.insert fd bit := by
  unfold insertCtl modifyCtl insert modify
  split <;> rfl

/-- All three interests are in the table when `Initialize` gets them. -/
theorem initialiseCtl_returned {ctl : Branch → κ → CtlOp → Int → Registration → κ × Bool}
    (returned : (self.initialiseCtl ctl kernel event fd).thrown = none) :
    self.eventMask fd = 0 ∧
      (self.initialiseCtl ctl kernel event fd).poll = ((self.insertRead fd).insertWrite fd).insertError fd := by
  unfold initialiseCtl openEvent at *
  by_cases active : self.eventMask fd ≠ 0
  · rw [if_pos active] at returned
    cases returned
  rw [if_neg active] at returned ⊢
  refine ⟨not_not.mp active, ?_⟩
  dsimp only at returned ⊢
  obtain ⟨wrote, last⟩ := Controlled.of_next returned
  obtain ⟨_, second⟩ := Controlled.of_next wrote
  rw [last]
  unfold insertErrorCtl
  rw [insertCtl_poll, second]
  unfold insertWriteCtl
  rw [insertCtl_poll]
  unfold insertReadCtl
  rw [insertCtl_poll]
  rfl

theorem initialised_length (self : Poll) (fd : Int) :
    (((self.insertRead fd).insertWrite fd).insertError fd).table.length = self.table.length :=
  (modify_length _ _ _).trans ((modify_length _ _ _).trans (modify_length _ _ _))

theorem initialised_elsewhere {other : Int} (valid : 0 ≤ other) (different : other ≠ fd) :
    (((self.insertRead fd).insertWrite fd).insertError fd).eventMask other = self.eventMask other :=
  (eventMask_modify_ne valid different _).trans
    ((eventMask_modify_ne valid different _).trans (eventMask_modify_ne valid different _))

theorem initialised_watched (empty : self.eventMask fd = 0) :
    Watched ((((self.insertRead fd).insertWrite fd).insertError fd).eventMask fd) := by
  have watched : Watched (self.eventMask fd) := by rw [empty]; decide
  exact watched_insert (watched_insert (watched_insert watched (by decide)) (by decide)) (by decide)

end Poll

/-- What `Create` adds: a connection on a descriptor of its own. -/
structure World.Admitted (c : Nat) (w after : World) : Prop where
  others : ∀ d, d ≠ c → after.conn d = w.conn d
  connections : ∀ d, d ∈ after.server.connections ↔ d = c ∨ d ∈ w.server.connections
  activity : after.server.activity = w.server.activity
  state : (after.conn c).state = .connected
  incoming : (after.conn c).incoming = []
  outgoing : (after.conn c).outgoing = []
  inside : 0 ≤ after.descriptor c ∧ after.descriptor c < w.server.poll.table.length
  own : ∀ d ∈ w.server.connections, w.descriptor d ≠ after.descriptor c
  room : after.server.poll.table.length = w.server.poll.table.length
  watched : Poll.Watched (after.server.poll.eventMask (after.descriptor c))
  elsewhere : ∀ fd, 0 ≤ fd → fd ≠ after.descriptor c → after.server.poll.eventMask fd = w.server.poll.eventMask fd

/-- Or nothing. -/
structure World.Refused (c : Nat) (w after : World) : Prop extends Unaffected c w after where
  state : (after.conn c).state = .closing
  table : after.server.poll.table = w.server.poll.table

namespace Progress

variable {self : Progress} {w : World} {maxConnects c : Nat} {fd : Int} {answers : PollAnswers}

theorem initialise_returned (returned : (self.initialise c answers).thrown = none) :
    self.world.server.poll.eventMask (self.world.descriptor c) = 0 ∧
      (self.initialise c answers).world =
        (self.world.poll fun poll => ((poll.insertRead (self.world.descriptor c)).insertWrite (self.world.descriptor c)).insertError
          (self.world.descriptor c)).setState c .connected := by
  have world : (self.initialise c answers).world =
      (self.world.poll fun _ => (self.world.server.poll.initialiseCtl (answering answers.insert) () c
        (self.world.descriptor c)).poll).setState c .connected := by
    rw [initialise_thrown] at returned
    unfold initialise
    dsimp only
    rw [returned]
    rfl
  rw [initialise_thrown] at returned
  obtain ⟨empty, filled⟩ := Poll.initialiseCtl_returned returned
  rw [filled] at world
  exact ⟨empty, world⟩

theorem initialise_inside (empty : self.world.server.poll.eventMask (self.world.descriptor c) = 0)
    (straight : (self.initialise c answers).outside = false) :
    0 ≤ self.world.descriptor c ∧ self.world.descriptor c < self.world.server.poll.table.length := by
  have opened : self.world.server.poll.openEvent (self.world.descriptor c) = .ok self.world.server.poll :=
    if_neg (not_not.mpr empty)
  unfold initialise at straight
  dsimp only at straight
  rw [opened] at straight
  by_contra outside
  simp [Except.toBool, outside] at straight

theorem Made.unlike (made : self.Made w c fd) (new : c ∉ w.server.connections)
    (own : ∀ d ∈ w.server.connections, w.descriptor d ≠ fd) :
    ¬ ∃ other ∈ self.world.server.connections, self.world.descriptor other = self.world.descriptor c := by
  rintro ⟨other, member, equal⟩
  rw [made.server] at member
  have another : other ≠ c := fun same => new (same ▸ member)
  refine own other member (Eq.trans ?_ (equal.trans made.held))
  rw [World.descriptor, World.descriptor, made.others other another]

/-- Without an exception, and without a mask astray, the connection is in the registry and
waited for. -/
theorem Made.admits (made : self.Made w c fd) (new : c ∉ w.server.connections)
    (own : 0 ≤ fd → ∀ d ∈ w.server.connections, w.descriptor d ≠ fd) (room : ¬ maxConnects ≤ w.server.connections.length)
    (returned : ((self.newConnection c maxConnects).next (·.initialise c answers)).thrown = none)
    (straight : ((self.newConnection c maxConnects).next (·.initialise c answers)).outside = false) :
    World.Admitted c w ((self.newConnection c maxConnects).next (·.initialise c answers)).world := by
  let connections := Server.insertSet self.world.descriptor c self.world.server.connections
  let inserted : Progress :=
    { self with world := { self.world with server := { self.world.server with connections } } }
  have same : self.newConnection c maxConnects = inserted := if_neg (by rw [made.server]; exact room)
  obtain ⟨_, next⟩ := of_next returned
  rw [next, same] at returned straight ⊢
  have poll : inserted.world.server.poll = w.server.poll := by
    change self.world.server.poll = _
    rw [made.server]
  have held : inserted.world.descriptor c = fd := made.held
  obtain ⟨empty, conn⟩ := initialise_returned returned
  have inside := initialise_inside empty straight
  rw [held, poll] at inside empty
  rw [held] at conn
  have table : (inserted.initialise c answers).world.server.poll =
      ((w.server.poll.insertRead fd).insertWrite fd).insertError fd := by
    rw [conn, ← poll]
    rfl
  have given : ((inserted.initialise c answers).world).descriptor c = fd := by
    rw [conn, World.setState_descriptor]
    exact held
  refine ⟨fun d other => ?_, fun d => ?_, ?_, ?_, ?_, ?_, ?_, ?_, ?_, ?_, fun number valid other => ?_⟩
  · rw [conn, World.setState, World.modify_conn_ne other]
    exact made.others d other
  · rw [conn]
    change d ∈ Server.insertSet self.world.descriptor c self.world.server.connections ↔ _
    rw [Server.insertSet, if_neg (made.unlike new (own inside.1)), made.server]
    exact List.mem_orderedInsert _
  · rw [conn]
    change self.world.server.activity = _
    rw [made.server]
  · rw [conn, World.setState_conn]
  · rw [conn, World.setState_conn]
    exact made.incoming
  · rw [conn, World.setState_conn]
    exact made.queue
  · rw [given]
    exact inside
  · rw [given]
    exact own inside.1
  · rw [table]
    exact Poll.initialised_length _ _
  · rw [given, table]
    exact Poll.initialised_watched empty
  · rw [given] at other
    rw [table]
    exact Poll.initialised_elsewhere valid other

theorem Made.of_world (made : self.Made w c fd) {other : Progress} (same : other.world = self.world)
    (outside : other.outside = false) (thrown : other.thrown = none) : other.Made w c fd := by
  obtain ⟨world, _, _, _⟩ := other
  subst same
  exact ⟨made.server, made.others, made.held, made.state, made.incoming, made.queue, outside, thrown⟩

/-- The last reference to a connection that has no interests. -/
theorem Made.destroyed (made : self.Made w c fd) (empty : w.server.poll.eventMask fd = 0) (answers : PollAnswers) :
    World.Refused c w (self.destroy c answers).world := by
  have unaffected : World.Unaffected c w (self.destroy c answers).world := by
    have before : World.Unaffected c w self.world :=
      ⟨congrArg Server.connections made.server, congrArg Server.activity made.server, made.others⟩
    exact before.trans (World.unaffected_destroy self c answers)
  have opened : ¬ (self.world.conn c).state = .closing := by rw [made.state]; decide
  have held : (self.world.setState c .closing).descriptor c = fd := (World.setState_descriptor _ _ _ _).trans made.held
  have poll : (self.world.setState c .closing).server.poll = w.server.poll := congrArg Server.poll made.server
  obtain ⟨events, removed⟩ := Poll.closeCtl_empty c answers.remove empty
  let world := (self.world.setState c .closing).poll fun _ => { w.server.poll with events }
  let left : Progress := { self with world, thrown := none }
  have closing : (world.conn c).state = .closing := by
    change ((self.world.setState c .closing).conn c).state = .closing
    rw [World.setState_conn]
  have same : (self.destroy c answers).world =
      (if 0 ≤ left.world.descriptor c then left.closeDescriptor c else left).world := by
    unfold Progress.destroy
    dsimp only
    rw [if_neg opened, held, poll, removed]
    dsimp only
    rw [next_made, next_ok (by split <;> rfl), destroySocket_world]
  refine ⟨unaffected, ?_, ?_⟩
  · rw [same]
    split
    · change ((world.modify c ({ · with fd := -1 })).conn c).state = .closing
      rw [World.modify_conn]
      exact closing
    · exact closing
  · rw [same]
    split <;> rfl

theorem leaveConstructor_exit (self : Progress) (c : Nat) (error : Exception) :
    (self.leaveConstructor c error).exit ≠ .returned := by
  unfold leaveConstructor finish
  dsimp only
  split <;> nofun

/-- A call of `Create` that returns has taken the connection in, or refused it as it was made. -/
def Returns (maxConnects : Nat) (w : World) (c : Nat) (created : Created) : Prop :=
  World.Admitted c w created.world ∨
    maxConnects ≤ w.server.connections.length ∧ ∃ fd made, Made w c fd made ∧
      (∀ d ∈ w.server.connections, 0 ≤ fd → w.descriptor d ≠ fd) ∧ created.world = made.world

theorem Made.accept_returns (made : self.Made w c fd) (new : c ∉ w.server.connections)
    (own : 0 ≤ fd → ∀ d ∈ w.server.connections, w.descriptor d ≠ fd)
    (returned : (self.accept c maxConnects answers).exit = .returned)
    (straight : (self.accept c maxConnects answers).outside = false) :
    Returns maxConnects w c (self.accept c maxConnects answers) := by
  by_cases full : maxConnects ≤ w.server.connections.length
  · refine .inr ⟨full, fd, self, made, fun d member valid => own valid d member, ?_⟩
    unfold accept
    dsimp only
    rw [newConnection_full (by rw [made.server]; exact full), next_thrown rfl]
    exact World.sendMessage_idle (by rw [throw, made.state]; decide) _
  have admits := @made.admits _ _ _ _ _ answers new own full
  obtain ⟨inserted, same, ok, _, _, _⟩ := made.newConnection full
  have caught := Poll.initialiseCtl_thrown inserted.world.server.poll c (inserted.world.descriptor c) answers.insert
  rw [← initialise_thrown] at caught
  unfold accept at returned straight ⊢
  dsimp only at returned straight ⊢
  rw [same, next_ok ok] at returned straight admits ⊢
  obtain ⟨_, done⟩ | ⟨_, error, other, failed⟩ := caught
  · rw [done] at returned straight admits ⊢
    exact .inl (admits rfl straight)
  · rw [failed] at returned
    cases error with
    | tooManyConnectionsError => exact absurd rfl other
    | _ => exact absurd returned (leave_exit _ _ _ _)

theorem Made.register_returns (made : self.Made w c fd) (new : c ∉ w.server.connections)
    (own : 0 ≤ fd → ∀ d ∈ w.server.connections, w.descriptor d ≠ fd) {isPersistent : Bool}
    (returned : (self.register c maxConnects answers isPersistent).exit = .returned)
    (straight : (self.register c maxConnects answers isPersistent).outside = false) :
    Returns maxConnects w c (self.register c maxConnects answers isPersistent) := by
  have set : Made w c fd { self with world := self.world.setPersistence c isPersistent } :=
    made_modify self ({ · with isPersistent }) made.server made.others made.held made.state made.incoming
      made.queue made.outside made.thrown self.closed
  unfold register at returned straight ⊢
  dsimp only at returned straight ⊢
  generalize ({ self with world := self.world.setPersistence c isPersistent } : Progress) = progress at set returned straight
  by_cases full : maxConnects ≤ w.server.connections.length
  · rw [newConnection_full (by rw [set.server]; exact full), next_thrown rfl] at returned
    exact absurd returned (leave_exit _ _ _ _)
  have admits := @set.admits _ _ _ _ _ answers new own full
  generalize (progress.newConnection c maxConnects).next (·.initialise c answers) = admitted at *
  cases thrown : admitted.thrown with
  | none =>
    rw [thrown] at straight
    exact .inl (admits thrown straight)
  | some error =>
    rw [thrown] at returned
    exact absurd returned (leave_exit _ _ _ _)

theorem fdSet_straight (straight : (self.fdSet c).outside = false) : self.fdSet c = self := by
  unfold fdSet at *
  dsimp only at *
  rw [straight, (Bool.or_eq_false_iff.mp straight).1.symm]

/-- The constructor of an outgoing connection leaves its descriptor alone, or throws. -/
theorem connect_thrown (self : Progress) (c : Nat) (peer : Outgoing) (fd : Nat)
    (straight : (self.connect c peer fd).outside = false) :
    self.connect c peer fd = self ∨ ∃ error, (self.connect c peer fd).thrown = some error := by
  unfold connect at *
  split
  · exact .inr ⟨_, rfl⟩
  next resolved =>
    rw [if_neg resolved] at straight
    split
    · exact .inl rfl
    · exact .inr ⟨_, rfl⟩
    next ready =>
      rw [ready] at straight
      exact .inl (fdSet_straight straight)
    · exact .inr ⟨_, rfl⟩

theorem dial_made {peer : Outgoing} (returned : ((w.allocate c).dial c peer).thrown = none)
    (straight : ((w.allocate c).dial c peer).outside = false) :
    ∃ fd : Int, Made w c fd ((w.allocate c).dial c peer) ∧ (0 ≤ fd → ∃ opened ∈ peer.socket.toList, fd = (opened : Nat)) := by
  have allocated := allocate_made w c
  unfold dial at *
  generalize w.allocate c = given at *
  cases socket : peer.socket with
  | none =>
    rw [socket] at returned
    cases returned
  | some fd =>
    rw [socket] at returned
    dsimp only at returned ⊢
    by_cases reused : peer.reuseAddress
    swap
    · rw [if_pos reused] at returned
      cases returned
    rw [if_neg (not_not.mpr reused)] at returned ⊢
    by_cases unbound : peer.bind = some false
    · rw [if_pos unbound] at returned
      cases returned
    rw [if_neg unbound] at returned ⊢
    have made := allocated.setDescriptor (fd : Int)
    have valid := made.valid
    rw [socket] at straight
    dsimp only at straight
    rw [if_neg (not_not.mpr reused), if_neg unbound] at straight
    obtain ⟨set, next⟩ := of_next returned
    rw [next] at returned straight ⊢
    have stays := connect_thrown ((given.setDescriptor c fd).setOptions c peer.options) c peer fd straight
    rcases stays with stays | ⟨error, thrown⟩
    swap
    · rw [thrown] at returned
      cases returned
    rw [stays]
    rcases setOptions_cases valid peer.options with ⟨_, same⟩ | ⟨_, _, same⟩ | ⟨_, _, same⟩
    · rw [same] at set
      cases set
    · rw [same]
      exact ⟨fd, made, fun _ => ⟨fd, List.mem_singleton.mpr rfl, rfl⟩⟩
    · rw [same]
      exact ⟨-1, made.closeDescriptor, fun positive => absurd positive (by decide)⟩

end Progress

namespace World

variable {w : World} {maxConnects c : Nat} {answers : PollAnswers} {attempt : Attempt}

theorem create_returns (unused : w.Unused c attempt.opened)
    (returned : (w.create maxConnects c answers attempt).exit = .returned)
    (straight : (w.create maxConnects c answers attempt).outside = false) :
    Progress.Returns maxConnects w c (w.create maxConnects c answers attempt) := by
  cases attempt with
  | incoming fd options =>
    have made : Progress.Made w c fd ((w.allocate c).setDescriptor c fd) := (Progress.allocate_made w c).setDescriptor fd
    have valid := made.valid
    have own := unused.others fd (List.mem_singleton.mpr rfl)
    unfold create at *
    dsimp only at *
    generalize (w.allocate c).setDescriptor c fd = given at *
    rcases Progress.setOptions_cases valid options with ⟨_, same⟩ | ⟨_, _, same⟩ | ⟨_, _, same⟩
    · rw [same] at returned
      exact absurd returned (Progress.leaveConstructor_exit _ _ _)
    · rw [same, made.thrown] at returned straight ⊢
      exact made.accept_returns unused.connections (fun _ => own) returned straight
    · rw [same, made.closeDescriptor.thrown] at returned straight ⊢
      exact made.closeDescriptor.accept_returns unused.connections (fun positive => absurd positive (by decide)) returned straight
  | outgoing peer =>
    unfold create at *
    dsimp only at *
    cases thrown : ((w.allocate c).dial c peer).thrown with
    | some error =>
      rw [thrown] at returned
      exact absurd returned (Progress.leaveConstructor_exit _ _ _)
    | none =>
      rw [thrown] at returned straight
      dsimp only at returned straight ⊢
      have inside : ((w.allocate c).dial c peer).outside = false := by
        by_contra astray
        rw [Progress.register_outside (Bool.not_eq_false _ ▸ astray)] at straight
        cases straight
      obtain ⟨fd, made, socket⟩ := Progress.dial_made thrown inside
      refine made.register_returns unused.connections (fun positive d member => ?_) returned straight
      obtain ⟨opened, inside, rfl⟩ := socket positive
      exact unused.others opened inside d member

/-- A new connection, or one that was refused and dropped. -/
theorem create_drop (registry : w.Registry) (unused : w.Unused c attempt.opened)
    (returned : (w.create maxConnects c answers attempt).exit = .returned)
    (straight : (w.create maxConnects c answers attempt).outside = false) :
    Admitted c w ((w.create maxConnects c answers attempt).drop c answers).world ∨
      Refused c w ((w.create maxConnects c answers attempt).drop c answers).world := by
  unfold Created.drop
  dsimp only
  rcases create_returns unused returned straight with admitted | ⟨_, fd, made, constructed, own, same⟩
  · rw [if_pos (.inl ((admitted.connections c).mpr (.inl rfl)))]
    exact .inl admitted
  · right
    have empty : w.server.poll.eventMask fd = 0 := by
      by_cases valid : 0 ≤ fd
      · exact registry.unwatched fd valid fun d member => own d member valid
      · exact Poll.eventMask_outside fun inside => valid inside.1
    rw [if_neg]
    · exact (constructed.of_world same straight rfl).destroyed empty answers
    · rintro (member | member)
      · rw [same, constructed.server] at member
        exact unused.connections member
      · rw [same, constructed.server] at member
        exact unused.activity member

variable {after : World}

theorem Registry.admitted (registry : w.Registry) (new : c ∉ w.server.connections) (admitted : Admitted c w after) :
    after.Registry := by
  have held {d : Nat} (other : d ≠ c) : after.descriptor d = w.descriptor d := congrArg Connection.fd (admitted.others d other)
  have inside : c ∈ after.server.connections := (admitted.connections c).mpr (.inl rfl)
  have before {d : Nat} (other : d ≠ c) (member : d ∈ after.server.connections) : d ∈ w.server.connections :=
    ((admitted.connections d).mp member).resolve_left other
  have apart {d : Nat} (other : d ≠ c) (member : d ∈ after.server.connections) :
      after.descriptor d ≠ after.descriptor c := by
    rw [held other]
    exact admitted.own d (before other member)
  refine ⟨fun d => ?_, fun d missing => ?_, fun d active => ?_, fun d member => ?_, fun d one e another same => ?_, fun d member => ?_,
    fun number valid free => ?_⟩
  · by_cases own : d = c
    · rw [own]
      exact iff_of_true admitted.state inside
    · rw [admitted.others d own, admitted.connections, or_iff_right own]
      exact registry.connected d
  · have other : d ≠ c := fun own => missing (own ▸ inside)
    rw [admitted.others d other, held other]
    exact registry.absent d fun member => missing ((admitted.connections d).mpr (.inr member))
  · rw [admitted.activity] at active
    exact (admitted.connections d).mpr (.inr (registry.activity d active))
  · rw [admitted.room]
    by_cases own : d = c
    · rw [own]
      exact admitted.inside
    · rw [held own]
      exact registry.inside d (before own member)
  · by_cases first : d = c
    · by_cases second : e = c
      · rw [first, second]
      · exact absurd (first ▸ same).symm (apart second another)
    · by_cases second : e = c
      · exact absurd (second ▸ same) (apart first one)
      · rw [held first, held second] at same
        exact registry.distinct d (before first one) e (before second another) same
  · by_cases own : d = c
    · rw [own]
      exact admitted.watched
    · have member' := before own member
      rw [admitted.elsewhere _ (by rw [held own]; exact (registry.inside d member').1) (apart own member), held own]
      exact registry.watched d member'
  · rw [admitted.elsewhere number valid (Ne.symm (free c inside))]
    refine registry.unwatched number valid fun d member => ?_
    have other : d ≠ c := fun own => new (own ▸ member)
    rw [← held other]
    exact free d ((admitted.connections d).mpr (.inr member))

theorem Registry.refused (registry : w.Registry) (new : c ∉ w.server.connections) (refused : Refused c w after) :
    after.Registry := by
  have masks := Poll.eventMask_table refused.table
  have kept {d : Nat} (member : d ∈ after.server.connections) : d ∈ w.server.connections ∧ after.conn d = w.conn d := by
    rw [refused.connections] at member
    exact ⟨member, refused.others d fun own => new (own ▸ member)⟩
  have held {d : Nat} (member : d ∈ after.server.connections) : after.descriptor d = w.descriptor d :=
    congrArg Connection.fd (kept member).2
  refine ⟨fun d => ?_, fun d missing => ?_, fun d active => ?_, fun d member => ?_, fun d one e another same => ?_, fun d member => ?_,
    fun number valid free => ?_⟩
  · rw [refused.connections]
    by_cases own : d = c
    · rw [own, refused.state]
      exact iff_of_false nofun new
    · rw [refused.others d own]
      exact registry.connected d
  · by_cases own : d = c
    · left
      rw [own, refused.state]
    · have before := registry.absent d (refused.connections ▸ missing)
      rw [refused.others d own, World.descriptor, refused.others d own]
      exact before
  · rw [refused.connections]
    rw [refused.activity] at active
    exact registry.activity d active
  · rw [held member, refused.table]
    exact registry.inside d (kept member).1
  · rw [held one, held another] at same
    exact registry.distinct d (kept one).1 e (kept another).1 same
  · rw [held member, masks]
    exact registry.watched d (kept member).1
  · rw [masks]
    refine registry.unwatched number valid fun d member => ?_
    have inside : d ∈ after.server.connections := refused.connections ▸ member
    rw [← held inside]
    exact free d inside

end World
end LibWebserver
