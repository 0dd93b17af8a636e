import LibWebserver.Creation
import LibWebserver.Proofs.Descriptors
import LibWebserver.Proofs.Lifecycle

/-! When making a connection can fail without a trace. -/

namespace LibWebserver

namespace Controlled

variable {π κ : Type} {self : Controlled π κ} {f : π → κ → Controlled π κ}

theorem next_ok (ok : self.thrown = none) : self.next f = f self.poll self.kernel := by
  rw [next, ok]
  rfl

theorem next_thrown {error : Exception} (thrown : self.thrown = some error) : self.next f = self := by
  rw [next, thrown]
  rfl

theorem next_made (poll : π) (kernel : κ) (f : π → κ → Controlled π κ) :
    ({ poll, kernel } : Controlled π κ).next f = f poll kernel := rfl

end Controlled

namespace Poll

variable {self : Poll} {event : Nat} {fd : Int} {answers : Branch → Bool} {branch : Branch}

theorem eventMask_written (mask : UInt32) :
    (self.setEventMask fd mask).eventMask fd = mask ∨ (self.setEventMask fd mask).eventMask fd = 0 := by
  by_cases inside : 0 ≤ fd ∧ fd < self.table.length
  · left
    rw [eventMask_setEventMask inside, Function.update_self]
  · right
    refine eventMask_outside fun within => inside ?_
    unfold setEventMask at within
    split at within
    · rwa [List.length_set] at within
    · exact within

theorem insertCtl_new (self : Poll) (bit : UInt32) (new : self.eventMask fd ≠ self.eventMask fd ||| bit) (event : Nat)
    (answers : Branch → Bool) (branch : Branch) (kernel : Unit) :
    ∃ after, self.insertCtl (answering answers branch) kernel event fd bit = after ∧
      after.thrown = (if answers branch then none else some (.internalError "epoll_ctl call failed")) ∧
      (after.poll.eventMask fd = self.eventMask fd ||| bit ∨ after.poll.eventMask fd = 0) := by
  refine ⟨_, rfl, ?_⟩
  unfold insertCtl modifyCtl
  rw [if_neg new]
  exact ⟨rfl, eventMask_written _⟩

private theorem initialiseCtl_empty (event : Nat) (answers : Branch → Bool) (empty : self.eventMask fd = 0) :
    ((∀ branch, answers branch) ∧ (self.initialiseCtl (answering answers) () event fd).thrown = none) ∨
      (¬ ∀ branch, answers branch) ∧
        (self.initialiseCtl (answering answers) () event fd).thrown = some (.internalError "epoll_ctl call failed") := by
  have opened : self.openEvent fd = .ok self := if_neg (not_not.mpr empty)
  unfold initialiseCtl insertReadCtl insertWriteCtl insertErrorCtl
  rw [opened]
  dsimp only
  obtain ⟨first, inserted, thrown, mask⟩ := insertCtl_new self EPOLLIN (by rw [empty]; decide) event answers .read ()
  rw [inserted]
  by_cases one : answers .read
  swap
  · rw [if_neg one] at thrown
    rw [Controlled.next_thrown thrown, Controlled.next_thrown thrown]
    exact .inr ⟨fun all => one (all _), thrown⟩
  rw [if_pos one] at thrown
  rw [Controlled.next_ok thrown]
  have held : first.poll.eventMask fd = 1 ∨ first.poll.eventMask fd = 0 := by
    rw [empty] at mask
    exact mask
  obtain ⟨second, inserted, thrown, mask⟩ := insertCtl_new first.poll EPOLLOUT
    (by rcases held with mask | mask <;> rw [mask] <;> decide) event answers .write first.kernel
  rw [inserted]
  by_cases two : answers .write
  swap
  · rw [if_neg two] at thrown
    rw [Controlled.next_thrown thrown]
    exact .inr ⟨fun all => two (all _), thrown⟩
  rw [if_pos two] at thrown
  rw [Controlled.next_ok thrown]
  have new : second.poll.eventMask fd ≠ second.poll.eventMask fd ||| EPOLLERR := by
    rcases mask with mask | mask
    · rw [mask]
      rcases held with mask | mask <;> rw [mask] <;> decide
    · rw [mask]
      decide
  obtain ⟨third, inserted, thrown, _⟩ := insertCtl_new second.poll EPOLLERR new event answers .error second.kernel
  rw [inserted, thrown]
  by_cases three : answers .error
  · exact .inl ⟨fun branch => by cases branch <;> assumption, if_pos three⟩
  · exact .inr ⟨fun all => three (all _), if_neg three⟩

theorem initialiseCtl_thrown (self : Poll) (event : Nat) (fd : Int) (answers : Branch → Bool) :
    (self.eventMask fd = 0 ∧ ∀ branch, answers branch) ∧ (self.initialiseCtl (answering answers) () event fd).thrown = none ∨
      ¬ (self.eventMask fd = 0 ∧ ∀ branch, answers branch) ∧ ∃ error ≠ .tooManyConnectionsError,
        (self.initialiseCtl (answering answers) () event fd).thrown = some error := by
  by_cases empty : self.eventMask fd = 0
  · obtain ⟨all, done⟩ | ⟨missing, failed⟩ := initialiseCtl_empty event answers empty
    · exact .inl ⟨⟨empty, all⟩, done⟩
    · exact .inr ⟨fun both => missing both.2, _, Exception.noConfusion, failed⟩
  · refine .inr ⟨fun both => empty both.1, ?_⟩
    unfold initialiseCtl openEvent
    rw [if_pos empty]
    exact ⟨.ioException _, Exception.noConfusion, rfl⟩

theorem removeCtl_empty {κ : Type} (ctl : κ → CtlOp → Int → Registration → κ × Bool) (kernel : κ)
    (empty : self.eventMask fd = 0) (bit : UInt32) : self.removeCtl ctl kernel event fd bit = { poll := self, kernel } := by
  unfold removeCtl modifyCtl
  dsimp only
  rw [empty, UInt32.zero_and, if_pos rfl]

theorem closeCtl_empty (event : Nat) (answers : Branch → Bool) (empty : self.eventMask fd = 0) :
    ∃ events, self.closeCtl (answering answers) () event fd = { poll := { self with events }, kernel := () } := by
  unfold closeCtl removeReadCtl removeWriteCtl removeErrorCtl
  rw [removeCtl_empty _ _ empty, Controlled.next_made, removeCtl_empty _ _ empty, Controlled.next_made,
    removeCtl_empty _ _ empty, Controlled.next_made]
  unfold closeEvent
  rw [if_neg (not_not.mpr empty)]
  exact ⟨_, rfl⟩

theorem closeCtl_mask {answers : Branch → Bool} (returned : (self.closeCtl (answering answers) () event fd).thrown = none) :
    (self.closeCtl (answering answers) () event fd).poll.eventMask fd = 0 := by
  unfold closeCtl at *
  generalize ((self.removeReadCtl (answering answers .read) () event fd).next _).next _ = removed at *
  cases thrown : removed.thrown with
  | some error => rw [Controlled.next_thrown thrown, thrown] at returned; cases returned
  | none =>
    rw [Controlled.next_ok thrown] at *
    cases closed : removed.poll.closeEvent event fd with
    | error error => simp only [closed] at returned; cases returned
    | ok poll =>
      dsimp only
      rw [closeEvent_ok closed]
      unfold closeEvent at closed
      split at closed
      · cases closed
      next empty => exact not_not.mp empty

end Poll

/-- `fcntl` is reached and does not tell the flags. -/
def Options.Unreadable (self : Options) : Prop := self.noSignal ∧ self.noDelay ∧ ¬ self.getFlags

def Options.AllSet (self : Options) : Prop :=
  self.noSignal ∧ self.noDelay ∧ self.getFlags ∧ self.setFlags ∧ self.sendTimeout ∧ self.receiveTimeout

instance (options : Options) : Decidable options.Unreadable := inferInstanceAs (Decidable (_ ∧ _))
instance (options : Options) : Decidable options.AllSet := inferInstanceAs (Decidable (_ ∧ _))

namespace Progress

variable {self : Progress} {c : Nat}

theorem next_ok {f : Progress → Progress} (ok : self.thrown = none) : self.next f = f self := by
  rw [next, ok]
  rfl

theorem next_thrown {f : Progress → Progress} {error : Exception} (thrown : self.thrown = some error) :
    self.next f = self := by
  rw [next, thrown]
  rfl

theorem of_next {f : Progress → Progress} (returned : (self.next f).thrown = none) :
    self.thrown = none ∧ self.next f = f self := by
  cases thrown : self.thrown with
  | none => exact ⟨rfl, next_ok thrown⟩
  | some error => rw [next_thrown thrown, thrown] at returned; cases returned

theorem next_made (world : World) (closed : List Int) (outside : Bool) (f : Progress → Progress) :
    ({ world, closed, outside } : Progress).next f = f { world, closed, outside } := rfl

theorem setOptions_cases (valid : 0 ≤ self.world.descriptor c) (options : Options) :
    options.Unreadable ∧ self.setOptions c options = self.throw (.ioException "Cannot get socket flags.") ∨
      ¬ options.Unreadable ∧ options.AllSet ∧ self.setOptions c options = self ∨
      ¬ options.Unreadable ∧ ¬ options.AllSet ∧ self.setOptions c options = self.closeDescriptor c := by
  obtain ⟨noSignal, noDelay, getFlags, setFlags, sendTimeout, receiveTimeout⟩ := options
  unfold setOptions Options.Unreadable Options.AllSet
  rw [if_neg (show ¬ self.world.descriptor c < 0 by omega)]
  cases noSignal <;> cases noDelay <;> cases getFlags <;> cases setFlags <;> cases sendTimeout <;> cases receiveTimeout <;> simp

end Progress

/-- The object is new, and no connection in the registry has the kernel's descriptor. -/
structure World.Unused (w : World) (c : Nat) (opened : List Nat) : Prop where
  connections : c ∉ w.server.connections
  activity : c ∉ w.server.activity
  others : ∀ fd ∈ opened, ∀ d ∈ w.server.connections, w.descriptor d ≠ fd

/-- The registry and the interest table are as before, what was opened is closed, and no
destructor has thrown. -/
structure Created.NoTrace (before : Server) (opened : List Nat) (created : Created) : Prop where
  connections : created.world.server.connections = before.connections
  activity : created.world.server.activity = before.activity
  table : created.world.server.poll.table = before.poll.table
  closed : ∀ fd ∈ opened, created.closed.count (fd : Int) = 1
  destructors : created.exit ≠ .terminated

/-- Nothing was written that has no meaning, and an exception leaves no trace. -/
def Created.Harmless (before : Server) (opened : List Nat) (self : Created) : Prop :=
  self.outside = false ∧ (self.exit ≠ .returned → self.NoTrace before opened)

/-- The descriptor is in the interest table, nothing is registered for it, and the kernel
takes all three interests. -/
def Server.Takes (self : Server) (answers : PollAnswers) (fd : Int) : Prop :=
  (0 ≤ fd ∧ fd < self.poll.table.length) ∧ self.poll.eventMask fd = 0 ∧ ∀ branch, answers.insert branch

namespace Progress

variable {self : Progress} {w : World} {maxConnects c : Nat} {fd : Int} {answers : PollAnswers}

/-- A connection that is just constructed, on its descriptor or without one. -/
structure Made (w : World) (c : Nat) (fd : Int) (progress : Progress) : Prop where
  server : progress.world.server = w.server
  others : ∀ d, d ≠ c → progress.world.conn d = w.conn d
  held : (progress.world.conn c).fd = fd
  state : (progress.world.conn c).state = .inactive
  incoming : (progress.world.conn c).incoming = []
  queue : (progress.world.conn c).outgoing = []
  outside : progress.outside = false
  thrown : progress.thrown = none

theorem made_modify (self : Progress) (f : Connection → Connection) (server : self.world.server = w.server)
    (others : ∀ d, d ≠ c → self.world.conn d = w.conn d) (held : (f (self.world.conn c)).fd = fd)
    (state : (f (self.world.conn c)).state = .inactive) (incoming : (f (self.world.conn c)).incoming = [])
    (queue : (f (self.world.conn c)).outgoing = []) (outside : self.outside = false) (thrown : self.thrown = none)
    (closed : List Int) : Made w c fd { self with world := self.world.modify c f, closed } where
  server := server
  others d other := by
    change (self.world.modify c f).conn d = w.conn d
    rw [World.modify_conn_ne other, others d other]
  held := by
    change ((self.world.modify c f).conn c).fd = fd
    rw [World.modify_conn, held]
  state := by
    change ((self.world.modify c f).conn c).state = .inactive
    rw [World.modify_conn, state]
  incoming := by
    change ((self.world.modify c f).conn c).incoming = []
    rw [World.modify_conn, incoming]
  queue := by
    change ((self.world.modify c f).conn c).outgoing = []
    rw [World.modify_conn, queue]
  outside := outside
  thrown := thrown

theorem Made.valid {fd : Nat} (made : self.Made w c fd) : 0 ≤ self.world.descriptor c := by
  rw [World.descriptor, made.held]
  exact Int.natCast_nonneg fd

theorem newConnection_full (full : maxConnects ≤ self.world.server.connections.length) :
    self.newConnection c maxConnects = self.throw .tooManyConnectionsError := if_pos full

/-- With room, a new connection goes into the registry unless one has its descriptor. -/
theorem Made.newConnection (made : self.Made w c fd) (room : ¬ maxConnects ≤ w.server.connections.length) :
    ∃ inserted, self.newConnection c maxConnects = inserted ∧ inserted.thrown = none ∧
      inserted.world.server.poll = w.server.poll ∧ inserted.world.descriptor c = fd ∧ inserted.outside = false ∧
      (c ∉ w.server.connections → (∀ d ∈ w.server.connections, w.descriptor d ≠ fd) →
        c ∈ inserted.world.server.connections) := by
  refine ⟨_, if_neg (by rw [made.server]; exact room), made.thrown, ?_, made.held, made.outside, ?_⟩
  · change self.world.server.poll = _
    rw [made.server]
  intro new own
  have different : ¬ ∃ other ∈ self.world.server.connections, self.world.descriptor other = self.world.descriptor c := by
    rintro ⟨other, member, same⟩
    rw [made.server] at member
    have another : other ≠ c := fun equal => new (equal ▸ member)
    refine own other member (Eq.trans ?_ (same.trans made.held))
    rw [World.descriptor, World.descriptor, made.others other another]
  change c ∈ Server.insertSet _ _ _
  rw [Server.insertSet, if_neg different]
  exact (List.mem_orderedInsert _).mpr (.inl rfl)

theorem initialise_thrown (self : Progress) (c : Nat) (answers : PollAnswers) : (self.initialise c answers).thrown =
    (self.world.server.poll.initialiseCtl (answering answers.insert) () c (self.world.descriptor c)).thrown := rfl

theorem initialise_connections (self : Progress) (c : Nat) (answers : PollAnswers) :
    (self.initialise c answers).world.server.connections = self.world.server.connections := by
  unfold initialise
  dsimp only
  split <;> rfl

/-- The masks of a descriptor that nothing is registered for go into the table or astray. -/
theorem initialise_outside (self : Progress) (c : Nat) (answers : PollAnswers) :
    (self.initialise c answers).outside = (self.outside ||
      self.world.server.poll.eventMask (self.world.descriptor c) = 0 ∧
        ¬ (0 ≤ self.world.descriptor c ∧ self.world.descriptor c < self.world.server.poll.table.length)) := by
  unfold initialise Poll.openEvent
  dsimp only
  split
  next busy => simp [Except.toBool, busy]
  next empty => simp [Except.toBool, not_not.mp empty]

/-- One that is let in gets its interests, or has gone astray, or is in the registry when the
exception comes. -/
theorem Made.admitted (made : self.Made w c fd) (room : ¬ maxConnects ≤ w.server.connections.length)
    (own : fd < 0 ∨ ∀ d ∈ w.server.connections, w.descriptor d ≠ fd) (new : c ∉ w.server.connections)
    (answers : PollAnswers) :
    ∃ admitted, (self.newConnection c maxConnects).next (·.initialise c answers) = admitted ∧
      (w.server.Takes answers fd ∧ admitted.thrown = none ∧ admitted.outside = false ∨
        ¬ w.server.Takes answers fd ∧ (admitted.outside = true ∨ ∃ error ≠ .tooManyConnectionsError,
          admitted.thrown = some error ∧ c ∈ admitted.world.server.connections)) := by
  obtain ⟨inserted, same, ok, poll, held, straight, member⟩ := made.newConnection room
  rw [same, next_ok ok]
  refine ⟨_, rfl, ?_⟩
  rw [initialise_thrown, initialise_connections, initialise_outside, poll, held, straight, Bool.false_or]
  by_cases inside : 0 ≤ fd ∧ fd < w.server.poll.table.length
  · have different := own.resolve_left (by omega)
    obtain ⟨both, done⟩ | ⟨missing, error, caught, failed⟩ := w.server.poll.initialiseCtl_thrown c fd answers.insert
    · exact .inl ⟨⟨inside, both⟩, done, by simp [inside]⟩
    · exact .inr ⟨fun takes => missing takes.2, .inr ⟨error, caught, failed, member new different⟩⟩
  · refine .inr ⟨fun takes => inside takes.1, .inl ?_⟩
    rw [decide_eq_true_eq]
    exact ⟨Poll.eventMask_outside inside, inside⟩

theorem next_outside {f : Progress → Progress} (keeps : ∀ progress, (f progress).outside = progress.outside)
    (self : Progress) : (self.next f).outside = self.outside := by
  unfold next
  split
  · rfl
  · exact keeps self

theorem destroySocket_outside (self : Progress) (c : Nat) : (self.destroySocket c).outside = self.outside := by
  unfold destroySocket
  dsimp only
  split <;> rfl

theorem destroySocket_world (self : Progress) (c : Nat) : (self.destroySocket c).world = self.world := by
  unfold destroySocket
  dsimp only
  split <;> rfl

theorem destroy_outside (self : Progress) (c : Nat) (answers : PollAnswers) :
    (self.destroy c answers).outside = self.outside := by
  unfold destroy
  dsimp only
  rw [next_outside (destroySocket_outside · c)]
  split
  · rfl
  · rw [next_outside fun progress => by split <;> rfl]

/-- The last reference to a connection without interests: its descriptor is closed. -/
theorem Made.destroy (made : self.Made w c fd) (valid : 0 ≤ fd) (empty : w.server.poll.eventMask fd = 0)
    (answers : PollAnswers) :
    ∃ destroyed, self.destroy c answers = destroyed ∧ destroyed.thrown = none ∧
      destroyed.closed = self.closed ++ [fd] ∧ destroyed.outside = false ∧
      destroyed.world.server.connections = w.server.connections ∧ destroyed.world.server.activity = w.server.activity ∧
      destroyed.world.server.poll.table = w.server.poll.table ∧ ∀ d, d ≠ c → destroyed.world.conn d = w.conn d := by
  have opened : ¬ (self.world.conn c).state = .closing := by rw [made.state]; decide
  have held : (self.world.setState c .closing).descriptor c = fd := by
    rw [World.descriptor, World.setState_conn]
    exact made.held
  have poll : (self.world.setState c .closing).server.poll = w.server.poll := congrArg Server.poll made.server
  obtain ⟨events, removed⟩ := Poll.closeCtl_empty c answers.remove empty
  let world := (self.world.setState c .closing).poll fun _ => { w.server.poll with events }
  let closed := ({ self with world, thrown := none } : Progress).closeDescriptor c
  have released : closed.world.descriptor c = -1 := by
    change ((world.modify c ({ · with fd := -1 })).conn c).fd = -1
    rw [World.modify_conn]
  have same : self.destroy c answers = closed := by
    unfold Progress.destroy
    dsimp only
    rw [if_neg opened, held, poll, removed]
    dsimp only
    rw [next_made, if_pos (show 0 ≤ world.descriptor c from valid.trans_eq held.symm)]
    change closed.destroySocket c = closed
    rw [destroySocket, released]
    rfl
  have server : self.world.server = w.server := made.server
  refine ⟨closed, same, rfl, ?_, made.outside, ?_, ?_, rfl, fun d other => ?_⟩
  · change self.closed ++ [world.descriptor c] = _
    rw [show world.descriptor c = fd from held]
  · change self.world.server.connections = _
    rw [server]
  · change self.world.server.activity = _
    rw [server]
  · change (world.modify c ({ · with fd := -1 })).conn d = _
    rw [World.modify_conn_ne other]
    change (self.world.setState c .closing).conn d = _
    rw [World.setState, World.modify_conn_ne other, made.others d other]

theorem leave_exit (self : Progress) (c : Nat) (answers : PollAnswers) (error : Exception) :
    (self.leave c answers error).exit ≠ .returned := by
  unfold leave finish
  split
  · nofun
  · dsimp only
    split <;> nofun

theorem leave_outside (self : Progress) (c : Nat) (answers : PollAnswers) (error : Exception) :
    (self.leave c answers error).outside = self.outside := by
  unfold leave
  split
  · rfl
  · exact destroy_outside _ c answers

theorem leaveConstructor_outside (self : Progress) (c : Nat) (error : Exception) :
    (self.leaveConstructor c error).outside = self.outside := destroySocket_outside _ c

theorem newConnection_outside (self : Progress) (c maxConnects : Nat) :
    (self.newConnection c maxConnects).outside = self.outside := by
  unfold newConnection
  split <;> rfl

theorem register_outside (astray : self.outside = true) (isPersistent : Bool) :
    (self.register c maxConnects answers isPersistent).outside = true := by
  unfold register
  dsimp only
  have admitted : ((({ self with world := self.world.setPersistence c isPersistent } : Progress).newConnection c
      maxConnects).next (·.initialise c answers)).outside = true := by
    unfold next
    split
    · rw [newConnection_outside, astray]
    · rw [initialise_outside, newConnection_outside, astray, Bool.true_or]
  split
  · exact admitted
  · rw [leave_outside, admitted]

/-- What is in the registry is not undone on the way out. -/
theorem leave_traced {before : Server} (new : c ∉ before.connections)
    (traced : c ∈ self.world.server.connections) (opened : List Nat) (answers : PollAnswers) (error : Exception) :
    ¬ (self.leave c answers error).Harmless before opened := by
  intro harmless
  have clean := harmless.2 (leave_exit self c answers error)
  unfold leave at clean
  rw [if_pos (.inl traced)] at clean
  have same : self.world.server.connections = before.connections := clean.connections
  rw [same] at traced
  exact new traced

/-- An incoming connection that is constructed is harmless exactly when it is let in or
refused for the number of connections. -/
theorem Made.accept_harmless (made : self.Made w c fd) (own : fd < 0 ∨ ∀ d ∈ w.server.connections, w.descriptor d ≠ fd)
    (new : c ∉ w.server.connections) (opened : List Nat) :
    (self.accept c maxConnects answers).Harmless w.server opened ↔
      maxConnects ≤ w.server.connections.length ∨ w.server.Takes answers fd := by
  unfold accept
  dsimp only
  by_cases full : maxConnects ≤ w.server.connections.length
  · rw [newConnection_full (by rw [made.server]; exact full), next_thrown rfl]
    exact iff_of_true ⟨made.outside, fun exit => absurd rfl exit⟩ (.inl full)
  obtain ⟨admitted, same, ⟨takes, done, straight⟩ | ⟨missing, astray | ⟨error, caught, failed, traced⟩⟩⟩ :=
    made.admitted full own new answers
  · rw [same, done]
    exact iff_of_true ⟨straight, fun exit => absurd rfl exit⟩ (.inr takes)
  · rw [same]
    refine iff_of_false (fun harmless => ?_) (not_or.mpr ⟨full, missing⟩)
    have straight := harmless.1
    split at straight
    · exact absurd (astray.symm.trans straight) nofun
    · exact absurd (astray.symm.trans straight) nofun
    · rw [leave_outside, astray] at straight
      cases straight
  · rw [same, failed]
    refine iff_of_false ?_ (not_or.mpr ⟨full, missing⟩)
    have left := leave_traced new traced opened answers error
    cases error <;> first | exact left | exact absurd rfl caught

theorem Made.leave_throw (made : self.Made w c fd) {opened : List Nat} (unused : w.Unused c opened) (answers : PollAnswers)
    (error : Exception) : (self.throw error).leave c answers error =
      (self.destroy c answers).finish (if (self.destroy c answers).thrown.isSome then .terminated else .thrown error) := by
  have unregistered : ¬ (self.throw error).registered c := by
    change ¬ (c ∈ self.world.server.connections ∨ c ∈ self.world.server.activity)
    rw [made.server]
    exact not_or.mpr ⟨unused.connections, unused.activity⟩
  have unthrown : { self.throw error with thrown := none } = self := by
    rw [throw, ← made.thrown]
  unfold leave
  rw [if_neg unregistered, unthrown]

theorem Made.leave_refused {fd : Nat} (made : self.Made w c fd) (unused : w.Unused c [fd]) (closed : self.closed = [])
    (empty : w.server.poll.eventMask fd = 0) (error : Exception) :
    ((self.throw error).leave c answers error).Harmless w.server [fd] := by
  obtain ⟨destroyed, same, ok, closes, inside, connections, activity, table, _⟩ :=
    made.destroy (Int.natCast_nonneg fd) empty answers
  rw [made.leave_throw unused, same, ok]
  refine ⟨inside, fun _ => ⟨connections, activity, table, List.forall_mem_singleton.mpr ?_, nofun⟩⟩
  change destroyed.closed.count (fd : Int) = 1
  rw [closes, closed]
  exact List.count_singleton_self

theorem Made.destroy_mask (made : self.Made w c fd) (returned : (self.destroy c answers).thrown = none) :
    (self.destroy c answers).world.server.poll.eventMask fd = 0 := by
  have opened : ¬ (self.world.conn c).state = .closing := by rw [made.state]; decide
  have held : (self.world.setState c .closing).descriptor c = fd := by
    rw [World.descriptor, World.setState_conn]
    exact made.held
  unfold Progress.destroy at returned ⊢
  dsimp only at returned ⊢
  rw [if_neg opened, held] at returned ⊢
  obtain ⟨closed, same⟩ := of_next returned
  rw [same]
  obtain ⟨removed, same⟩ := of_next closed
  rw [same]
  have empty := Poll.closeCtl_mask removed
  rw [destroySocket_world]
  split <;> exact empty

theorem Made.leave_masked {opened : List Nat} (made : self.Made w c fd) (unused : w.Unused c opened)
    (masked : w.server.poll.eventMask fd ≠ 0) (error : Exception) :
    ¬ ((self.throw error).leave c answers error).Harmless w.server opened := by
  intro harmless
  have clean := harmless.2 (leave_exit _ c answers error)
  rw [made.leave_throw unused] at clean
  cases thrown : (self.destroy c answers).thrown with
  | some other =>
    rw [thrown] at clean
    exact clean.destructors rfl
  | none =>
    have table : (self.destroy c answers).world.server.poll.table = w.server.poll.table := clean.table
    have empty := made.destroy_mask thrown
    unfold Poll.eventMask at empty masked
    rw [table] at empty
    exact masked empty

theorem Made.register_harmless {fd : Nat} (made : self.Made w c fd) (unused : w.Unused c [fd]) (closed : self.closed = [])
    (maxConnects : Nat) (answers : PollAnswers) (isPersistent : Bool) :
    (self.register c maxConnects answers isPersistent).Harmless w.server [fd] ↔
      w.server.poll.eventMask fd = 0 ∧ (maxConnects ≤ w.server.connections.length ∨ w.server.Takes answers fd) := by
  have set : Made w c fd { self with world := self.world.setPersistence c isPersistent } :=
    made_modify self ({ · with isPersistent }) made.server made.others made.held made.state made.incoming
      made.queue made.outside made.thrown self.closed
  unfold register
  dsimp only
  by_cases full : maxConnects ≤ w.server.connections.length
  · rw [newConnection_full (by rw [set.server]; exact full), next_thrown rfl]
    by_cases empty : w.server.poll.eventMask (fd : Int) = 0
    · exact iff_of_true (set.leave_refused unused closed empty .tooManyConnectionsError) ⟨empty, .inl full⟩
    · exact iff_of_false (set.leave_masked unused empty .tooManyConnectionsError) fun both => empty both.1
  have own : (fd : Int) < 0 ∨ ∀ d ∈ w.server.connections, w.descriptor d ≠ fd :=
    .inr (unused.others fd (List.mem_singleton.mpr rfl))
  obtain ⟨admitted, same, ⟨takes, done, straight⟩ | ⟨missing, astray | ⟨error, _, failed, traced⟩⟩⟩ :=
    set.admitted full own unused.connections answers
  · rw [same, done]
    exact iff_of_true ⟨straight, fun exit => absurd rfl exit⟩ ⟨takes.2.1, .inr takes⟩
  · refine iff_of_false (fun harmless => ?_) fun both => not_or.mpr ⟨full, missing⟩ both.2
    rw [same] at harmless
    have straight := harmless.1
    split at straight
    · exact absurd (astray.symm.trans straight) nofun
    · rw [leave_outside, astray] at straight
      cases straight
  · rw [same, failed]
    exact iff_of_false (leave_traced unused.connections traced _ _ _) fun both => not_or.mpr ⟨full, missing⟩ both.2

theorem leaveConstructor_valid (valid : 0 ≤ self.world.descriptor c) (before : Server) (opened : List Nat)
    (error : Exception) : ¬ (self.leaveConstructor c error).Harmless before opened := by
  have terminated : (self.leaveConstructor c error).exit = .terminated := by
    unfold leaveConstructor destroySocket
    dsimp only
    rw [if_pos valid]
    rfl
  intro harmless
  exact (harmless.2 (by rw [terminated]; nofun)).destructors terminated

theorem leaveConstructor_released (released : self.world.descriptor c < 0) (error : Exception) :
    self.leaveConstructor c error = self.finish (.thrown error) := by
  unfold leaveConstructor destroySocket
  dsimp only
  rw [if_neg (by omega)]
  rfl

/-- An exception out of a constructor that has no descriptor is as good as what it closed. -/
theorem Made.leaveConstructor_harmless (made : self.Made w c (-1)) (error : Exception) (opened : List Nat) :
    ((self.throw error).leaveConstructor c error).Harmless w.server opened ↔
      ∀ fd ∈ opened, self.closed.count (fd : Int) = 1 := by
  have released : (self.throw error).world.descriptor c < 0 := by
    change (self.world.conn c).fd < 0
    rw [made.held]
    decide
  rw [leaveConstructor_released released]
  refine ⟨fun harmless => (harmless.2 nofun).closed, fun closed => ⟨made.outside, fun _ => ⟨?_, ?_, ?_, closed, nofun⟩⟩⟩
  · exact congrArg Server.connections made.server
  · exact congrArg Server.activity made.server
  · exact congrArg (fun server => server.poll.table) made.server

theorem allocate_made (w : World) (c : Nat) : Made w c (-1) (w.allocate c) :=
  made_modify { world := w } (fun _ => .create (-1)) rfl (fun _ _ => rfl) rfl rfl rfl rfl rfl rfl []

theorem Made.setDescriptor (made : self.Made w c fd) (given : Int) : Made w c given (self.setDescriptor c given) :=
  made_modify self ({ · with fd := given }) made.server made.others rfl made.state made.incoming made.queue made.outside
    made.thrown self.closed

theorem Made.closeDescriptor (made : self.Made w c fd) : Made w c (-1) (self.closeDescriptor c) :=
  made_modify self ({ · with fd := -1 }) made.server made.others rfl made.state made.incoming made.queue made.outside
    made.thrown _

theorem Made.fdSet_inside {fd : Nat} (made : self.Made w c fd) (inside : fd < FD_SETSIZE) : self.fdSet c = self := by
  have within : 0 ≤ self.world.descriptor c ∧ self.world.descriptor c < FD_SETSIZE := by
    rw [World.descriptor, made.held]
    omega
  simp [fdSet, within]

theorem Made.fdSet_outside {fd : Nat} (made : self.Made w c fd) (beyond : ¬ fd < FD_SETSIZE) :
    (self.fdSet c).outside = true := by
  have without : ¬ (0 ≤ self.world.descriptor c ∧ self.world.descriptor c < FD_SETSIZE) := by
    rw [World.descriptor, made.held]
    omega
  rw [fdSet, decide_eq_true without, Bool.or_true]

/-- What `connect` comes to with all options set. -/
theorem Made.connect_harmless {fd : Nat} (made : self.Made w c fd) (unused : w.Unused c [fd]) (closed : self.closed = [])
    (peer : Outgoing) :
    (match (self.connect c peer fd).thrown with
      | some error => (self.connect c peer fd).leaveConstructor c error
      | none => (self.connect c peer fd).register c maxConnects answers peer.isPersistent).Harmless w.server [fd] ↔
    peer.resolved ∧ peer.connecting ≠ .failed ∧ (peer.connecting = .connected ∨ fd < FD_SETSIZE) ∧
      (peer.connecting = .inProgress false ∨
        w.server.poll.eventMask fd = 0 ∧ (maxConnects ≤ w.server.connections.length ∨ w.server.Takes answers fd)) := by
  have valid := made.valid
  have registers := made.register_harmless unused closed maxConnects answers peer.isPersistent
  unfold connect
  by_cases resolved : peer.resolved
  swap
  · rw [if_pos resolved]
    exact iff_of_false (leaveConstructor_valid valid _ _ _) fun all => resolved all.1
  rw [if_neg (not_not.mpr resolved), closed, if_neg List.not_mem_nil]
  cases peer.connecting with
  | connected =>
    dsimp only
    rw [made.thrown, registers]
    simp [resolved]
  | failed =>
    have broken := @leaveConstructor_valid ((self.closeSocket fd).throw (.ioException "Could not connect to remote peer")) c
      valid w.server [fd] (.ioException "Could not connect to remote peer")
    exact iff_of_false broken fun all => all.2.1 rfl
  | inProgress ready =>
    by_cases inside : fd < FD_SETSIZE
    · rw [made.fdSet_inside inside]
      cases ready with
      | true =>
        dsimp only
        rw [made.thrown, registers]
        simp [resolved, inside]
      | false =>
        refine iff_of_true ?_ ⟨resolved, Connecting.noConfusion, .inr inside, .inl rfl⟩
        refine (made.closeDescriptor.leaveConstructor_harmless _ _).mpr (List.forall_mem_singleton.mpr ?_)
        change (self.closed ++ [self.world.descriptor c]).count (fd : Int) = 1
        rw [closed, show self.world.descriptor c = fd from made.held]
        exact List.count_singleton_self
    · refine iff_of_false (fun harmless => ?_) fun all => all.2.2.1.elim Connecting.noConfusion inside
      have astray := made.fdSet_outside inside
      have straight := harmless.1
      cases ready with
      | true =>
        have thrown : (self.fdSet c).thrown = none := made.thrown
        dsimp only at straight
        rw [thrown] at straight
        dsimp only at straight
        rw [register_outside astray] at straight
        cases straight
      | false =>
        have kept := leaveConstructor_outside (((self.fdSet c).closeDescriptor c).throw (.ioException "Connection timed out"))
          c (.ioException "Connection timed out")
        exact absurd ((kept.trans astray).symm.trans straight) nofun

theorem Made.connect_closed {fd : Nat} (made : self.Made w c (-1)) (closed : self.closed = [(fd : Int)]) (peer : Outgoing) :
    (match (self.connect c peer fd).thrown with
      | some error => (self.connect c peer fd).leaveConstructor c error
      | none => (self.connect c peer fd).register c maxConnects answers peer.isPersistent).Harmless w.server [fd] ↔
    ¬ peer.resolved := by
  unfold connect
  by_cases resolved : peer.resolved
  · rw [if_neg (not_not.mpr resolved), closed, if_pos (List.mem_singleton.mpr rfl)]
    refine iff_of_false (fun harmless => ?_) (not_not.mpr resolved)
    have again : Made w c (-1) (self.closeSocket fd) :=
      ⟨made.server, made.others, made.held, made.state, made.incoming, made.queue, made.outside, made.thrown⟩
    have once := (again.leaveConstructor_harmless _ _).mp harmless fd (List.mem_singleton.mpr rfl)
    change (self.closed ++ [(fd : Int)]).count (fd : Int) = 1 at once
    rw [closed] at once
    simp at once
  · rw [if_pos resolved]
    refine iff_of_true ?_ resolved
    refine (made.leaveConstructor_harmless _ _).mpr (List.forall_mem_singleton.mpr ?_)
    rw [closed]
    exact List.count_singleton_self

end Progress

/-- When `Create` leaves no trace: for an incoming connection, when the flags of the socket
can be read and it is let in or refused. -/
def Attempt.Tidy (server : Server) (maxConnects : Nat) (answers : PollAnswers) : Attempt → Prop
  | .incoming fd options => ¬ options.Unreadable ∧
      (maxConnects ≤ server.connections.length ∨ server.Takes answers (if options.AllSet then fd else -1))
  | .outgoing peer => match peer.socket with
    | none => True
    | some fd => peer.reuseAddress ∧ peer.bind ≠ some false ∧ ¬ peer.options.Unreadable ∧
      if peer.options.AllSet then
        peer.resolved ∧ peer.connecting ≠ .failed ∧ (peer.connecting = .connected ∨ fd < Progress.FD_SETSIZE) ∧
          (peer.connecting = .inProgress false ∨
            server.poll.eventMask fd = 0 ∧ (maxConnects ≤ server.connections.length ∨ server.Takes answers fd))
      else ¬ peer.resolved

namespace World

variable {w : World} {c : Nat}

theorem incoming_harmless {fd : Nat} (unused : w.Unused c [fd]) (maxConnects : Nat) (answers : PollAnswers) (options : Options) :
    (w.create maxConnects c answers (.incoming fd options)).Harmless w.server [fd] ↔
      (Attempt.incoming fd options).Tidy w.server maxConnects answers := by
  have made : Progress.Made w c fd ((w.allocate c).setDescriptor c fd) := (Progress.allocate_made w c).setDescriptor fd
  have valid := made.valid
  unfold create Attempt.Tidy
  dsimp only
  generalize (w.allocate c).setDescriptor c fd = given at made valid
  rcases Progress.setOptions_cases valid options with ⟨unreadable, same⟩ | ⟨readable, all, same⟩ | ⟨readable, unset, same⟩
  · rw [same]
    exact iff_of_false (Progress.leaveConstructor_valid valid _ _ _) fun all => all.1 unreadable
  · rw [same, made.thrown, if_pos all]
    exact (made.accept_harmless (.inr (unused.others fd (List.mem_singleton.mpr rfl))) unused.connections _).trans
      ⟨fun admits => ⟨readable, admits⟩, And.right⟩
  · rw [same, made.closeDescriptor.thrown, if_neg unset]
    exact (made.closeDescriptor.accept_harmless (.inl (by decide)) unused.connections _).trans
      ⟨fun admits => ⟨readable, admits⟩, And.right⟩

theorem outgoing_harmless {peer : Outgoing} (unused : w.Unused c peer.socket.toList) (maxConnects : Nat)
    (answers : PollAnswers) :
    (w.create maxConnects c answers (.outgoing peer)).Harmless w.server peer.socket.toList ↔
      (Attempt.outgoing peer).Tidy w.server maxConnects answers := by
  have allocated := Progress.allocate_made w c
  have untouched : (w.allocate c).closed = [] := rfl
  unfold create Attempt.Tidy Progress.dial
  dsimp only
  generalize w.allocate c = given at allocated untouched
  cases opened : peer.socket with
  | none => exact iff_of_true ((allocated.leaveConstructor_harmless _ _).mpr (List.forall_mem_nil _)) trivial
  | some fd =>
    rw [opened] at unused
    -- a descriptor the object was not told of stays open
    have leaks (error : Exception) : ¬ ((given.throw error).leaveConstructor c error).Harmless w.server [fd] := by
      rw [allocated.leaveConstructor_harmless, untouched]
      exact fun closed => nomatch closed fd (List.mem_singleton.mpr rfl)
    dsimp only [Option.toList_some]
    by_cases reused : peer.reuseAddress
    swap
    · rw [if_pos reused]
      exact iff_of_false (leaks _) fun tidy => reused tidy.1
    rw [if_neg (not_not.mpr reused)]
    by_cases unbound : peer.bind = some false
    · rw [if_pos unbound]
      exact iff_of_false (leaks _) fun tidy => tidy.2.1 unbound
    rw [if_neg unbound]
    have made := allocated.setDescriptor (fd : Int)
    have valid := made.valid
    rcases Progress.setOptions_cases valid peer.options with ⟨unreadable, same⟩ | ⟨readable, all, same⟩ | ⟨readable, unset, same⟩
    · rw [same]
      exact iff_of_false (Progress.leaveConstructor_valid valid _ _ _) fun tidy => tidy.2.2.1 unreadable
    · rw [same, Progress.next_ok made.thrown, if_pos all]
      refine (made.connect_harmless unused untouched peer).trans ?_
      simp only [reused, unbound, readable, true_and, not_false_eq_true, ne_eq]
    · have released := made.closeDescriptor
      have closed : ((given.setDescriptor c fd).closeDescriptor c).closed = [(fd : Int)] := by
        change given.closed ++ [(given.setDescriptor c fd).world.descriptor c] = _
        rw [untouched, World.descriptor, made.held]
        rfl
      rw [same, Progress.next_ok released.thrown, if_neg unset]
      refine (released.connect_closed closed peer).trans ?_
      simp only [reused, unbound, readable, true_and, not_false_eq_true, ne_eq]

/-- Whatever the kernel answers, `Create` writes nothing astray and an exception out of it
leaves no trace exactly when the attempt is tidy. -/
theorem created_harmless_iff (maxConnects : Nat) (answers : PollAnswers) (attempt : Attempt) (unused : w.Unused c attempt.opened) :
    (w.create maxConnects c answers attempt).Harmless w.server attempt.opened ↔
      attempt.Tidy w.server maxConnects answers := by
  cases attempt with
  | incoming fd options => exact incoming_harmless unused maxConnects answers options
  | outgoing peer => exact outgoing_harmless unused maxConnects answers

/-- All options of a socket are set. -/
def allOptions : Options :=
  { noSignal := true, noDelay := true, getFlags := true, setFlags := true, sendTimeout := true, receiveTimeout := true }

/-- A peer that does not answer. -/
theorem created_harmless_timeout :
    let peer : Outgoing := { socket := some 5, reuseAddress := true, bind := none, options := allOptions, resolved := true
                             connecting := .inProgress false, isPersistent := true }
    (vacant.create 1000 0 .granted (.outgoing peer)).Harmless vacant.server [5] ↔
      (Attempt.outgoing peer).Tidy vacant.server 1000 .granted :=
  created_harmless_iff 1000 .granted _ ⟨List.not_mem_nil, List.not_mem_nil, fun _ _ => List.forall_mem_nil _⟩

/-- A peer that refuses: the descriptor is closed, but not in the object. -/
theorem refused_peer_terminates :
    ¬ ∀ (w : World) (c maxConnects : Nat) (answers : PollAnswers) (attempt : Attempt), w.Unused c attempt.opened →
      (w.create maxConnects c answers attempt).Harmless w.server attempt.opened := by
  intro always
  have clean := always vacant 0 1000 .granted (.outgoing
    { socket := some 5, reuseAddress := true, bind := none, options := allOptions, resolved := true, connecting := .failed
      isPersistent := true }) ⟨List.not_mem_nil, List.not_mem_nil, fun _ _ => List.forall_mem_nil _⟩
  exact (clean.2 (by decide)).destructors (by decide)

end World
end LibWebserver
