import LibWebserver.Proofs.Lifecycle
import LibWebserver.Proofs.Registrations

/-! What an operation on a connection does to the activity of its server and to the
interest in writing: what arrives is marked, and what is queued is waited for. -/

namespace LibWebserver

namespace Poll

variable {self : Poll} {fd : Int}

theorem modify_length (self : Poll) (fd : Int) (mask : UInt32) :
    (self.modify fd mask).table.length = self.table.length := by
  unfold modify setEventMask
  split_ifs
  · rfl
  · exact List.length_set
  · rfl

theorem eventMask_insert (inside : 0 ≤ fd ∧ fd < self.table.length) (bit : UInt32) :
    (self.insert fd bit).eventMask fd = self.eventMask fd ||| bit := by
  unfold insert modify
  split
  next same => exact same
  next => rw [eventMask_setEventMask inside, Function.update_self]

theorem inWrite_insertWrite (inside : 0 ≤ fd ∧ fd < self.table.length) : (self.insertWrite fd).inWrite fd := by
  unfold insertWrite inWrite
  rw [eventMask_insert inside, mask_or_and]
  decide

end Poll

namespace World

variable {w middle after : World} {c : Nat}

/-- The connected connections are in the registry, each on its own descriptor inside the
table, and no other descriptor is waited for. -/
structure Registry (w : World) : Prop where
  connected : ∀ c, (w.conn c).state = .connected ↔ c ∈ w.server.connections
  absent : ∀ c, c ∉ w.server.connections → (w.conn c).state = .closing ∨ w.descriptor c < 0
  activity : ∀ c ∈ w.server.activity, c ∈ w.server.connections
  inside : ∀ c ∈ w.server.connections, 0 ≤ w.descriptor c ∧ w.descriptor c < w.server.poll.table.length
  distinct : ∀ c ∈ w.server.connections, ∀ d ∈ w.server.connections, w.descriptor c = w.descriptor d → c = d
  watched : ∀ c ∈ w.server.connections, Poll.Watched (w.server.poll.eventMask (w.descriptor c))
  unwatched : ∀ fd, 0 ≤ fd → (∀ c ∈ w.server.connections, w.descriptor c ≠ fd) → w.server.poll.eventMask fd = 0

/-- A connection whose activity and interests can be noted. -/
structure Ready (c : Nat) (w : World) : Prop where
  inside : 0 ≤ w.descriptor c ∧ w.descriptor c < w.server.poll.table.length
  alone : ∀ d ∈ w.server.activity, w.descriptor d = w.descriptor c → d = c

theorem Registry.ready (registry : w.Registry) (member : c ∈ w.server.connections) : Ready c w where
  inside := registry.inside c member
  alone d active same := registry.distinct d (registry.activity d active) c member same

/-- A steady step that marks its connection when messages arrive, and waits for what it
queues. -/
structure Tends (c : Nat) (w after : World) : Prop extends Steady c w after where
  active : ∀ d ∈ w.server.activity, d ∈ after.server.activity
  room : after.server.poll.table.length = w.server.poll.table.length
  arrives : (w.conn c).incoming <+: (after.conn c).incoming
  marks : (after.conn c).incoming ≠ (w.conn c).incoming → c ∈ after.server.activity
  keeps : w.server.poll.inWrite (w.descriptor c) → after.server.poll.inWrite (w.descriptor c)
  waits : (after.conn c).outgoing ≠ (w.conn c).outgoing → after.server.poll.inWrite (w.descriptor c)

theorem Tends.refl (c : Nat) (w : World) : Tends c w w :=
  ⟨.refl c w, fun _ => id, rfl, List.prefix_rfl, absurd rfl, id, absurd rfl⟩

theorem Steady.descriptor (steady : Steady c w after) (d : Nat) : after.descriptor d = w.descriptor d := by
  by_cases own : d = c
  · rw [own]
    exact steady.fd
  · exact congrArg Connection.fd (steady.others d own)

theorem Tends.trans (first : Tends c w middle) (last : Tends c middle after) : Tends c w after where
  toSteady := first.toSteady.trans last.toSteady
  active d member := last.active d (first.active d member)
  room := last.room.trans first.room
  arrives := first.arrives.trans last.arrives
  marks changed := by
    by_cases same : (after.conn c).incoming = (middle.conn c).incoming
    · exact last.active c (first.marks (same ▸ changed))
    · exact last.marks same
  keeps written := by
    have next := last.keeps
    rw [first.descriptor] at next
    exact next (first.keeps written)
  waits changed := by
    have next := last.keeps
    have queues := last.waits
    rw [first.descriptor] at next queues
    by_cases same : (after.conn c).outgoing = (middle.conn c).outgoing
    · exact next (first.waits (same ▸ changed))
    · exact queues same

theorem Tends.ready (tends : Tends c w after) (ready : Ready c w) : Ready c after where
  inside := by
    rw [tends.descriptor, tends.room]
    exact ready.inside
  alone d member same := by
    rw [tends.descriptor, tends.descriptor] at same
    exact (tends.activity d member).elim (ready.alone d · same) id

theorem tends_modify {f : Connection → Connection} (fd : (f (w.conn c)).fd = (w.conn c).fd)
    (state : (f (w.conn c)).state = (w.conn c).state) (incoming : (f (w.conn c)).incoming = (w.conn c).incoming)
    (outgoing : (f (w.conn c)).outgoing = (w.conn c).outgoing) : Tends c w (w.modify c f) where
  toSteady := steady_modify fd state
  active _ := id
  room := rfl
  arrives := by rw [modify_conn, incoming]
  marks changed := absurd (by rw [modify_conn, incoming]) changed
  keeps := id
  waits changed := absurd (by rw [modify_conn, outgoing]) changed

/-- `ActivityOn` marks a connection, and no other connection loses its mark. -/
theorem markActivity_active (ready : Ready c w) :
    c ∈ (w.markActivity c).server.activity ∧ ∀ d ∈ w.server.activity, d ∈ (w.markActivity c).server.activity := by
  unfold markActivity Server.activityOn
  dsimp only
  split
  next member => exact ⟨member, fun _ => id⟩
  next missing =>
    have different : ¬ ∃ other ∈ w.server.activity, w.descriptor other = w.descriptor c :=
      fun ⟨other, member, same⟩ => missing (ready.alone other member same ▸ member)
    dsimp only
    rw [Server.insertSet, if_neg different]
    exact ⟨(List.mem_orderedInsert _).mpr (.inl rfl), fun d member => (List.mem_orderedInsert _).mpr (.inr member)⟩

theorem markActivity_poll (w : World) (c : Nat) : (w.markActivity c).server.poll = w.server.poll := by
  unfold markActivity Server.activityOn
  dsimp only
  split <;> rfl

theorem tends_markActivity (ready : Ready c w) {f : Connection → Connection} (fd : (f (w.conn c)).fd = (w.conn c).fd)
    (state : (f (w.conn c)).state = (w.conn c).state) (incoming : (w.conn c).incoming <+: (f (w.conn c)).incoming)
    (outgoing : (f (w.conn c)).outgoing = (w.conn c).outgoing) : Tends c w ((w.modify c f).markActivity c) := by
  have steady : Steady c w (w.modify c f) := steady_modify fd state
  have noted : Ready c (w.modify c f) := by
    refine ⟨?_, fun d member same => ready.alone d member ?_⟩
    · rw [steady.descriptor]
      exact ready.inside
    · rwa [steady.descriptor, steady.descriptor] at same
  obtain ⟨marked, active⟩ := markActivity_active noted
  refine ⟨steady.trans (steady_markActivity _ c), active, ?_, ?_, fun _ => marked, ?_, ?_⟩
  · rw [markActivity_poll]
    rfl
  · rw [markActivity_conn, modify_conn]
    exact incoming
  · rw [markActivity_poll]
    exact id
  · intro changed
    rw [markActivity_conn, modify_conn, outgoing] at changed
    exact absurd rfl changed

theorem tends_sendMessage (ready : Ready c w) (message : OutgoingHttpMessage) : Tends c w (w.sendMessage c message) := by
  by_cases idle : (w.conn c).state ≠ .connected
  · rw [sendMessage_idle idle]
    exact .refl c w
  rw [sendMessage, if_neg idle]
  dsimp only
  have appended : Steady c w (w.modify c fun conn => { conn with outgoing := conn.outgoing ++ [message.serialize] }) :=
    steady_modify rfl rfl
  have held := appended.descriptor c
  have waits : ((w.server.poll).insertWrite (w.descriptor c)).inWrite (w.descriptor c) :=
    Poll.inWrite_insertWrite ready.inside
  refine ⟨appended.trans (steady_insertWrite _ c), fun _ => id, Poll.modify_length _ _ _, ?_, ?_, ?_, ?_⟩
  · rw [poll_conn, modify_conn]
  · rw [poll_conn, modify_conn]
    exact absurd rfl
  · rw [held]
    exact fun _ => waits
  · rw [held]
    exact fun _ => waits

theorem tends_badData (ready : Ready c w) (message : IncomingHttpMessage) : Tends c w (w.badData c message) := by
  rcases badData_cases w c message with same | ⟨response, same⟩
  · rw [same]
    exact tends_modify rfl rfl rfl rfl
  · rw [same]
    exact tends_sendMessage ready response

theorem close_incoming (w : World) (c : Nat) : ((w.close c).world.conn c).incoming = (w.conn c).incoming := by
  obtain ⟨fd, closed⟩ := close_conn w c
  rw [closed]

/-- A pass of the receive loop, and its end unless it throws. -/
theorem tends_processStep (ready : Ready c w) :
    (∀ after, processStep c w = .next after → Tends c w after) ∧
      ∀ after, processStep c w = .exit (some ⟨after, none⟩) → Tends c w after := by
  refine ⟨fun after moves => ?_, fun after exits => ?_⟩
  · obtain ⟨message, _, buffer, _, _, rfl⟩ := processStep_goes moves
    exact tends_markActivity ready rfl rfl (List.prefix_append _ _) rfl
  · rcases processStep_ends exits with same | ⟨message, same⟩ | ⟨_, same⟩ | ⟨_, _, same⟩
    · cases same
      exact tends_modify rfl rfl rfl rfl
    · cases same
      exact tends_badData ready message
    · cases same
    · cases same

theorem tends_processEventRead (ready : Ready c w) (done : w.processEventRead c = some ⟨after, none⟩) : Tends c w after :=
  Loop.run_invariant (Tends c w) (fun result => ∀ after, result = some ⟨after, none⟩ → Tends c w after)
    (fun _ _ tends moves => tends.trans ((tends_processStep (tends.ready ready)).1 _ moves))
    (fun _ _ tends exits _ same => tends.trans ((tends_processStep (tends.ready ready)).2 _ (same ▸ exits)))
    (.refl c w) (Option.join_eq_some_iff.mp done) after rfl

theorem tends_eventRead (ready : Ready c w) {result : RecvResult} (done : w.eventRead c result = some ⟨after, none⟩) :
    ∃ middle, Tends c w middle ∧ (after = middle ∨ after = (middle.close c).world) := by
  have stored (buffer : CString) : Tends c w (w.setBuffer c buffer) := tends_modify rfl rfl rfl rfl
  rcases eventRead_cases done with ⟨_, same⟩ | ⟨_, buffer, closed | ⟨_, same⟩ | processed⟩
  · cases same
    exact ⟨_, .refl c _, .inl rfl⟩
  · exact ⟨_, stored buffer, .inr (congrArg Ended.world closed)⟩
  · cases same
    exact ⟨_, stored buffer, .inl rfl⟩
  · exact ⟨after, (stored buffer).trans (tends_processEventRead ((stored buffer).ready ready) processed), .inl rfl⟩

/-- The messages that `Deserialize` completes one after another. -/
inductive Deserializes (c : Nat) : World → List IncomingHttpMessage → World → Prop where
  | done {w : World} : Deserializes c w [] w
  | pass {w middle after : World} {message : IncomingHttpMessage} {eof : Nat} {messages : List IncomingHttpMessage}
      (found : IncomingHttpMessage.deserialize (w.conn c).buffer.content = some (.complete message eof))
      (moves : processStep c w = .next middle) (rest : Deserializes c middle messages after) :
      Deserializes c w (message :: messages) after

theorem badData_incoming (w : World) (c : Nat) (message : IncomingHttpMessage) :
    ((w.badData c message).conn c).incoming = (w.conn c).incoming := by
  rcases badData_cases w c message with same | ⟨response, same⟩
  · rw [same, modify_conn]
  · rw [same]
    by_cases connected : (w.conn c).state = .connected
    · rw [sendMessage_conn connected]
    · rw [sendMessage_idle connected]

theorem processStep_incoming (exits : processStep c w = .exit (some ⟨after, none⟩)) :
    (after.conn c).incoming = (w.conn c).incoming := by
  rcases processStep_ends exits with same | ⟨message, same⟩ | ⟨_, same⟩ | ⟨_, _, same⟩
  · cases same
    rw [modify_conn]
  · cases same
    exact badData_incoming w c message
  · cases same
  · cases same

theorem processEventRead_deserializes (done : w.processEventRead c = some ⟨after, none⟩) :
    ∃ messages last, Deserializes c w messages last ∧ processStep c last = .exit (some ⟨after, none⟩) ∧
      (after.conn c).incoming = (w.conn c).incoming ++ messages := by
  have run := Option.join_eq_some_iff.mp done
  generalize (w.conn c).buffer.length + 1 = fuel at run
  clear done
  induction fuel generalizing w with
  | zero => cases run
  | succ fuel ih =>
    cases moved : processStep c w with
    | exit result =>
      rw [Loop.run_exit fuel moved] at run
      obtain rfl : result = some ⟨after, none⟩ := Option.some.inj run
      exact ⟨[], w, .done, moved, by rw [processStep_incoming moved, List.append_nil]⟩
    | next middle =>
      rw [Loop.run_next fuel moved] at run
      obtain ⟨messages, last, deserializes, exits, incoming⟩ := ih run
      obtain ⟨message, eof, buffer, found, _, rfl⟩ := processStep_goes moved
      refine ⟨message :: messages, last, .pass found moved deserializes, exits, ?_⟩
      rw [incoming, markActivity_conn, modify_conn, List.append_assoc, List.singleton_append]

/-- What a read adds to the incoming messages is what was deserialized from a buffer. -/
theorem eventRead_deserializes {result : RecvResult} (done : w.eventRead c result = some ⟨after, none⟩) :
    ∃ messages buffer last, Deserializes c (w.setBuffer c buffer) messages last ∧
      (after.conn c).incoming = (w.conn c).incoming ++ messages := by
  rcases eventRead_cases done with ⟨_, same⟩ | ⟨_, buffer, closed | ⟨_, same⟩ | processed⟩
  · cases same
    exact ⟨[], (w.conn c).buffer, _, .done, (List.append_nil _).symm⟩
  · have closed : after = ((w.setBuffer c buffer).close c).world := congrArg Ended.world closed
    refine ⟨[], buffer, _, .done, ?_⟩
    rw [closed, close_incoming, setBuffer_conn, List.append_nil]
  · cases same
    refine ⟨[], buffer, _, .done, ?_⟩
    rw [setBuffer_conn, List.append_nil]
  · obtain ⟨messages, last, deserializes, _, incoming⟩ := processEventRead_deserializes processed
    rw [setBuffer_conn] at incoming
    exact ⟨messages, buffer, last, deserializes, incoming⟩

theorem Registry.steady (registry : w.Registry) (member : c ∈ w.server.connections) (steady : Steady c w after)
    (room : after.server.poll.table.length = w.server.poll.table.length) : after.Registry := by
  have state (d : Nat) : (after.conn d).state = (w.conn d).state := by
    by_cases own : d = c
    · rw [own, steady.state]
    · rw [steady.others d own]
  have fd := steady.descriptor
  refine ⟨fun d => ?_, fun d => ?_, fun d active => ?_, fun d => ?_, fun d one e other => ?_, fun d inside => ?_, fun number valid => ?_⟩
  · rw [state, steady.connections]
    exact registry.connected d
  · rw [state, steady.connections, fd]
    exact registry.absent d
  · rw [steady.connections]
    exact (steady.activity d active).elim (registry.activity d) (· ▸ member)
  · rw [steady.connections, fd, room]
    exact registry.inside d
  · rw [steady.connections] at one other
    rw [fd, fd]
    exact registry.distinct d one e other
  · rw [steady.connections] at inside
    rw [fd]
    by_cases own : d = c
    · rw [own] at inside ⊢
      exact steady.here (registry.watched c inside)
    · rw [steady.elsewhere _ (registry.inside d inside).1 fun same => own (registry.distinct d inside c member same)]
      exact registry.watched d inside
  · rw [steady.connections]
    intro free
    have other : number ≠ (w.conn c).fd := fun same => free c member ((fd c).trans same.symm)
    rw [steady.elsewhere number valid other]
    exact registry.unwatched number valid fun d inside => fd d ▸ free d inside

/-- A connection that is not closed has its descriptor for itself. -/
theorem Registry.apart (registry : w.Registry) (opened : (w.conn c).state ≠ .closing) {d : Nat}
    (member : d ∈ w.server.connections) (other : d ≠ c) : w.descriptor d ≠ w.descriptor c := by
  intro same
  by_cases registered : c ∈ w.server.connections
  · exact other (registry.distinct d member c registered same)
  · have valid := (registry.inside d member).1
    have invalid := (registry.absent c registered).resolve_left opened
    omega

/-- Closing takes the connection out of both sets, and no other. -/
theorem Registry.mem_close (registry : w.Registry) (c d : Nat) :
    (d ∈ (w.close c).world.server.connections ↔ d ∈ w.server.connections ∧ d ≠ c) ∧
      (d ∈ (w.close c).world.server.activity ↔ d ∈ w.server.activity ∧ d ≠ c) := by
  by_cases opened : (w.conn c).state ≠ .closing
  · have same (e : Nat) : (w.setState c .closing).descriptor e = w.descriptor e := setState_descriptor w c .closing e
    have erased (set : List Nat) (inside : ∀ e ∈ set, e ∈ w.server.connections) :
        d ∈ Server.eraseSet (w.setState c .closing).descriptor c set ↔ d ∈ set ∧ d ≠ c := by
      rw [Server.eraseSet, List.mem_filter, decide_eq_true_iff, same, same]
      refine and_congr_right fun member => ⟨fun different own => different (by rw [own]), fun other => ?_⟩
      exact registry.apart opened (inside d member) other
    have detached : (d ∈ (w.detach c).server.connections ↔ d ∈ w.server.connections ∧ d ≠ c) ∧
        (d ∈ (w.detach c).server.activity ↔ d ∈ w.server.activity ∧ d ≠ c) :=
      ⟨erased w.server.connections fun _ => id, erased w.server.activity registry.activity⟩
    obtain ⟨poll, fd, closed, _⟩ := close_world opened
    rw [closed]
    exact detached
  · have closing := not_not.mp opened
    have unconnected : c ∉ w.server.connections := fun member => by
      have connected := (registry.connected c).mpr member
      rw [closing] at connected
      cases connected
    rw [close_idle closing]
    refine ⟨(and_iff_left_of_imp ?_).symm, (and_iff_left_of_imp ?_).symm⟩
    · rintro member rfl
      exact unconnected member
    · rintro member rfl
      exact unconnected (registry.activity d member)

theorem close_room (w : World) (c : Nat) : (w.close c).world.server.poll.table.length = w.server.poll.table.length := by
  by_cases opened : (w.conn c).state ≠ .closing
  · have removed : (w.detach c).server.poll.table.length = w.server.poll.table.length :=
      (Poll.modify_length _ _ _).trans ((Poll.modify_length _ _ _).trans (Poll.modify_length _ _ _))
    obtain ⟨poll, fd, same, table, _⟩ := close_world opened
    rw [same]
    exact (congrArg List.length table).trans removed
  · rw [close_idle (not_not.mp opened)]

theorem Registry.close (registry : w.Registry) (c : Nat) : (w.close c).world.Registry := by
  by_cases opened : (w.conn c).state ≠ .closing
  swap
  · rw [close_idle (not_not.mp opened)]
    exact registry
  have confined := close_confined w c
  obtain ⟨fd, closed⟩ := close_conn w c
  have members := fun d => (registry.mem_close c d).1
  have held {d : Nat} (other : d ≠ c) : (w.close c).world.descriptor d = w.descriptor d :=
    congrArg Connection.fd (confined.others d other)
  have masks {d : Nat} (member : d ∈ w.server.connections) (other : d ≠ c) :
      (w.close c).world.server.poll.eventMask (w.descriptor d) = w.server.poll.eventMask (w.descriptor d) :=
    confined.elsewhere _ (registry.inside d member).1 (registry.apart opened member other)
  refine ⟨fun d => ?_, fun d missing => ?_, fun d active => ?_, fun d member => ?_, fun d one e another => ?_, fun d member => ?_,
    fun number valid free => ?_⟩
  · rw [members d]
    by_cases own : d = c
    · rw [own, closed]
      exact iff_of_false nofun fun both => both.2 rfl
    · rw [confined.others d own, and_iff_left own]
      exact registry.connected d
  · by_cases own : d = c
    · left
      rw [own, closed]
    · rw [confined.others d own, held own]
      exact registry.absent d fun member => missing ((members d).mpr ⟨member, own⟩)
  · obtain ⟨before, other⟩ := (registry.mem_close c d).2.mp active
    exact (members d).mpr ⟨registry.activity d before, other⟩
  · obtain ⟨before, other⟩ := (members d).mp member
    rw [held other, close_room]
    exact registry.inside d before
  · obtain ⟨one, first⟩ := (members d).mp one
    obtain ⟨another, second⟩ := (members e).mp another
    rw [held first, held second]
    exact registry.distinct d one e another
  · obtain ⟨before, other⟩ := (members d).mp member
    rw [held other, masks before other]
    exact registry.watched d before
  · by_cases own : number = w.descriptor c
    · by_cases registered : c ∈ w.server.connections
      · rw [own]
        exact (close_open opened (registry.inside c registered).1 (registry.watched c registered)).1.mask
      · have invalid := (registry.absent c registered).resolve_left opened
        omega
    · rw [confined.elsewhere number valid own]
      refine registry.unwatched number valid fun d member => ?_
      by_cases same : d = c
      · rw [same]
        exact Ne.symm own
      · rw [← held same]
        exact free d ((members d).mpr ⟨member, same⟩)

end World
end LibWebserver
