import LibWebserver.Operation
import LibWebserver.Proofs.World

/-! What an operation on one connection can do to the registry, the poll and the
other connections. -/

namespace LibWebserver

namespace Poll

variable {self : Poll} {fd other : Int}

/-- The bits of the three events. -/
def Watched (mask : UInt32) : Prop := mask &&& ~~~(EPOLLIN ||| EPOLLOUT ||| EPOLLERR) = 0

instance (mask : UInt32) : Decidable (Watched mask) := inferInstanceAs (Decidable (_ = _))

theorem eventMask_modify_ne (valid : 0 ≤ other) (different : other ≠ fd) (mask : UInt32) :
    (self.modify fd mask).eventMask other = self.eventMask other := by
  unfold modify setEventMask
  split
  · rfl
  · split
    next inside =>
      have index : fd.toNat ≠ other.toNat := by omega
      simp only [eventMask, valid, if_true, List.getD_eq_getElem?_getD, List.getElem?_set_ne index]
    next => rfl

theorem eventMask_modify (mask : UInt32) :
    (self.modify fd mask).eventMask fd = mask ∨
      (self.modify fd mask).eventMask fd = 0 ∧ self.eventMask fd = 0 := by
  unfold modify
  split
  next same => exact .inl same
  next =>
    unfold setEventMask eventMask
    split
    next valid =>
      simp only [List.getD_eq_getElem?_getD]
      rcases Nat.lt_or_ge fd.toNat self.table.length with inside | outside
      · left
        rw [List.getElem?_set_self inside]
        rfl
      · right
        rw [List.getElem?_eq_none (by rw [List.length_set]; exact outside), List.getElem?_eq_none outside]
        exact ⟨rfl, rfl⟩
    next => exact .inr ⟨rfl, rfl⟩

theorem eventMask_remove (bit : UInt32) : (self.remove fd bit).eventMask fd = self.eventMask fd &&& ~~~bit := by
  unfold remove
  rcases @eventMask_modify self fd (self.eventMask fd &&& ~~~bit) with same | ⟨none, was⟩
  · exact same
  · rw [none, was, UInt32.zero_and]

theorem watched_insert {bit : UInt32} (watched : Watched (self.eventMask fd)) (event : Watched bit) :
    Watched ((self.insert fd bit).eventMask fd) := by
  unfold insert
  rcases @eventMask_modify self fd (self.eventMask fd ||| bit) with same | ⟨none, _⟩
  · rw [same]
    unfold Watched at *
    have split : (self.eventMask fd ||| bit) &&& ~~~(EPOLLIN ||| EPOLLOUT ||| EPOLLERR) =
        self.eventMask fd &&& ~~~(EPOLLIN ||| EPOLLOUT ||| EPOLLERR) |||
          bit &&& ~~~(EPOLLIN ||| EPOLLOUT ||| EPOLLERR) :=
      UInt32.toBitVec_inj.mp BitVec.and_or_distrib_right
    rw [split, watched, event]
    rfl
  · rw [none]
    exact UInt32.zero_and

theorem watched_remove (watched : Watched (self.eventMask fd)) (bit : UInt32) :
    Watched ((self.remove fd bit).eventMask fd) := by
  rw [eventMask_remove]
  unfold Watched at *
  rw [UInt32.and_assoc, UInt32.and_comm (~~~bit), ← UInt32.and_assoc, watched, UInt32.zero_and]

theorem eventMask_removed (watched : Watched (self.eventMask fd)) :
    (((self.removeRead fd).removeWrite fd).removeError fd).eventMask fd = 0 := by
  unfold removeError removeWrite removeRead
  rw [eventMask_remove, eventMask_remove, eventMask_remove, UInt32.and_assoc, UInt32.and_assoc]
  exact watched

theorem eventMask_removed_ne (valid : 0 ≤ other) (different : other ≠ fd) :
    (((self.removeRead fd).removeWrite fd).removeError fd).eventMask other = self.eventMask other := by
  unfold removeError removeWrite removeRead remove
  rw [eventMask_modify_ne valid different, eventMask_modify_ne valid different, eventMask_modify_ne valid different]

theorem closeEvent_table {poll : Poll} {event : Nat} (closed : self.closeEvent event fd = .ok poll) :
    poll.table = self.table := by
  unfold closeEvent at closed
  split at closed
  · cases closed
  · cases closed
    rfl

theorem eventMask_table {poll : Poll} (table : poll.table = self.table) (fd : Int) : poll.eventMask fd = self.eventMask fd := by
  unfold eventMask
  rw [table]

theorem closeEvent_ok {poll : Poll} {event : Nat} (closed : self.closeEvent event fd = .ok poll) (fd : Int) :
    poll.eventMask fd = self.eventMask fd := eventMask_table (closeEvent_table closed) fd

end Poll

namespace Server

variable {descriptor : Nat → Int} {c : Nat}

theorem eraseSet_subset (set : List Nat) : eraseSet descriptor c set ⊆ set := List.filter_subset_self _

theorem not_mem_eraseSet (set : List Nat) : c ∉ eraseSet descriptor c set := by
  simp [eraseSet]

theorem mem_insertSet {set : List Nat} {d : Nat} (member : d ∈ insertSet descriptor c set) : d ∈ set ∨ d = c := by
  unfold insertSet at member
  split at member
  · exact .inl member
  · exact ((List.mem_orderedInsert _).mp member).symm

end Server

namespace World

variable {w middle after : World} {c : Nat}

/-- A step of one connection that keeps its descriptor and state. -/
structure Steady (c : Nat) (w after : World) : Prop where
  others : ∀ d, d ≠ c → after.conn d = w.conn d
  fd : (after.conn c).fd = (w.conn c).fd
  state : (after.conn c).state = (w.conn c).state
  connections : after.server.connections = w.server.connections
  activity : ∀ d ∈ after.server.activity, d ∈ w.server.activity ∨ d = c
  elsewhere : ∀ fd, 0 ≤ fd → fd ≠ (w.conn c).fd → after.server.poll.eventMask fd = w.server.poll.eventMask fd
  here : Poll.Watched (w.server.poll.eventMask (w.conn c).fd) →
    Poll.Watched (after.server.poll.eventMask (w.conn c).fd)

theorem Steady.refl (c : Nat) (w : World) : Steady c w w :=
  ⟨fun _ _ => rfl, rfl, rfl, rfl, fun _ => .inl, fun _ _ _ => rfl, id⟩

theorem Steady.trans (first : Steady c w middle) (last : Steady c middle after) : Steady c w after where
  others d other := (last.others d other).trans (first.others d other)
  fd := last.fd.trans first.fd
  state := last.state.trans first.state
  connections := last.connections.trans first.connections
  activity d member := (last.activity d member).elim (first.activity d) .inr
  elsewhere fd valid other :=
    (last.elsewhere fd valid (by rw [first.fd]; exact other)).trans (first.elsewhere fd valid other)
  here watched := by
    have next := last.here
    rw [first.fd] at next
    exact next (first.here watched)

theorem steady_modify {f : Connection → Connection} (fd : (f (w.conn c)).fd = (w.conn c).fd)
    (state : (f (w.conn c)).state = (w.conn c).state) : Steady c w (w.modify c f) where
  others d other := modify_conn_ne other
  fd := by rw [modify_conn, fd]
  state := by rw [modify_conn, state]
  connections := rfl
  activity _ := .inl
  elsewhere _ _ _ := rfl
  here := id

theorem steady_insertWrite (w : World) (c : Nat) : Steady c w (w.poll (·.insertWrite (w.descriptor c))) where
  others _ _ := rfl
  fd := rfl
  state := rfl
  connections := rfl
  activity _ := .inl
  elsewhere _ valid other := Poll.eventMask_modify_ne valid other _
  here watched := Poll.watched_insert watched (by decide)

theorem steady_removeWrite (w : World) (c : Nat) : Steady c w (w.poll (·.removeWrite (w.descriptor c))) where
  others _ _ := rfl
  fd := rfl
  state := rfl
  connections := rfl
  activity _ := .inl
  elsewhere _ valid other := Poll.eventMask_modify_ne valid other _
  here watched := Poll.watched_remove watched _

theorem steady_markActivity (w : World) (c : Nat) : Steady c w (w.markActivity c) where
  others _ _ := rfl
  fd := rfl
  state := rfl
  connections := by unfold markActivity Server.activityOn; dsimp only; split <;> rfl
  activity d member := by
    unfold markActivity Server.activityOn at member
    dsimp only at member
    split at member
    · exact .inl member
    · exact Server.mem_insertSet member
  elsewhere _ _ _ := by unfold markActivity Server.activityOn; dsimp only; split <;> rfl
  here watched := by unfold markActivity Server.activityOn; dsimp only; split <;> exact watched

/-- What an operation on a connection can do at all. -/
structure Confined (c : Nat) (w after : World) : Prop where
  others : ∀ d, d ≠ c → after.conn d = w.conn d
  fd : (after.conn c).fd = (w.conn c).fd ∨ (after.conn c).fd = -1
  connections : ∀ d ∈ after.server.connections, d ∈ w.server.connections
  activity : ∀ d ∈ after.server.activity, d ∈ w.server.activity ∨ d = c
  elsewhere : ∀ fd, 0 ≤ fd → fd ≠ (w.conn c).fd → after.server.poll.eventMask fd = w.server.poll.eventMask fd

theorem Steady.confined (steady : Steady c w after) : Confined c w after :=
  ⟨steady.others, .inl steady.fd, fun _ member => steady.connections ▸ member, steady.activity, steady.elsewhere⟩

theorem Steady.then_confined (steady : Steady c w middle) (confined : Confined c middle after) : Confined c w after where
  others d other := (confined.others d other).trans (steady.others d other)
  fd := by rw [← steady.fd]; exact confined.fd
  connections d member := steady.connections ▸ confined.connections d member
  activity d member := (confined.activity d member).elim (steady.activity d) .inr
  elsewhere fd valid other :=
    (confined.elsewhere fd valid (by rw [steady.fd]; exact other)).trans (steady.elsewhere fd valid other)

/-- A connection that is closed: nothing refers to it any more. -/
structure Closed (c : Nat) (fd : Int) (w : World) : Prop where
  state : (w.conn c).state = .closing
  released : (w.conn c).fd = -1
  connections : c ∉ w.server.connections
  activity : c ∉ w.server.activity
  mask : w.server.poll.eventMask fd = 0

theorem close_idle (closing : (w.conn c).state = .closing) : w.close c = ⟨w, none⟩ := if_pos closing

/-- Halfway through closing: out of both sets, and no event is waited for. -/
def detach (w : World) (c : Nat) : World :=
  ((w.setState c .closing).deleteConnection c).poll fun poll =>
    ((poll.removeRead (w.descriptor c)).removeWrite (w.descriptor c)).removeError (w.descriptor c)

theorem detach_conn (w : World) (c : Nat) : (w.detach c).conn c = { w.conn c with state := .closing } := by
  rw [detach, poll_conn, deleteConnection_conn, setState_conn]

theorem confined_detach (w : World) (c : Nat) : Confined c w (w.detach c) where
  others d other := by rw [detach, poll_conn, deleteConnection_conn, setState, modify_conn_ne other]
  fd := by rw [detach_conn]; exact .inl rfl
  connections _ member := Server.eraseSet_subset _ member
  activity _ member := .inl (Server.eraseSet_subset _ member)
  elsewhere _ valid other := Poll.eventMask_removed_ne valid other

theorem close_eq (opened : (w.conn c).state ≠ .closing) :
    w.close c = match (w.detach c).server.poll.closeEvent c (w.descriptor c) with
      | .error error => ⟨w.detach c, some error⟩
      | .ok poll => ⟨if 0 ≤ w.descriptor c then ((w.detach c).poll fun _ => poll).modify c ({ · with fd := -1 })
          else (w.detach c).poll fun _ => poll, none⟩ := by
  have descriptor : ((w.setState c .closing).deleteConnection c).descriptor c = w.descriptor c := by
    rw [World.descriptor, deleteConnection_conn, setState_conn]
    rfl
  rw [close, if_neg opened]
  dsimp only
  rw [descriptor]
  rfl

/-- Behind the removals the poll may throw; otherwise a valid descriptor is given up. -/
theorem close_world (opened : (w.conn c).state ≠ .closing) :
    ∃ poll fd, (w.close c).world = ((w.detach c).poll fun _ => poll).modify c ({ · with fd }) ∧
      poll.table = (w.detach c).server.poll.table ∧ (fd = (w.conn c).fd ∨ fd = -1) := by
  have stays (poll : Poll) : ((w.detach c).poll fun _ => poll).modify c ({ · with fd := (w.conn c).fd }) =
      (w.detach c).poll fun _ => poll := modify_self (by rw [poll_conn, detach_conn])
  rw [close_eq opened]
  cases closed : (w.detach c).server.poll.closeEvent c (w.descriptor c) with
  | error error => exact ⟨_, _, (stays _).symm, rfl, .inl rfl⟩
  | ok poll =>
    dsimp only
    split
    · exact ⟨poll, -1, rfl, Poll.closeEvent_table closed, .inr rfl⟩
    · exact ⟨poll, _, (stays poll).symm, Poll.closeEvent_table closed, .inl rfl⟩

theorem close_conn (w : World) (c : Nat) : ∃ fd, (w.close c).world.conn c = { w.conn c with fd, state := .closing } := by
  by_cases opened : (w.conn c).state ≠ .closing
  · obtain ⟨poll, fd, same, _⟩ := close_world opened
    exact ⟨fd, by rw [same, modify_conn, poll_conn, detach_conn]⟩
  · have closing := not_not.mp opened
    rw [close_idle closing]
    exact ⟨(w.conn c).fd, by rw [← closing]⟩

theorem close_confined (w : World) (c : Nat) : Confined c w (w.close c).world := by
  by_cases opened : (w.conn c).state ≠ .closing
  · have detached := confined_detach w c
    obtain ⟨poll, fd, same, table, held⟩ := close_world opened
    rw [same]
    refine ⟨fun d other => ?_, ?_, detached.connections, detached.activity, fun number valid other => ?_⟩
    · rw [modify_conn_ne other, poll_conn]
      exact detached.others d other
    · rw [modify_conn]
      exact held
    · exact (Poll.eventMask_table table number).trans (detached.elsewhere number valid other)
  · rw [close_idle (not_not.mp opened)]
    exact (Steady.refl c w).confined

theorem close_open (opened : (w.conn c).state ≠ .closing) (valid : 0 ≤ (w.conn c).fd)
    (watched : Poll.Watched (w.server.poll.eventMask (w.conn c).fd)) :
    Closed c (w.conn c).fd (w.close c).world ∧ ((w.close c).world.conn c).outgoing = (w.conn c).outgoing := by
  have emptied : (w.detach c).server.poll.eventMask (w.descriptor c) = 0 := Poll.eventMask_removed watched
  obtain ⟨poll, closed⟩ : ∃ poll, (w.detach c).server.poll.closeEvent c (w.descriptor c) = .ok poll :=
    ⟨_, if_neg (not_not_intro emptied)⟩
  have masks := Poll.closeEvent_ok closed
  rw [close_eq opened, closed]
  dsimp only
  rw [if_pos (show 0 ≤ w.descriptor c from valid)]
  refine ⟨⟨?_, ?_, ?_, ?_, ?_⟩, ?_⟩
  · rw [modify_conn, poll_conn, detach_conn]
  · rw [modify_conn]
  · exact Server.not_mem_eraseSet _
  · exact Server.not_mem_eraseSet _
  · exact (masks _).trans emptied
  · rw [modify_conn, poll_conn, detach_conn]

end World
end LibWebserver
