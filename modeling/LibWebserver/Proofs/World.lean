import LibWebserver.Connection

/-! What each small step on a world leaves alone, and what the operations come to. -/

namespace LibWebserver.World

/-- A server with a new connection on every descriptor and room for sixteen of them. -/
def vacant : World where
  conn c := .create c
  server := { connections := [], activity := [], poll := { table := List.replicate 16 0, events := [] } }

variable {w : World} {c d : Nat} {f : Connection → Connection}

@[simp] theorem modify_conn (w : World) (c : Nat) (f : Connection → Connection) :
    (w.modify c f).conn c = f (w.conn c) := Function.update_self _ _ _

theorem modify_conn_ne (other : d ≠ c) : (w.modify c f).conn d = w.conn d := Function.update_of_ne other _ _

theorem modify_self (same : f (w.conn c) = w.conn c) : w.modify c f = w := by
  unfold modify
  rw [same, Function.update_eq_self]

theorem modify_modify (w : World) (c : Nat) (f g : Connection → Connection) :
    (w.modify c f).modify c g = w.modify c (g ∘ f) := by
  unfold modify
  dsimp only
  rw [Function.update_self, Function.update_idem]
  rfl

@[simp] theorem poll_conn (w : World) (f : Poll → Poll) : (w.poll f).conn = w.conn := rfl

@[simp] theorem deleteConnection_conn (w : World) (c : Nat) : (w.deleteConnection c).conn = w.conn := rfl

@[simp] theorem markActivity_conn (w : World) (c : Nat) : (w.markActivity c).conn = w.conn := rfl

@[simp] theorem setState_conn (w : World) (c : Nat) (state : State) :
    (w.setState c state).conn c = { w.conn c with state } := modify_conn w c _

theorem setState_descriptor (w : World) (c : Nat) (state : State) (d : Nat) :
    (w.setState c state).descriptor d = w.descriptor d := by
  by_cases own : d = c
  · rw [own, descriptor, setState_conn]
    rfl
  · exact congrArg Connection.fd (modify_conn_ne own)

@[simp] theorem pushIncoming_conn (w : World) (c : Nat) (message : IncomingHttpMessage) :
    (w.pushIncoming c message).conn c = { w.conn c with incoming := (w.conn c).incoming ++ [message] } :=
  modify_conn w c _

@[simp] theorem setPersistence_conn (w : World) (c : Nat) (isPersistent : Bool) :
    (w.setPersistence c isPersistent).conn c = { w.conn c with isPersistent } := modify_conn w c _

@[simp] theorem setBuffer_conn (w : World) (c : Nat) (buffer : CString) :
    (w.setBuffer c buffer).conn c = { w.conn c with buffer } := modify_conn w c _

theorem setBuffer_setBuffer (w : World) (c : Nat) (buffer other : CString) :
    (w.setBuffer c buffer).setBuffer c other = w.setBuffer c other := by
  unfold setBuffer
  unfold modify
  simp

theorem sendMessage_conn (connected : (w.conn c).state = .connected) (message : OutgoingHttpMessage) :
    (w.sendMessage c message).conn c =
      { w.conn c with outgoing := (w.conn c).outgoing ++ [message.serialize] } := by
  rw [sendMessage, if_neg (not_not_intro connected), poll_conn, modify_conn]

theorem sendMessage_idle (idle : (w.conn c).state ≠ .connected) (message : OutgoingHttpMessage) :
    w.sendMessage c message = w := if_pos idle

variable {after : World} {ended : Ended}

/-- A pass of the receive loop goes on behind a complete message. -/
theorem processStep_goes (moves : processStep c w = .next after) :
    ∃ message eof buffer, IncomingHttpMessage.deserialize (w.conn c).buffer.content = some (.complete message eof) ∧
      (w.conn c).buffer.erase 0 eof = .ok buffer ∧
      after = (w.modify c fun conn => { conn with
        incoming := conn.incoming ++ [message], buffer, isPersistent := message.isPersistent }).markActivity c := by
  unfold processStep at moves
  split at moves
  next => cases moves
  next => cases moves
  next => cases moves
  next => cases moves
  next message eof found =>
    dsimp only at moves
    rw [pushIncoming_conn] at moves
    split at moves
    · cases moves
    next buffer erased =>
      cases moves
      refine ⟨message, eof, buffer, found, erased, ?_⟩
      rw [setPersistence, setBuffer, pushIncoming, modify_modify, modify_modify]
      rfl

theorem processStep_ends (exits : processStep c w = .exit (some ended)) :
    ended = ⟨w.modify c ({ · with bufferHasBadData := false }), none⟩ ∨ (∃ message, ended = ⟨w.badData c message, none⟩) ∨
      (∃ error, ended = ⟨w, some error⟩) ∨ ∃ message error, ended = ⟨w.pushIncoming c message, some error⟩ := by
  unfold processStep at exits
  split at exits
  next => cases exits
  next =>
    cases exits
    exact .inl rfl
  next _ message _ =>
    cases exits
    exact .inr (.inl ⟨message, rfl⟩)
  next error _ _ _ =>
    cases exits
    exact .inr (.inr (.inl ⟨error, rfl⟩))
  next message _ _ =>
    dsimp only at exits
    split at exits
    next error _ =>
      cases exits
      exact .inr (.inr (.inr ⟨message, error, rfl⟩))
    · cases exits

theorem badData_cases (w : World) (c : Nat) (message : IncomingHttpMessage) :
    w.badData c message = w.modify c ({ · with bufferHasBadData := true }) ∨
      ∃ response, w.badData c message = w.sendMessage c response := by
  unfold badData
  split
  · split <;> exact .inr ⟨_, rfl⟩
  · exact .inl rfl

/-- A read fills the buffer; then it closes the connection, ends, or goes through the buffer. -/
theorem eventRead_cases {result : RecvResult} (done : w.eventRead c result = some ended) :
    (w.conn c).state ≠ .connected ∧ ended = ⟨w, none⟩ ∨
      (w.conn c).state = .connected ∧ ∃ buffer, ended = (w.setBuffer c buffer).close c ∨
        (∃ thrown, ended = ⟨w.setBuffer c buffer, thrown⟩) ∨ (w.setBuffer c buffer).processEventRead c = some ended := by
  unfold eventRead at done
  split at done
  next idle =>
    cases done
    exact .inl ⟨idle, rfl⟩
  next connected =>
    refine .inr ⟨not_not.mp connected, ?_⟩
    dsimp only at done
    split at done
    next =>
      cases done
      exact ⟨_, .inl rfl⟩
    next len _ =>
      split at done
      next error _ =>
        cases done
        exact ⟨_, .inr (.inl ⟨some error, rfl⟩)⟩
      next =>
        rw [setBuffer_setBuffer, setBuffer_setBuffer] at done
        split at done
        · cases done
          exact ⟨_, .inr (.inl ⟨none, rfl⟩)⟩
        · exact ⟨_, .inr (.inr done)⟩

theorem writeMessages_world (w : World) (c position : Nat) (messages : List OutgoingHttpMessage)
    (answers : List SendResult) :
    (writeMessages c position messages answers w).world = w ∨
      (writeMessages c position messages answers w).world = (w.close c).world := by
  induction messages generalizing position answers with
  | nil => exact .inl rfl
  | cons message messages ih =>
    rw [writeMessages]
    split
    · exact .inl rfl
    · dsimp only
      split
      · exact .inl rfl
      · exact .inr rfl
      · split
        · exact ih _ _
        · exact .inr rfl

theorem eventWrite_cases (w : World) (c : Nat) (answers : List SendResult) :
    (w.conn c).state ≠ .connected ∧ (w.eventWrite c answers).world = w ∨
      (w.conn c).state = .connected ∧
        ((w.conn c).outgoing = [] ∧ (w.eventWrite c answers).world = w.poll (·.removeWrite (w.descriptor c)) ∨
          (w.eventWrite c answers).world = w.modify c ({ · with outgoing := [] }) ∨
          (w.eventWrite c answers).world = ((w.modify c ({ · with outgoing := [] })).close c).world) := by
  unfold eventWrite
  split
  next idle => exact .inl ⟨idle, rfl⟩
  next connected =>
    refine .inr ⟨not_not.mp connected, ?_⟩
    split
    next empty => exact .inl ⟨empty, rfl⟩
    next => exact .inr (writeMessages_world _ c 0 _ answers)

end LibWebserver.World
