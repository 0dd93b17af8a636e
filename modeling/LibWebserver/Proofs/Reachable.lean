import LibWebserver.Proofs.Fragmentation
import LibWebserver.Proofs.Lifecycle

/-! The states a connection can come to, and that its buffer is valid in all of
them: a read always goes inside the block. -/

namespace LibWebserver
open CString IncomingHttpMessage

/-- `recv` stores no more than it was given room for. -/
def Operation.Sound : Operation → Prop
  | .eventRead (.received bytes) => bytes.length ≤ bufferLength
  | _ => True

/-- What operations make of a connection that was created and initialised, as long as
the bytes it holds leave room in the address space. -/
inductive Reachable (c : Nat) : World → Prop where
  | start {w start : World} {fd : Int} (fresh : w.conn c = Connection.create fd) (opened : w.initialise c = ⟨start, none⟩) :
      Reachable c start
  | step {w : World} (before : Reachable c w) (room : (w.conn c).buffer.content.length + 1501 < 2 ^ 64) (d : Nat)
      (operation : Operation) (sound : operation.Sound) (returned : (w.perform d operation).returned) :
      Reachable c (w.perform d operation).world

namespace World

variable {w : World} {c : Nat}

theorem sendMessage_buffer (w : World) (c : Nat) (message : OutgoingHttpMessage) :
    ((w.sendMessage c message).conn c).buffer = (w.conn c).buffer := by
  by_cases connected : (w.conn c).state = .connected
  · rw [sendMessage_conn connected]
  · rw [sendMessage_idle connected]

theorem close_buffer (w : World) (c : Nat) : ((w.close c).world.conn c).buffer = (w.conn c).buffer := by
  obtain ⟨fd, closed⟩ := close_conn w c
  rw [closed]

theorem eventWrite_buffer (w : World) (c : Nat) (answers : List SendResult) :
    ((w.eventWrite c answers).world.conn c).buffer = (w.conn c).buffer := by
  rcases eventWrite_cases w c answers with ⟨_, same⟩ | ⟨_, ⟨_, same⟩ | same | closed⟩
  · rw [same]
  · rw [same, poll_conn]
  · rw [same, modify_conn]
  · rw [closed, close_buffer, modify_conn]

theorem badData_buffer (w : World) (c : Nat) (message : IncomingHttpMessage) :
    ((w.badData c message).conn c).buffer = (w.conn c).buffer := by
  rcases badData_cases w c message with same | ⟨response, same⟩
  · rw [same, modify_conn]
  · rw [same, sendMessage_buffer]

theorem processStep_valid {after : World} (valid : (w.conn c).buffer.Valid) (moves : processStep c w = .next after) :
    (after.conn c).buffer.Valid := by
  obtain ⟨message, eof, found, erased⟩ := processStep_next moves
  obtain ⟨inside, _⟩ := erase_length (deserialize_eof_lt found) erased
  rw [← valid.content_length] at inside
  obtain ⟨buffer, again, kept⟩ := holds_erase valid.holds inside
  cases erased.symm.trans again
  exact kept.valid

theorem processStep_exit {ended : Ended} (exits : processStep c w = .exit (some ended)) :
    (ended.world.conn c).buffer = (w.conn c).buffer := by
  rcases processStep_ends exits with rfl | ⟨message, rfl⟩ | ⟨_, rfl⟩ | ⟨message, _, rfl⟩
  · rw [modify_conn]
  · exact badData_buffer w c message
  · rfl
  · rw [pushIncoming_conn]

theorem processEventRead_valid {ended : Ended} (valid : (w.conn c).buffer.Valid)
    (done : w.processEventRead c = some ended) : (ended.world.conn c).buffer.Valid := by
  apply Loop.run_invariant (fun state => (state.conn c).buffer.Valid)
    (fun result => ∀ ended, result = some ended → (ended.world.conn c).buffer.Valid)
    (fun _ _ valid moves => processStep_valid valid moves) ?_ valid (Option.join_eq_some_iff.mp done) ended rfl
  intro state result valid exits ended same
  rw [processStep_exit (same ▸ exits)]
  exact valid

theorem eventRead_valid {result : RecvResult} {ended : Ended} (valid : (w.conn c).buffer.Valid)
    (room : (w.conn c).buffer.content.length + 1501 < 2 ^ 64) (sound : (Operation.eventRead result).Sound)
    (done : w.eventRead c result = some ended) : (ended.world.conn c).buffer.Valid := by
  by_cases idle : (w.conn c).state ≠ .connected
  · rw [eventRead, if_pos idle] at done
    cases done
    exact valid
  have connected := not_not.mp idle
  obtain ⟨reserved, _⟩ := holds_reserveBuffer valid.holds room
  have lost {error : Exception} (failed : readStream bufferLength result = .error error)
      (kept : storeRead (reserveBuffer (w.conn c).buffer) result = reserveBuffer (w.conn c).buffer) :
      (ended.world.conn c).buffer.Valid := by
    rw [eventRead, if_neg idle, failed, kept] at done
    cases done
    rw [close_buffer, setBuffer_conn]
    exact reserved.valid
  cases result with
  | received bytes =>
    cases bytes with
    | nil => exact lost rfl (by simp [storeRead, memcpy])
    | cons c bytes =>
      obtain ⟨buffer, read, kept⟩ := eventRead_received valid.holds connected (List.cons_ne_nil c bytes) sound room
      rw [read] at done
      exact processEventRead_valid (by rw [setBuffer_conn]; exact kept.valid) done
  | failed errno =>
    by_cases again : RecvResult.again (.failed errno)
    · obtain ⟨after, buffer, read, conn, cleared⟩ := eventRead_again connected valid.holds room again
      cases read.symm.trans done
      rw [conn]
      exact cleared.valid
    · obtain ⟨error, failed⟩ := readStream_failed again
      exact lost failed rfl

theorem perform_valid (valid : (w.conn c).buffer.Valid) (room : (w.conn c).buffer.content.length + 1501 < 2 ^ 64)
    (d : Nat) {operation : Operation} (sound : operation.Sound) :
    ((w.perform d operation).world.conn c).buffer.Valid := by
  by_cases other : d ≠ c
  · rw [(perform_confined w d operation).others c other.symm]
    exact valid
  obtain rfl : d = c := not_not.mp other
  cases operation with
  | eventRead result =>
    unfold perform
    dsimp only
    cases done : w.eventRead d result with
    | none => exact valid
    | some ended => exact eventRead_valid valid room sound done
  | eventWrite answers =>
    unfold perform
    dsimp only
    rw [eventWrite_buffer]
    exact valid
  | eventError =>
    unfold perform eventError
    dsimp only
    split
    · exact valid
    · rw [close_buffer]; exact valid
  | sendMessage message =>
    rw [perform, sendMessage_buffer]
    exact valid
  | getMessages messages =>
    unfold perform getMessages
    dsimp only
    split
    · exact valid
    · rw [modify_conn]; exact valid
  | close =>
    rw [perform, close_buffer]
    exact valid

/-- In every state a connection can come to, its buffer is valid. -/
theorem reachable_valid (reachable : Reachable c w) : (w.conn c).buffer.Valid := by
  induction reachable with
  | start fresh opened => exact (initialise_holds fresh opened).valid
  | step _ room d operation sound _ ih => exact perform_valid ih room d sound

end World
end LibWebserver
