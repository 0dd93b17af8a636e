import LibWebserver.Library.Framing
import LibWebserver.Proofs.Buffer
import LibWebserver.Proofs.Deserialize
import LibWebserver.Proofs.World

/-! The receive loop takes messages off the buffer as a drained stream of frames
is defined, whatever the blocks behind the buffer are. -/

namespace LibWebserver
open CString

namespace IncomingHttpMessage

/-- A verdict on the head of a buffer; none when the parser does not return. -/
def verdict (data : Bytes) : Option (Framing.Verdict IncomingHttpMessage) :=
  (deserialize data).map fun
    | .complete message eof => .complete message eof
    | .incomplete => .incomplete
    | .thrown _ _ => .malformed

theorem verdict_complete_iff {data : Bytes} {message : IncomingHttpMessage} {eof : Nat} :
    verdict data = some (.complete message eof) ↔ deserialize data = some (.complete message eof) := by
  unfold verdict
  cases deserialize data with
  | none => simp
  | some outcome => cases outcome <;> simp

theorem verdict_incomplete_iff {data : Bytes} :
    verdict data = some .incomplete ↔ deserialize data = some .incomplete := by
  unfold verdict
  cases deserialize data with
  | none => simp
  | some outcome => cases outcome <;> simp

/-- The parser throws nothing but deserialization errors, before it reads a header. -/
theorem deserialize_thrown {data : Bytes} {error : Exception} {message : IncomingHttpMessage}
    (thrown : deserialize data = some (.thrown error message)) :
    ∃ why, error = .deserializationError why ∧ message.requestId = none := by
  obtain ⟨first, p, split, free, bad⟩ := malformed_of_thrown thrown
  obtain ⟨why, _, same, anonymous⟩ := deserialize_bad split free bad
  rw [same] at thrown
  cases thrown
  exact ⟨why, rfl, anonymous⟩

theorem verdict_malformed {data : Bytes} (bad : verdict data = some .malformed) :
    ∃ why message, deserialize data = some (.thrown (.deserializationError why) message) ∧ message.requestId = none := by
  unfold verdict at bad
  cases found : deserialize data with
  | none => simp [found] at bad
  | some outcome =>
    cases outcome with
    | complete message eof => simp [found] at bad
    | incomplete => simp [found] at bad
    | thrown error message =>
      obtain ⟨why, rfl, anonymous⟩ := deserialize_thrown found
      exact ⟨why, message, rfl, anonymous⟩

theorem deserialize_eof_lt {data : Bytes} {message : IncomingHttpMessage} {eof : Nat}
    (accepted : deserialize data = some (.complete message eof)) : eof < 2 ^ 64 := by
  obtain ⟨layout, _, _, rfl⟩ := deserialize_complete_iff.mp accepted
  exact Nat.mod_lt _ (by decide)

end IncomingHttpMessage

/-- `recv` is to be called again. -/
def RecvResult.again (result : RecvResult) : Bool := result = .failed .eagain ∨ result = .failed .eintr

namespace World
open IncomingHttpMessage

variable {w : World} {c : Nat}

theorem processStep_complete {message : IncomingHttpMessage} {eof : Nat} {buffer : CString}
    (found : deserialize (w.conn c).buffer.content = some (.complete message eof))
    (erased : (w.conn c).buffer.erase 0 eof = .ok buffer) :
    ∃ after, processStep c w = .next after ∧ after.conn c = { w.conn c with
      incoming := (w.conn c).incoming ++ [message], buffer, isPersistent := message.isPersistent } := by
  have pushed : ((w.pushIncoming c message).conn c).buffer.erase 0 eof = .ok buffer := by
    rw [pushIncoming_conn]; exact erased
  rw [processStep, found]
  dsimp only
  rw [pushed]
  refine ⟨_, rfl, ?_⟩
  rw [markActivity_conn, setPersistence_conn, setBuffer_conn, pushIncoming_conn]

theorem processStep_next {after : World} (moves : processStep c w = .next after) :
    ∃ message eof, deserialize (w.conn c).buffer.content = some (.complete message eof) ∧
      (w.conn c).buffer.erase 0 eof = .ok (after.conn c).buffer := by
  obtain ⟨message, eof, buffer, found, erased, rfl⟩ := processStep_goes moves
  refine ⟨message, eof, found, ?_⟩
  rw [markActivity_conn, modify_conn]
  exact erased

private theorem erase_none (s : CString) : ∃ buffer, s.erase 0 0 = .ok buffer ∧ buffer.content = s.content := by
  have kept : memcpy s.string 0 ((s.string.drop 0).take (s.length - 0 - 0)) = s.string := by
    rw [memcpy, List.take_zero, List.nil_append, List.drop_zero, Nat.sub_zero, Nat.sub_zero, Nat.zero_add,
      List.length_take]
    rcases Nat.le_total s.length s.string.length with le | le
    · rw [Nat.min_eq_left le, List.take_append_drop]
    · rw [Nat.min_eq_right le, List.take_of_length_le le, List.drop_length, List.append_nil]
  refine ⟨_, (if_neg (by simp [addSize])).trans (if_pos (Nat.zero_le _)), ?_⟩
  simp only [CString.content, Nat.add_zero, Nat.sub_zero] at kept ⊢
  rw [kept, List.take_set_of_le (Nat.le_refl _)]

theorem erase_length {s buffer : CString} {len : Nat} (small : len < 2 ^ 64)
    (erased : s.erase 0 len = .ok buffer) : len ≤ s.length ∧ buffer.length = s.length - len := by
  have sum : addSize 0 len = len := by rw [addSize]; omega
  rw [erase, sum] at erased
  split at erased
  next => cases erased
  next inside =>
    rw [if_pos (by omega)] at erased
    cases erased
    exact ⟨Nat.not_lt.mp inside, rfl⟩

/-- A message of no bytes is accepted over and over. -/
private def Repeats (c : Nat) (w : World) : Prop :=
  ∃ message, deserialize (w.conn c).buffer.content = some (.complete message 0)

/-- The bounded run of the loop gives every result the loop has. -/
theorem processEventRead_of_exits {result : Option Ended} (exits : Loop.Exits (processStep c) w result) :
    w.processEventRead c = result := by
  have done : Loop.run (processStep c) ((w.conn c).buffer.length + 1) w = some result := by
    apply (Loop.run_bounded (fun w => (w.conn c).buffer.length) (Repeats c) _ _).mpr exits
    · intro state after moves
      obtain ⟨message, eof, found, erased⟩ := processStep_next moves
      by_cases none : eof = 0
      · subst none
        obtain ⟨buffer, again, same⟩ := erase_none (state.conn c).buffer
        cases erased.symm.trans again
        exact .inr ⟨message, by rw [same, found]⟩
      · obtain ⟨inside, shorter⟩ := erase_length (deserialize_eof_lt found) erased
        exact .inl (by omega)
    · intro state ⟨message, found⟩
      obtain ⟨buffer, erased, same⟩ := erase_none (state.conn c).buffer
      obtain ⟨after, moves, conn⟩ := processStep_complete found erased
      refine ⟨after, moves, message, ?_⟩
      rw [conn]
      dsimp only
      rw [same, found]
  rw [processEventRead, done]
  rfl

/-- What the loop leaves of a connection: messages pushed in order, the rest of the
buffer, and the flag for bad data, whose second turn is answered. -/
structure Drained (before after : Connection) (messages : List IncomingHttpMessage) (rest : Bytes) (clean : Bool) :
    Prop where
  fd : after.fd = before.fd
  state : after.state = before.state
  incoming : after.incoming = before.incoming ++ messages
  buffer : Holds after.buffer rest
  bad : after.bufferHasBadData = !clean
  outgoing : after.outgoing = before.outgoing ++
    if !clean && before.bufferHasBadData then [OutgoingHttpMessage.badRequest.serialize] else []

private theorem badData_conn (connected : (w.conn c).state = .connected) {message : IncomingHttpMessage}
    (anonymous : message.requestId = none) :
    (w.badData c message).conn c = { w.conn c with
      bufferHasBadData := true
      outgoing := (w.conn c).outgoing ++
        if (w.conn c).bufferHasBadData then [OutgoingHttpMessage.badRequest.serialize] else [] } := by
  unfold badData
  rw [getRequestId, anonymous]
  cases flag : (w.conn c).bufferHasBadData with
  | true =>
    rw [if_pos rfl]
    dsimp only
    rw [sendMessage_conn connected, if_pos rfl, Connection.mk.injEq]
    exact ⟨rfl, rfl, rfl, rfl, rfl, rfl, flag⟩
  | false =>
    rw [if_neg (by decide), modify_conn, if_neg (by decide), List.append_nil]

/-- The loop follows the draining of its buffer. -/
theorem exits_of_drains {content rest : Bytes} {messages : List IncomingHttpMessage} {clean : Bool}
    (drains : Framing.Drains verdict content messages rest clean) (connected : (w.conn c).state = .connected)
    (holds : Holds (w.conn c).buffer content) :
    ∃ after, Loop.Exits (processStep c) w (some ⟨after, none⟩) ∧
      Drained (w.conn c) (after.conn c) messages rest clean := by
  induction drains generalizing w with
  | wait waiting =>
    have found := verdict_incomplete_iff.mp waiting
    rw [← holds.content] at found
    refine ⟨_, .of_exit (by rw [processStep, found]), ?_⟩
    rw [modify_conn]
    exact ⟨rfl, rfl, (List.append_nil _).symm, holds, rfl, (List.append_nil _).symm⟩
  | reject bad =>
    obtain ⟨why, message, found, anonymous⟩ := verdict_malformed bad
    rw [← holds.content] at found
    refine ⟨_, .of_exit (by rw [processStep, found]), ?_⟩
    rw [badData_conn connected anonymous]
    exact ⟨rfl, rfl, (List.append_nil _).symm, holds, rfl, rfl⟩
  | take found inside more ih =>
    have accepted := verdict_complete_iff.mp found
    rw [← holds.content] at accepted
    obtain ⟨buffer, erased, kept⟩ := holds_erase holds inside
    obtain ⟨next, moves, conn⟩ := processStep_complete accepted erased
    obtain ⟨after, exits, drained⟩ := @ih next (by rw [conn]; exact connected) (by rw [conn]; exact kept)
    refine ⟨after, exits.of_next moves, ?_⟩
    obtain ⟨fd, state, incoming, buffer, bad, outgoing⟩ := drained
    rw [conn] at fd state incoming outgoing
    refine ⟨fd, state, ?_, buffer, bad, outgoing⟩
    rw [incoming, List.append_assoc, List.singleton_append]

/-- A read of a connected connection appends what was received, and the loop runs. -/
theorem eventRead_received {content bytes : Bytes} (holds : Holds (w.conn c).buffer content)
    (connected : (w.conn c).state = .connected) (nonempty : bytes ≠ []) (short : bytes.length ≤ bufferLength)
    (fits : content.length + 1501 < 2 ^ 64) :
    ∃ buffer, w.eventRead c (.received bytes) = (w.setBuffer c buffer).processEventRead c ∧
      Holds buffer (content ++ bytes) := by
  obtain ⟨reserved, space⟩ := holds_reserveBuffer holds fits
  obtain ⟨buffer, adjusted, kept⟩ := holds_read reserved (Nat.le_trans short space)
  have stored : readStream bufferLength (.received bytes) = .ok bytes.length := by
    obtain ⟨c, bytes, rfl⟩ := List.exists_cons_of_ne_nil nonempty
    rfl
  have some : bytes.length ≠ 0 := fun none => nonempty (List.length_eq_zero_iff.mp none)
  refine ⟨buffer, ?_, kept⟩
  rw [eventRead, if_neg (not_not_intro connected)]
  dsimp only
  rw [stored]
  dsimp only
  rw [adjusted]
  dsimp only
  rw [if_neg some, setBuffer_setBuffer]

theorem eventRead_drains {content bytes rest : Bytes} {messages : List IncomingHttpMessage} {clean : Bool}
    (connected : (w.conn c).state = .connected) (holds : Holds (w.conn c).buffer content) (nonempty : bytes ≠ [])
    (short : bytes.length ≤ bufferLength) (fits : content.length + 1501 < 2 ^ 64)
    (drains : Framing.Drains verdict (content ++ bytes) messages rest clean) :
    ∃ after, w.eventRead c (.received bytes) = some ⟨after, none⟩ ∧
      Drained (w.conn c) (after.conn c) messages rest clean := by
  obtain ⟨buffer, read, kept⟩ := eventRead_received holds connected nonempty short fits
  obtain ⟨after, exits, drained⟩ := @exits_of_drains (w.setBuffer c buffer) c _ _ _ _ drains
    (by rw [setBuffer_conn]; exact connected) (by rw [setBuffer_conn]; exact kept)
  rw [setBuffer_conn] at drained
  refine ⟨after, ?_, drained.fd, drained.state, drained.incoming, drained.buffer, drained.bad, drained.outgoing⟩
  rw [read]
  exact processEventRead_of_exits exits

theorem eventRead_again {content : Bytes} (connected : (w.conn c).state = .connected)
    (holds : Holds (w.conn c).buffer content) (fits : content.length + 1501 < 2 ^ 64) {result : RecvResult}
    (again : result.again) :
    ∃ after buffer, w.eventRead c result = some ⟨after, none⟩ ∧ after.conn c = { w.conn c with buffer } ∧
      Holds buffer [] := by
  have nothing : readStream bufferLength result = .ok 0 ∧ ∀ buffer, storeRead buffer result = buffer := by
    obtain rfl | rfl := of_decide_eq_true again <;> exact ⟨rfl, fun _ => rfl⟩
  obtain ⟨reserved, _⟩ := holds_reserveBuffer holds fits
  have kept : (reserveBuffer (w.conn c).buffer).adjustLength 0 = .ok (reserveBuffer (w.conn c).buffer) := rfl
  refine ⟨(w.setBuffer c (reserveBuffer (w.conn c).buffer)).setBuffer c (reserveBuffer (w.conn c).buffer).clear, _, ?_,
    ?_, holds_clear reserved⟩
  · rw [eventRead, if_neg (not_not_intro connected), nothing.2]
    dsimp only
    rw [nothing.1]
    rfl
  · rw [setBuffer_conn, setBuffer_conn]

theorem readStream_failed {errno : Errno} (lost : ¬ RecvResult.again (.failed errno)) :
    ∃ error, readStream bufferLength (.failed errno) = .error error := by
  cases errno with
  | eagain => exact absurd rfl lost
  | eintr => exact absurd rfl lost
  | _ => exact ⟨_, rfl⟩

end World
end LibWebserver
