import LibWebserver.Proofs.Reachable

/-! A read that is to be tried again clears the buffer. It loses nothing exactly
when the buffer is empty, and reads that meet an empty buffer do not show. -/

namespace LibWebserver
open CString IncomingHttpMessage

/-- The bytes held, the queues and the state. -/
structure Unchanged (before after : Connection) : Prop where
  content : after.buffer.content = before.buffer.content
  incoming : after.incoming = before.incoming
  outgoing : after.outgoing = before.outgoing
  state : after.state = before.state

/-- Two connections that differ only in the blocks behind their buffers. -/
structure Alike (left right : Connection) : Prop where
  same : right = { left with buffer := right.buffer }
  valid : left.buffer.Valid
  holds : Holds right.buffer left.buffer.content

namespace Alike

variable {left right : Connection}

theorem state (alike : Alike left right) : right.state = left.state := by rw [alike.same]

/-- A change to the rest of a connection that does not look at the buffer. -/
theorem map (alike : Alike left right) (f : Connection → Connection)
    (frame : ∀ conn buffer, f { conn with buffer } = { f conn with buffer }) : Alike (f left) (f right) := by
  have kept (conn : Connection) : (f conn).buffer = conn.buffer := by
    have same := congrArg Connection.buffer (frame conn conn.buffer)
    exact same
  refine ⟨?_, ?_, ?_⟩
  · rw [kept right, ← frame, ← alike.same]
  · rw [kept left]; exact alike.valid
  · rw [kept left, kept right]; exact alike.holds

end Alike

namespace World

variable {w v : World} {c : Nat}

theorem eventRead_again_iff {content : Bytes} (connected : (w.conn c).state = .connected)
    (holds : Holds (w.conn c).buffer content) (fits : content.length + 1501 < 2 ^ 64) {result : RecvResult}
    (again : result.again) :
    ∃ after, w.eventRead c result = some ⟨after, none⟩ ∧ (Unchanged (w.conn c) (after.conn c) ↔ content = []) := by
  obtain ⟨after, buffer, read, conn, cleared⟩ := eventRead_again connected holds fits again
  refine ⟨after, read, ?_⟩
  rw [conn]
  constructor
  · intro unchanged
    rw [← holds.content, ← unchanged.content]
    exact cleared.content
  · intro empty
    refine ⟨?_, rfl, rfl, rfl⟩
    dsimp only
    rw [cleared.content, holds.content, empty]

/-- Operations that ended in the same way, with connections alike. -/
def EndedAlike (c : Nat) (left right : Ended) : Prop :=
  left.thrown = right.thrown ∧ Alike (left.world.conn c) (right.world.conn c)

private theorem alike_sendMessage (alike : Alike (w.conn c) (v.conn c)) (message : OutgoingHttpMessage) :
    Alike ((w.sendMessage c message).conn c) ((v.sendMessage c message).conn c) := by
  by_cases connected : (w.conn c).state = .connected
  · rw [sendMessage_conn connected, sendMessage_conn (alike.state ▸ connected)]
    exact alike.map (fun conn => { conn with outgoing := conn.outgoing ++ [message.serialize] }) fun _ _ => rfl
  · rw [sendMessage_idle connected, sendMessage_idle (alike.state ▸ connected)]
    exact alike

private theorem alike_badData (alike : Alike (w.conn c) (v.conn c)) (message : IncomingHttpMessage) :
    Alike ((w.badData c message).conn c) ((v.badData c message).conn c) := by
  have flag : (v.conn c).bufferHasBadData = (w.conn c).bufferHasBadData := by rw [alike.same]
  unfold badData
  rw [flag]
  split
  next => split <;> exact alike_sendMessage alike _
  next =>
    rw [modify_conn, modify_conn]
    exact alike.map ({ · with bufferHasBadData := true }) fun _ _ => rfl

private theorem processStep_overflow {message : IncomingHttpMessage} {eof : Nat} {error : Exception}
    (found : deserialize (w.conn c).buffer.content = some (.complete message eof))
    (refused : (w.conn c).buffer.erase 0 eof = .error error) :
    processStep c w = .exit (some ⟨w.pushIncoming c message, some error⟩) := by
  have pushed : ((w.pushIncoming c message).conn c).buffer.erase 0 eof = .error error := by
    rw [pushIncoming_conn]; exact refused
  rw [processStep, found]
  dsimp only
  rw [pushed]

theorem processStep_alike (alike : Alike (w.conn c) (v.conn c)) :
    Loop.Step.Rel (fun w v => Alike (w.conn c) (v.conn c)) (Option.Rel (EndedAlike c))
      (processStep c w) (processStep c v) := by
  have content := alike.holds.content
  cases found : deserialize (w.conn c).buffer.content with
  | none =>
    rw [processStep, processStep, content, found]
    exact .exit .none
  | some outcome =>
    cases outcome with
    | incomplete =>
      rw [processStep, processStep, content, found]
      refine .exit (.some ⟨rfl, ?_⟩)
      dsimp only
      rw [modify_conn, modify_conn]
      exact alike.map ({ · with bufferHasBadData := false }) fun _ _ => rfl
    | thrown error message =>
      obtain ⟨why, rfl, _⟩ := deserialize_thrown found
      rw [processStep, processStep, content, found]
      exact .exit (.some ⟨rfl, alike_badData alike message⟩)
    | complete message eof =>
      have other : deserialize (v.conn c).buffer.content = some (.complete message eof) := by rw [content, found]
      by_cases inside : eof ≤ (w.conn c).buffer.content.length
      · obtain ⟨left, erased, kept⟩ := holds_erase alike.valid.holds inside
        obtain ⟨right, cut, held⟩ := holds_erase alike.holds inside
        obtain ⟨after, moves, conn⟩ := processStep_complete found erased
        obtain ⟨next, goes, peer⟩ := processStep_complete other cut
        rw [moves, goes]
        refine .next ⟨?_, ?_, ?_⟩
        · rw [conn, peer, alike.same]
        · rw [conn]; exact kept.valid
        · rw [conn, peer]; exact ⟨held.valid, held.content.trans kept.content.symm⟩
      · have small := deserialize_eof_lt found
        rw [processStep_overflow found (erase_overflow alike.valid.holds (Nat.not_le.mp inside) small),
          processStep_overflow other (erase_overflow alike.holds (Nat.not_le.mp inside) small)]
        refine .exit (.some ⟨rfl, ?_⟩)
        dsimp only
        rw [pushIncoming_conn, pushIncoming_conn]
        exact alike.map (fun conn => { conn with incoming := conn.incoming ++ [message] }) fun _ _ => rfl

theorem processEventRead_alike (alike : Alike (w.conn c) (v.conn c)) :
    Option.Rel (EndedAlike c) (w.processEventRead c) (v.processEventRead c) := by
  have length : (v.conn c).buffer.length = (w.conn c).buffer.length := by
    rw [alike.holds.length, alike.valid.content_length]
  have runs := Loop.run_related (fun _ _ => processStep_alike) ((w.conn c).buffer.length + 1) alike
  rw [processEventRead, processEventRead, length]
  generalize Loop.run (processStep c) ((w.conn c).buffer.length + 1) w = left at runs ⊢
  generalize Loop.run (processStep c) ((w.conn c).buffer.length + 1) v = right at runs ⊢
  cases runs with
  | none => exact .none
  | some same => exact same

theorem eventRead_alike {bytes : Bytes} (alike : Alike (w.conn c) (v.conn c)) (nonempty : bytes ≠ [])
    (short : bytes.length ≤ bufferLength) (fits : (w.conn c).buffer.content.length + 1501 < 2 ^ 64) :
    Option.Rel (EndedAlike c) (w.eventRead c (.received bytes)) (v.eventRead c (.received bytes)) := by
  by_cases connected : (w.conn c).state = .connected
  · obtain ⟨left, read, kept⟩ := eventRead_received alike.valid.holds connected nonempty short fits
    obtain ⟨right, other, held⟩ := eventRead_received alike.holds (alike.state.trans connected) nonempty short fits
    rw [read, other]
    apply processEventRead_alike
    rw [setBuffer_conn, setBuffer_conn]
    refine ⟨?_, kept.valid, ⟨held.valid, held.content.trans kept.content.symm⟩⟩
    rw [alike.same]
  · rw [eventRead, eventRead, if_pos connected, if_pos (alike.state ▸ connected)]
    exact .some ⟨rfl, alike⟩

theorem eventRead_idle (alike : Alike (w.conn c) (v.conn c)) {result : RecvResult} (again : result.again)
    (empty : (w.conn c).buffer.content = []) :
    ∃ after, w.eventRead c result = some ⟨after, none⟩ ∧ Alike (after.conn c) (v.conn c) := by
  by_cases connected : (w.conn c).state = .connected
  · obtain ⟨after, buffer, read, conn, cleared⟩ :=
      eventRead_again connected alike.valid.holds (by rw [empty]; decide) again
    refine ⟨after, read, ?_⟩
    rw [conn]
    refine ⟨alike.same, cleared.valid, ?_⟩
    dsimp only
    rw [cleared.content, ← empty]
    exact alike.holds
  · exact ⟨w, if_pos connected, alike⟩

/-- Every read that is to be tried again finds the buffer empty, and no read finds it
so full that its length would leave the address space. -/
def Idle (c : Nat) : List RecvResult → World → Prop
  | [], _ => True
  | result :: results, w => (w.conn c).buffer.content.length + 1501 < 2 ^ 64 ∧
      (result.again → (w.conn c).buffer.content = []) ∧
      ∀ after, w.eventRead c result = some ⟨after, none⟩ → Idle c results after

/-- A read that may be tried again, or one that received something. -/
def Ordinary (result : RecvResult) : Prop :=
  result.again ∨ ∃ bytes, result = .received bytes ∧ bytes ≠ [] ∧ bytes.length ≤ bufferLength

theorem readAll_alike {results : List RecvResult} (ordinary : ∀ result ∈ results, Ordinary result)
    (idle : Idle c results w) (alike : Alike (w.conn c) (v.conn c)) :
    Option.Rel (EndedAlike c) (w.readAll c results) (v.readAll c (results.filter (!·.again))) := by
  induction results generalizing w v with
  | nil => exact .some ⟨rfl, alike⟩
  | cons result results ih =>
    have rest := fun other member => ordinary other (List.mem_cons_of_mem result member)
    obtain ⟨fits, met, later⟩ := idle
    rcases ordinary result (by simp) with again | ⟨bytes, rfl, nonempty, short⟩
    · obtain ⟨after, read, kept⟩ := eventRead_idle alike again (met again)
      rw [readAll, read, List.filter_cons_of_neg (by simp [again])]
      exact ih rest (later after read) kept
    · have reads := eventRead_alike alike nonempty short fits
      rw [List.filter_cons_of_pos (by rfl), readAll, readAll]
      generalize found : w.eventRead c (.received bytes) = left at reads
      generalize v.eventRead c (.received bytes) = right at reads
      cases reads with
      | none => exact .none
      | @some left right same =>
        obtain ⟨after, thrown⟩ := left
        obtain ⟨other, _⟩ := right
        obtain ⟨rfl, kept⟩ := same
        cases thrown with
        | none => exact ih rest (later after found) kept
        | some error => exact .some ⟨rfl, kept⟩

/-- What a spurious read loses, and that reads which meet an empty buffer do not show. -/
theorem spurious_reads (reachable : Reachable c w) :
    (∀ result : RecvResult, (w.conn c).state = .connected → (w.conn c).buffer.content.length + 1501 < 2 ^ 64 →
      result.again → ∃ after, w.eventRead c result = some ⟨after, none⟩ ∧
        (Unchanged (w.conn c) (after.conn c) ↔ (w.conn c).buffer.content = [])) ∧
    ∀ results : List RecvResult, (∀ result ∈ results, Ordinary result) → Idle c results w →
      Option.Rel (fun left right => left.thrown = right.thrown ∧ Unchanged (left.world.conn c) (right.world.conn c))
        (w.readAll c results) (w.readAll c (results.filter (!·.again))) := by
  have valid := reachable_valid reachable
  refine ⟨fun result connected fits again => eventRead_again_iff connected valid.holds fits again, ?_⟩
  intro results ordinary idle
  have alike := readAll_alike ordinary idle ⟨rfl, valid, valid.holds⟩
  generalize w.readAll c results = left at alike ⊢
  generalize w.readAll c (results.filter (!·.again)) = right at alike ⊢
  cases alike with
  | none => exact .none
  | some same =>
    obtain ⟨thrown, alike⟩ := same
    exact .some ⟨thrown, alike.holds.content, by rw [alike.same], by rw [alike.same], alike.state⟩

theorem spurious_reads_idle :
    (∃ after, (vacant.initialise 3).world.eventRead 3 (.failed .eagain) = some ⟨after, none⟩ ∧
      (Unchanged ((vacant.initialise 3).world.conn 3) (after.conn 3) ↔
        ((vacant.initialise 3).world.conn 3).buffer.content = [])) ∧
    Option.Rel (fun left right => left.thrown = right.thrown ∧ Unchanged (left.world.conn 3) (right.world.conn 3))
      ((vacant.initialise 3).world.readAll 3 [.failed .eintr, .received (ascii "GET / HTTP/1.1\r\nHost: a\r\n\r\n")])
      ((vacant.initialise 3).world.readAll 3
        ([.failed .eintr, .received (ascii "GET / HTTP/1.1\r\nHost: a\r\n\r\n")].filter (!·.again))) := by
  have reachable : Reachable 3 (vacant.initialise 3).world :=
    .start (show vacant.conn 3 = Connection.create 3 from rfl) (show vacant.initialise 3 = _ from rfl)
  have empty : ((vacant.initialise 3).world.conn 3).buffer.content = [] := by decide +kernel
  have ordinary : ∀ result ∈ [RecvResult.failed .eintr, .received (ascii "GET / HTTP/1.1\r\nHost: a\r\n\r\n")],
      Ordinary result := by
    simp only [List.forall_mem_cons, List.not_mem_nil, false_imp_iff, implies_true, and_true]
    exact ⟨.inl rfl, .inr ⟨_, rfl, by decide, by decide⟩⟩
  have idle : Idle 3 [.failed .eintr, .received (ascii "GET / HTTP/1.1\r\nHost: a\r\n\r\n")]
      (vacant.initialise 3).world := by
    refine ⟨by decide +kernel, fun _ => empty, fun after read => ?_⟩
    have again : RecvResult.again (.failed .eintr) := rfl
    obtain ⟨_, _, same, conn, cleared⟩ :=
      eventRead_again (by decide +kernel) (reachable_valid reachable).holds (by decide +kernel) again
    cases same.symm.trans read
    rw [Idle, conn, cleared.content]
    exact ⟨by decide, nofun, fun _ _ => trivial⟩
  obtain ⟨one, all⟩ := spurious_reads reachable
  exact ⟨one _ (by decide +kernel) (by decide +kernel) rfl, all _ ordinary idle⟩

/-- Between two halves of a request, a spurious read loses the first of them. -/
theorem spurious_read_loses :
    ((vacant.initialise 3).world.readAll 3 [.received (ascii "GET / HTTP/1.1\r\n"), .failed .eagain,
        .received (ascii "Host: a\r\n\r\n")]).map (fun ended => (ended.world.conn 3).incoming) ≠
      ((vacant.initialise 3).world.readAll 3 [.received (ascii "GET / HTTP/1.1\r\n"),
        .received (ascii "Host: a\r\n\r\n")]).map (fun ended => (ended.world.conn 3).incoming) := by
  decide +kernel

end World
end LibWebserver
