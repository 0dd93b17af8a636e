import LibWebserver.Proofs.Fragmentation

/-! Which cuts of a malformed stream are answered. The first bad read only raises
a flag, so the answer takes a further read after the first line is there. -/

namespace LibWebserver
open CStr CString IncomingHttpMessage

/-- A stream whose first line ends and is malformed. -/
structure Malformed (stream first : Bytes) : Prop where
  ended : first ++ crlf <+: stream
  free : Free crlf first
  bad : ∀ method uri, ¬ StartLine stream method uri

namespace Malformed

variable {stream first held : Bytes}

theorem of_thrown {error : Exception} {message : IncomingHttpMessage}
    (thrown : deserialize stream = some (.thrown error message)) : ∃ first, Malformed stream first := by
  obtain ⟨first, p, split, free, bad⟩ := malformed_of_thrown thrown
  exact ⟨first, ⟨p, by rw [split, List.append_assoc]⟩, free, bad⟩

/-- Any start of the stream with the whole first line is as malformed. -/
theorem rejected (malformed : Malformed stream first) (starts : held <+: stream)
    (long : first.length + 2 ≤ held.length) : verdict held = some .malformed := by
  obtain ⟨p, same⟩ : first ++ crlf <+: held :=
    List.prefix_of_prefix_length_le malformed.ended starts (by simpa using long)
  have split : held = first ++ (crlf ++ p) := by rw [← same, List.append_assoc]
  obtain ⟨why, message, found, _⟩ := deserialize_bad split malformed.free
    fun method uri start => malformed.bad method uri (start.extend starts)
  rw [verdict, found]
  rfl

theorem waited (malformed : Malformed stream first) (starts : held <+: stream)
    (short : held.length < first.length + 2) : verdict held = some .incomplete := by
  obtain ⟨more, same⟩ := starts
  have never {other p : Bytes} (split : held = other ++ (crlf ++ p)) (free : Free crlf other) : False := by
    obtain ⟨rest, whole⟩ := malformed.ended
    rw [split, ← whole, List.append_assoc, List.append_assoc, List.append_assoc] at same
    obtain ⟨rfl, _⟩ := Free.cut_unique (by decide) free malformed.free same
    simp only [split, List.length_append, List.length_cons, List.length_nil] at short
    omega
  cases shape held with
  | unfinished waits => exact verdict_incomplete_iff.mpr waits
  | malformed split free _ => exact (never split free).elim
  | stuck split free _ _ => exact (never split free).elim
  | block layout => exact (never layout.split layout.free).elim

end Malformed

namespace World

variable {w : World} {c : Nat} {stream first held : Bytes}

/-- Reading on in a malformed stream: once the first line is there, every read after
the one that completed it queues an answer. -/
theorem readAll_malformed (malformed : Malformed stream first) (fits : stream.length + 1501 < 2 ^ 64)
    {chunks : List Bytes} (whole : held ++ chunks.flatten = stream)
    (short : ∀ chunk ∈ chunks, chunk ≠ [] ∧ chunk.length ≤ bufferLength) (connected : (w.conn c).state = .connected)
    (holds : Holds (w.conn c).buffer held) (flag : (w.conn c).bufferHasBadData = decide (first.length + 2 ≤ held.length)) :
    ∃ after, w.readAll c (chunks.map .received) = some ⟨after, none⟩ ∧
      (OutgoingHttpMessage.badRequest.serialize ∈ (after.conn c).outgoing ↔
        OutgoingHttpMessage.badRequest.serialize ∈ (w.conn c).outgoing ∨
          chunks ≠ [] ∧ first.length + 2 ≤ (held ++ chunks.dropLast.flatten).length) := by
  induction chunks generalizing w held with
  | nil => exact ⟨w, rfl, by simp⟩
  | cons chunk chunks ih =>
    obtain ⟨nonempty, size⟩ := short chunk (by simp)
    have rest := fun other member => short other (List.mem_cons_of_mem chunk member)
    rw [List.flatten_cons, ← List.append_assoc] at whole
    have starts : held ++ chunk <+: stream := ⟨_, whole⟩
    have total := starts.length_le
    rw [List.length_append] at total
    obtain ⟨clean, drains, flagged⟩ : ∃ clean, Framing.Drains verdict (held ++ chunk) [] (held ++ chunk) clean ∧
        (!clean) = decide (first.length + 2 ≤ (held ++ chunk).length) := by
      by_cases ended : first.length + 2 ≤ (held ++ chunk).length
      · exact ⟨false, .reject (malformed.rejected starts ended), (decide_eq_true ended).symm⟩
      · exact ⟨true, .wait (malformed.waited starts (by omega)), (decide_eq_false ended).symm⟩
    obtain ⟨next, read, drained⟩ := eventRead_drains connected holds nonempty size (by omega) drains
    obtain ⟨after, reads, answered⟩ := ih whole rest (drained.state.trans connected) drained.buffer
      (drained.bad.trans flagged)
    refine ⟨after, ?_, ?_⟩
    · rw [List.map_cons, readAll, read]
      exact reads
    · have queued : OutgoingHttpMessage.badRequest.serialize ∈ (next.conn c).outgoing ↔
          OutgoingHttpMessage.badRequest.serialize ∈ (w.conn c).outgoing ∨ first.length + 2 ≤ held.length := by
        rw [drained.outgoing, flagged, flag, List.mem_append]
        refine or_congr_right ?_
        split
        next both => simpa using (of_decide_eq_true (Bool.and_eq_true_iff.mp both).2)
        next other =>
          refine iff_of_false List.not_mem_nil fun ended => other ?_
          simp only [List.length_append, Bool.and_eq_true, decide_eq_true_eq]
          omega
      rw [answered, queued, or_assoc]
      refine or_congr_right ?_
      cases chunks with
      | nil => simp
      | cons other chunks =>
        simp only [List.dropLast_cons_cons, List.flatten_cons, List.length_append, ne_eq, reduceCtorEq, not_false_eq_true,
          true_and]
        omega

/-- A malformed stream is answered exactly when its first line was there before the last read. -/
theorem badRequest_queued_iff {why : List UInt8} {message : IncomingHttpMessage}
    (thrown : deserialize stream = some (.thrown (.deserializationError why) message))
    (fits : stream.length + 1501 < 2 ^ 64) :
    ∃ ended, CString.pos stream crlf = some ended ∧
      ∀ (w start : World) (c : Nat) (fd : Int) (chunks : List Bytes), w.conn c = Connection.create fd →
        w.initialise c = ⟨start, none⟩ → chunks.flatten = stream →
        (∀ chunk ∈ chunks, chunk ≠ [] ∧ chunk.length ≤ bufferLength) →
        ∃ after, start.readAll c (chunks.map .received) = some ⟨after, none⟩ ∧
          (OutgoingHttpMessage.badRequest.serialize ∈ (after.conn c).outgoing ↔
            ended + 2 ≤ chunks.dropLast.flatten.length) := by
  obtain ⟨first, malformed⟩ := Malformed.of_thrown thrown
  obtain ⟨p, same⟩ := malformed.ended
  refine ⟨first.length, ?_, ?_⟩
  · rw [CString.pos, ← same, List.append_assoc, strstr_free (by decide) malformed.free]
  · intro w start c fd chunks fresh opened whole short
    have conn := initialise_conn opened
    rw [fresh] at conn
    obtain ⟨after, reads, answered⟩ := readAll_malformed malformed fits (by simpa using whole) short (by rw [conn])
      (initialise_holds fresh opened) (by rw [conn]; rfl)
    refine ⟨after, reads, ?_⟩
    rw [answered, conn, List.nil_append]
    constructor
    · rintro (queued | ⟨_, ended⟩)
      · cases queued
      · exact ended
    · intro ended
      refine .inr ⟨?_, ended⟩
      rintro rfl
      cases ended

theorem badRequest_queued_cuts :
    ∃ ended, CString.pos (ascii "X\r\nY") crlf = some ended ∧
      ∃ after, (vacant.initialise 3).world.readAll 3 ([ascii "X\r\n", ascii "Y"].map .received) = some ⟨after, none⟩ ∧
        (OutgoingHttpMessage.badRequest.serialize ∈ (after.conn 3).outgoing ↔
          ended + 2 ≤ [ascii "X\r\n", ascii "Y"].dropLast.flatten.length) := by
  have thrown : deserialize (ascii "X\r\nY") =
      some (.thrown (.deserializationError (ascii "Invalid method: X\r\n")) {}) := by decide +kernel
  obtain ⟨ended, found, each⟩ := badRequest_queued_iff thrown (by decide)
  exact ⟨ended, found, each vacant _ 3 3 _ rfl rfl (by decide) (by decide)⟩

/-- The same malformed stream is not answered in one read, and answered in two. -/
theorem badRequest_depends_on_cut :
    (∃ why message, deserialize (ascii "X\r\nY") = some (.thrown (.deserializationError why) message)) ∧
      ((vacant.initialise 3).world.readAll 3 ([ascii "X\r\nY"].map .received)).map
        (fun ended => decide (OutgoingHttpMessage.badRequest.serialize ∈ (ended.world.conn 3).outgoing)) = some false ∧
      ((vacant.initialise 3).world.readAll 3 ([ascii "X\r\n", ascii "Y"].map .received)).map
        (fun ended => decide (OutgoingHttpMessage.badRequest.serialize ∈ (ended.world.conn 3).outgoing)) = some true := by
  refine ⟨⟨ascii "Invalid method: X\r\n", {}, ?_⟩, ?_, ?_⟩ <;> decide +kernel

end World
end LibWebserver
