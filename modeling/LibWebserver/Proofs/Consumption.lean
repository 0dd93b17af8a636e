import LibWebserver.Proofs.Fragmentation
import LibWebserver.Proofs.Termination

/-! When the bytes a message is taken to end at lie inside the buffer, and what
this gives the receive loop. -/

namespace LibWebserver
open CString IncomingHttpMessage

namespace IncomingHttpMessage

/-- Header block and declared body lie in the buffer, added up as numbers. -/
def Layout.Inside {data : Bytes} (layout : Layout data) : Prop :=
  layout.headLength + layout.contentLength ≤ data.length

theorem Layout.headLength_pos {data : Bytes} (layout : Layout data) : 0 < layout.headLength := by
  unfold headLength
  omega

/-- What is accepted ends behind its header block and inside the buffer. -/
def Consumes (data : Bytes) : Prop :=
  ∀ message eof, deserialize data = some (.complete message eof) →
    ∃ layout : Layout data, 0 < layout.headLength ∧ layout.headLength ≤ eof ∧ eof ≤ data.length

/-- Consumption is bounded exactly when no message is accepted that declares a
body past the end of the buffer. -/
theorem consumes_iff {data : Bytes} (small : data.length < 2 ^ 64) :
    Consumes data ↔ ∀ layout : Layout data, layout.Whole → layout.Inside := by
  constructor
  · intro bounded layout whole
    obtain ⟨other, _, behind, inside⟩ := bounded _ _ (deserialize_complete_iff.mpr ⟨layout, whole, rfl, rfl⟩)
    obtain rfl : layout = other := Subsingleton.elim _ _
    rw [layout.eof_eq (layout.headLength_le_eof_iff.mp behind)] at inside
    exact inside
  · intro fits message eof accepted
    obtain ⟨layout, whole, _, rfl⟩ := deserialize_complete_iff.mp accepted
    have inside := fits layout whole
    have room : layout.headLength + layout.contentLength < 2 ^ 64 := Nat.lt_of_le_of_lt inside small
    refine ⟨layout, layout.headLength_pos, layout.headLength_le_eof_iff.mpr room, ?_⟩
    rw [layout.eof_eq room]
    exact inside

/-- Messages one behind the other, none of which declares a body past the end, and
behind them bytes that are no message and that the parser returns on. -/
inductive Drains : Bytes → Prop where
  | rest {data} (none : ∀ layout : Layout data, ¬ layout.Whole) (ends : ¬ Spins data) : Drains data
  | message {data} (layout : Layout data) (whole : layout.Whole) (inside : layout.Inside)
      (rest : Drains (data.drop (layout.headLength + layout.contentLength))) : Drains data

theorem drains_iff_of_whole {data : Bytes} {layout : Layout data} (whole : layout.Whole) :
    Drains data ↔ layout.Inside ∧ Drains (data.drop (layout.headLength + layout.contentLength)) := by
  constructor
  · intro drains
    cases drains with
    | rest none _ => exact absurd whole (none layout)
    | message other _ inside rest =>
      obtain rfl : layout = other := Subsingleton.elim _ _
      exact ⟨inside, rest⟩
  · intro ⟨inside, rest⟩
    exact .message layout whole inside rest

theorem drains_iff_of_none {data : Bytes} (none : ∀ layout : Layout data, ¬ layout.Whole) :
    Drains data ↔ ¬ Spins data := by
  constructor
  · intro drains
    cases drains with
    | rest _ ends => exact ends
    | message layout whole => exact absurd whole (none layout)
  · intro ends
    exact .rest none ends

end IncomingHttpMessage

namespace World

variable {w after : World} {c : Nat}

/-- Every buffer the loop comes to is consumed within its bounds, every pass that goes
on takes a byte off, and the loop ends without an exception. -/
structure Progresses (c : Nat) (w : World) : Prop where
  consumes : ∀ state, Loop.Reaches (processStep c) w state → Consumes (state.conn c).buffer.content
  shorter : ∀ state after, Loop.Reaches (processStep c) w state → processStep c state = .next after →
    (after.conn c).buffer.length < (state.conn c).buffer.length
  ends : ∃ ended, w.processEventRead c = some ended ∧ ended.thrown = none

private theorem exits_of_processEventRead {ended : Ended} (done : w.processEventRead c = some ended) :
    Loop.Exits (processStep c) w (some ended) :=
  ⟨_, Option.join_eq_some_iff.mp done⟩

theorem progresses_of_exit {ended : Ended} (exits : processStep c w = .exit (some ended)) (clean : ended.thrown = none)
    (consumes : Consumes (w.conn c).buffer.content) : Progresses c w := by
  have only {state : World} (reached : Loop.Reaches (processStep c) w state) : state = w := by
    rcases Relation.ReflTransGen.cases_head reached with same | ⟨next, moves, _⟩
    · exact same.symm
    · cases exits.symm.trans moves
  refine ⟨fun state reached => only reached ▸ consumes, fun state after reached moves => ?_, ended, ?_, clean⟩
  · cases only reached
    cases exits.symm.trans moves
  · exact processEventRead_of_exits (.of_exit exits)

theorem progresses_iff_of_next (moves : processStep c w = .next after) :
    Progresses c w ↔ Consumes (w.conn c).buffer.content ∧
      (after.conn c).buffer.length < (w.conn c).buffer.length ∧ Progresses c after := by
  constructor
  · intro ⟨consumes, shorter, ended, done, clean⟩
    have start : Loop.Reaches (processStep c) w w := .refl w
    refine ⟨consumes w start, shorter w after start moves, ?_, ?_, ended, ?_, clean⟩
    · exact fun state reached => consumes state (reached.head moves)
    · exact fun state next reached => shorter state next (reached.head moves)
    · obtain ⟨fuel, done⟩ := exits_of_processEventRead done
      cases fuel with
      | zero => cases done
      | succ fuel =>
        rw [Loop.run_next fuel moves] at done
        exact processEventRead_of_exits ⟨fuel, done⟩
  · intro ⟨first, less, consumes, shorter, ended, done, clean⟩
    have cases_reached {state : World} (reached : Loop.Reaches (processStep c) w state) :
        state = w ∨ Loop.Reaches (processStep c) after state := by
      rcases Relation.ReflTransGen.cases_head reached with same | ⟨next, goes, rest⟩
      · exact .inl same.symm
      · cases moves.symm.trans goes
        exact .inr rest
    refine ⟨?_, ?_, ended, processEventRead_of_exits ((exits_of_processEventRead done).of_next moves), clean⟩
    · intro state reached
      rcases cases_reached reached with rfl | rest
      · exact first
      · exact consumes state rest
    · intro state next reached goes
      rcases cases_reached reached with rfl | rest
      · cases moves.symm.trans goes
        exact less
      · exact shorter state next rest goes

theorem processStep_inside (valid : (w.conn c).buffer.Valid) {layout : Layout (w.conn c).buffer.content}
    (whole : layout.Whole) (inside : layout.Inside) :
    ∃ after, processStep c w = .next after ∧
      Holds (after.conn c).buffer ((w.conn c).buffer.content.drop (layout.headLength + layout.contentLength)) := by
  have found := deserialize_complete_iff.mpr ⟨layout, whole, rfl, rfl⟩
  have size := valid.content_length
  have small := valid.small
  unfold Layout.Inside at inside
  have eof := layout.eof_eq (by omega)
  obtain ⟨buffer, erased, kept⟩ := holds_erase valid.holds (show layout.eof ≤ _ by omega)
  obtain ⟨after, moves, conn⟩ := processStep_complete found erased
  refine ⟨after, moves, ?_⟩
  rw [conn, ← eof]
  exact kept

theorem progresses_iff_of_none (none : ∀ layout : Layout (w.conn c).buffer.content, ¬ layout.Whole) :
    Progresses c w ↔ ¬ Spins (w.conn c).buffer.content := by
  have consumes : Consumes (w.conn c).buffer.content := by
    intro message eof accepted
    obtain ⟨layout, whole, _⟩ := deserialize_complete_iff.mp accepted
    exact absurd whole (none layout)
  constructor
  · intro progresses spins
    obtain ⟨ended, done, _⟩ := progresses.ends
    have silent : deserialize (w.conn c).buffer.content = .none := deserializeWithin_spins spins _
    have exits : processStep c w = .exit .none := by rw [processStep, silent]
    cases (exits_of_processEventRead done).unique (.of_exit exits)
  · intro ends
    obtain ⟨outcome, found⟩ := deserialize_returns ends
    cases outcome with
    | incomplete => exact progresses_of_exit (by rw [processStep, found]) rfl consumes
    | thrown error message =>
      obtain ⟨why, rfl, _⟩ := deserialize_thrown found
      exact progresses_of_exit (by rw [processStep, found]) rfl consumes
    | complete message eof =>
      obtain ⟨layout, whole, _⟩ := deserialize_complete_iff.mp found
      exact absurd whole (none layout)

/-- The loop progresses exactly at buffers of messages that lie in it: by induction on
the length of what is left. -/
theorem progresses_iff (valid : (w.conn c).buffer.Valid) : Progresses c w ↔ Drains (w.conn c).buffer.content := by
  induction size : (w.conn c).buffer.length using Nat.strongRecOn generalizing w with
  | ind size ih =>
    by_cases none : ∀ layout : Layout (w.conn c).buffer.content, ¬ layout.Whole
    · rw [progresses_iff_of_none none, drains_iff_of_none none]
    · simp only [not_forall, not_not] at none
      obtain ⟨layout, whole⟩ := none
      have small : (w.conn c).buffer.content.length < 2 ^ 64 := by
        rw [valid.content_length]
        have := valid.small
        omega
      rw [drains_iff_of_whole whole]
      by_cases inside : layout.Inside
      · obtain ⟨after, moves, kept⟩ := processStep_inside valid whole inside
        have shorter : (after.conn c).buffer.length < (w.conn c).buffer.length := by
          have head := layout.headLength_pos
          unfold Layout.Inside at inside
          rw [valid.content_length] at inside
          rw [kept.length, List.length_drop, valid.content_length]
          omega
        have consumes : Consumes (w.conn c).buffer.content := by
          refine (consumes_iff small).mpr fun other _ => ?_
          obtain rfl : layout = other := Subsingleton.elim _ _
          exact inside
        have rest := ih _ (size ▸ shorter) kept.valid rfl
        rw [progresses_iff_of_next moves, rest, kept.content]
        exact ⟨fun all => ⟨inside, all.2.2⟩, fun all => ⟨consumes, shorter, all.2⟩⟩
      · constructor
        · intro progresses
          exact absurd ((consumes_iff small).mp (progresses.consumes w (.refl w)) layout whole) inside
        · intro drains
          exact absurd drains.1 inside

/-- Where consumption is bounded, and where the receive loop makes progress and ends. -/
theorem consumption_bounded {data : Bytes} (small : data.length < 2 ^ 64) (valid : (w.conn c).buffer.Valid) :
    (Consumes data ↔ ∀ layout : Layout data, layout.Whole → layout.Inside) ∧
    (Progresses c w ↔ Drains (w.conn c).buffer.content) :=
  ⟨consumes_iff small, progresses_iff valid⟩

private theorem sample_taken {data rest : Bytes} (split : data = Request.sample.bytes ++ rest) (drains : Drains rest) :
    Drains data := by
  subst split
  have small : Request.sample.bytes.length < 2 ^ 64 := by decide +kernel
  obtain ⟨layout, whole, _⟩ := deserialize_complete_iff.mp (Request.sample.whole small rest)
  obtain rfl : layout = Request.sample.layout rfl := Subsingleton.elim _ _
  have ends : (Request.sample.layout rfl : Layout (Request.sample.bytes ++ rest)).headLength +
      (Request.sample.layout rfl : Layout (Request.sample.bytes ++ rest)).contentLength = Request.sample.bytes.length := by
    simp only [Layout.headLength, Layout.contentLength, Request.layout]
    decide +kernel
  refine .message _ whole ?_ ?_
  · rw [Layout.Inside, ends, List.length_append]
    exact Nat.le_add_right _ _
  · rw [ends, List.drop_left]
    exact drains

private theorem nothing_drains : Drains [] := by
  refine .rest (fun layout => ?_) fun ⟨first, p, _, _, split, _⟩ => ?_
  · have size : 0 = layout.headLength + layout.body.length := layout.length_eq
    have head := layout.headLength_pos
    omega
  · exact absurd (congrArg List.length split) (by simp [crlf])

theorem consumption_bounded_sample :
    ∃ w : World, (w.conn 3).buffer.content = Request.sample.bytes ++ Request.sample.bytes ∧
      (Consumes Request.sample.bytes ↔ ∀ layout : Layout Request.sample.bytes, layout.Whole → layout.Inside) ∧
      Progresses 3 w := by
  have valid : Valid ⟨Request.sample.bytes ++ Request.sample.bytes ++ [0], 2 * Request.sample.bytes.length, 0⟩ :=
    ⟨by decide +kernel, by decide +kernel, by decide +kernel⟩
  have holds : Holds _ (Request.sample.bytes ++ Request.sample.bytes) := ⟨valid, by decide +kernel⟩
  let w := vacant.setBuffer 3
    ⟨Request.sample.bytes ++ Request.sample.bytes ++ [0], 2 * Request.sample.bytes.length, 0⟩
  have conn : Holds (w.conn 3).buffer (Request.sample.bytes ++ Request.sample.bytes) := by
    rw [setBuffer_conn]
    exact holds
  have small : Request.sample.bytes.length < 2 ^ 64 := by decide +kernel
  obtain ⟨exact, progress⟩ := consumption_bounded small conn.valid
  refine ⟨w, conn.content, exact, progress.mpr ?_⟩
  rw [conn.content]
  exact sample_taken rfl (sample_taken (List.append_nil _).symm nothing_drains)

/-- A GET that declares a body is taken past the end of the buffer, which `Erase` refuses. -/
theorem get_overruns :
    (¬ ∀ data : Bytes, data.length < 2 ^ 64 → Consumes data) ∧
      ((vacant.setBuffer 3 ⟨ascii "GET / HTTP/1.1\r\nContent-Length: 5\r\n\r\n" ++ [0], 37, 0⟩).processEventRead 3).map
        (·.thrown) = some (some (.internalError "CString size overflow")) := by
  refine ⟨fun always => ?_, by decide +kernel⟩
  have accepted : deserialize (ascii "GET / HTTP/1.1\r\nContent-Length: 5\r\n\r\n") = some (.complete
      { method := .get, uri := ascii "/", length := 5, headers := [⟨ascii "Content-Length", ascii "5"⟩] } 42) := by
    decide +kernel
  obtain ⟨_, _, _, inside⟩ := always _ (by decide +kernel) _ _ accepted
  exact absurd inside (by decide +kernel)

end World
end LibWebserver
