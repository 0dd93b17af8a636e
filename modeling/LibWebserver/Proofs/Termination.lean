import LibWebserver.Proofs.Deserialize

/-! Which inputs the parser returns on. The header loop is the only one that can
go on forever, at a CR that ends no header block. -/

namespace LibWebserver.IncomingHttpMessage
open CStr

/-- The header block behind the first line leads the loop to a CR it stays at. -/
def Spins (data : Bytes) : Prop :=
  ∃ first p method uri, data = first ++ (crlf ++ p) ∧ Free crlf first ∧ StartLine data method uri ∧ Stuck false p

/-- The pass starts at a CR with another byte to come that is not the blank line
of a header block. -/
def AtCr (request : Bytes) (state : HeaderState) : Prop :=
  peek state.p = cr ∧ state.eof + 2 ≤ request.length ∧ ¬ (peek state.p.tail = lf ∧ state.headerLineEnd)

theorem scanValue_suffix (p : Bytes) (eof : Nat) : (scanValue p eof).p <:+ p := by
  induction p generalizing eof with
  | nil => exact List.suffix_refl []
  | cons c p ih =>
    simp only [scanValue]
    split
    · exact List.suffix_refl _
    · split
      · exact (List.tail_suffix p).trans (List.suffix_cons c p)
      · exact (ih _).trans (List.suffix_cons c p)

private theorem scanKey_shorter {p : Bytes} (running : peek p ≠ 0) (start : peek p ≠ cr) (eof : Nat) :
    (scanKey p eof).p.length < p.length := by
  cases p with
  | nil => exact absurd rfl running
  | cons c p =>
    have other : ¬ (c = 0 ∨ c = cr) := not_or.mpr ⟨running, start⟩
    simp only [scanKey, if_neg other]
    apply Nat.lt_succ_of_le
    split
    · exact (List.tail_suffix p).length_le
    · exact (scanKey_suffix p _).length_le

private theorem headerStep_atCr {request : Bytes} {state : HeaderState} (here : AtCr request state) :
    headerStep request state = .next { state with headerLineEnd := false } := by
  obtain ⟨message, p, eof, flag⟩ := state
  obtain ⟨start, room, unfinished⟩ := here
  cases p with
  | nil => exact absurd (show (0 : UInt8) = cr from start) (by decide)
  | cons c p =>
    obtain rfl : c = cr := start
    have running : ¬ peek (cr :: p) = 0 := (by decide : ¬ cr = 0)
    have blank : ¬ (peek (cr :: p) = cr ∧ peek (cr :: p).tail = lf ∧ flag = true) := fun both => unfinished both.2
    rw [headerStep, if_neg running, if_neg (Nat.not_lt.mpr room), if_neg blank]
    rfl

/-- A pass leaves the loop or advances the pointer, unless it starts at such a CR. -/
theorem headerStep_progress_iff (request : Bytes) (state : HeaderState) :
    ((∃ result, headerStep request state = .exit result) ∨
      ∃ after, headerStep request state = .next after ∧ after.p.length < state.p.length) ↔ ¬ AtCr request state := by
  constructor
  · intro progress here
    rw [headerStep_atCr here] at progress
    rcases progress with ⟨result, exits⟩ | ⟨after, moves, less⟩
    · cases exits
    · cases moves
      exact Nat.lt_irrefl _ less
  · intro elsewhere
    by_cases stop : peek state.p = 0
    · exact .inl ⟨_, by rw [headerStep, if_pos stop]⟩
    by_cases short : state.eof + 2 > request.length
    · exact .inl ⟨_, by rw [headerStep, if_neg stop, if_pos short]⟩
    by_cases blank : peek state.p = cr ∧ peek state.p.tail = lf ∧ state.headerLineEnd
    · exact .inl ⟨_, by rw [headerStep, if_neg stop, if_neg short, if_pos blank]⟩
    have start : peek state.p ≠ cr :=
      fun start => elsewhere ⟨start, Nat.not_lt.mp short, fun both => blank ⟨start, both⟩⟩
    have shorter := scanKey_shorter stop start state.eof
    refine .inr ?_
    rw [headerStep, if_neg stop, if_neg short, if_neg blank]
    dsimp only
    split
    · exact ⟨_, rfl, shorter⟩
    · exact ⟨_, rfl, Nat.lt_of_le_of_lt (scanValue_suffix _ _).length_le shorter⟩

theorem deserializeWithin_spins {data : Bytes} (spins : Spins data) (fuel : Nat) : deserializeWithin fuel data = none := by
  obtain ⟨first, p, method, uri, split, free, start, stuck⟩ := spins
  exact deserialize_stuck split free start stuck fuel

theorem deserialize_returns {data : Bytes} (ends : ¬ Spins data) : ∃ result, deserialize data = some result := by
  cases shape data with
  | unfinished waits => exact ⟨_, waits⟩
  | malformed split free bad =>
    obtain ⟨_, _, same, _⟩ := deserialize_bad split free bad
    exact ⟨_, same⟩
  | stuck split free start stuck => exact absurd ⟨_, _, _, _, split, free, start, stuck⟩ ends
  | block layout => exact ⟨_, deserialize_layout layout⟩

/-- Where the parser ends, and where a pass of its header loop gets on. -/
theorem terminates_iff (data request : Bytes) (state : HeaderState) :
    ((∃ fuel result, deserializeWithin fuel data = some result) ↔ ¬ Spins data) ∧
    (((∃ result, headerStep request state = .exit result) ∨
      ∃ after, headerStep request state = .next after ∧ after.p.length < state.p.length) ↔ ¬ AtCr request state) := by
  refine ⟨⟨?_, ?_⟩, headerStep_progress_iff request state⟩
  · intro ⟨fuel, result, done⟩ spins
    rw [deserializeWithin_spins spins fuel] at done
    cases done
  · intro ends
    obtain ⟨result, done⟩ := deserialize_returns ends
    exact ⟨_, result, done⟩

/-- An empty header block is never read to its end. -/
theorem blank_header_spins :
    ¬ ∃ fuel result, deserializeWithin fuel (ascii "GET / HTTP/1.1\r\n\r\n") = some result := by
  intro ⟨fuel, result, done⟩
  have settled := deserialize_eq_some_iff.mpr ⟨fuel, done⟩
  have none : deserialize (ascii "GET / HTTP/1.1\r\n\r\n") = none := by decide +kernel
  rw [none] at settled
  cases settled

end LibWebserver.IncomingHttpMessage
