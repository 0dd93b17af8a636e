import LibWebserver.IncomingHttpMessage

/-! The header loop read line by line. A pass takes a whole field line, skips a
": " at the start of one, leaves the loop, or stays where it is; which of these
happens is decided by the bytes ahead. -/

namespace LibWebserver.IncomingHttpMessage
open CStr

theorem scanKey_lock (p : Bytes) (eof : Nat) :
    (scanKey p eof).eof + (scanKey p eof).p.length = eof + p.length := by
  induction p generalizing eof with
  | nil => rfl
  | cons c p ih =>
    simp only [scanKey]
    split
    · rfl
    · split
      next separator =>
        cases p with
        | nil => exact absurd separator.2 (by decide)
        | cons d p => simp only [List.tail_cons, List.length_cons]; omega
      · simp only [ih, List.length_cons]; omega

theorem scanKey_suffix (p : Bytes) (eof : Nat) : (scanKey p eof).p <:+ p := by
  induction p generalizing eof with
  | nil => exact List.suffix_refl []
  | cons c p ih =>
    simp only [scanKey]
    split
    · exact List.suffix_refl _
    · split
      · exact (List.tail_suffix p).trans (List.suffix_cons c p)
      · exact (ih _).trans (List.suffix_cons c p)

theorem scanKey_key_starts (p : Bytes) (eof : Nat) : (scanKey p eof).key <+: p := by
  induction p generalizing eof with
  | nil => exact List.prefix_rfl
  | cons c p ih =>
    simp only [scanKey]
    split
    · exact List.nil_prefix
    · split
      · exact List.nil_prefix
      · exact List.cons_prefix_cons.mpr ⟨rfl, ih _⟩

theorem scanKey_offset (p : Bytes) (eof : Nat) :
    (scanKey p eof).key = (scanKey p 0).key ∧ (scanKey p eof).p = (scanKey p 0).p := by
  suffices general : ∀ one two, (scanKey p one).key = (scanKey p two).key ∧ (scanKey p one).p = (scanKey p two).p from
    general eof 0
  induction p with
  | nil => exact fun _ _ => ⟨rfl, rfl⟩
  | cons c p ih =>
    intro one two
    simp only [scanKey]
    split
    · exact ⟨rfl, rfl⟩
    · split
      · exact ⟨rfl, rfl⟩
      · obtain ⟨key, rest⟩ := ih (one + 1) (two + 1)
        exact ⟨congrArg (c :: ·) key, rest⟩

theorem scanKey_key_eq_nil {p : Bytes} (eof : Nat) :
    (scanKey p eof).key = [] ↔ peek p = 0 ∨ peek p = cr ∨ peek p = 58 ∧ peek p.tail = 32 := by
  cases p with
  | nil => simp [scanKey]
  | cons c p =>
    simp only [scanKey, peek_cons, List.tail_cons]
    split
    next stop => simp [stop, ← or_assoc]
    next running =>
      split
      next separator => simp [separator]
      next other => simpa [other] using running

theorem scanKey_append {rest : Bytes} (stop : peek rest = 0 ∨ peek rest = cr) (text : Bytes) (eof : Nat) :
    scanKey (text ++ rest) eof = { scanKey text eof with p := (scanKey text eof).p ++ rest } := by
  induction text generalizing eof with
  | nil =>
    cases rest with
    | nil => rfl
    | cons c rest => simp only [List.nil_append, scanKey, if_pos (show c = 0 ∨ c = cr from stop)]
  | cons c text ih =>
    have ahead : (c = 58 ∧ peek (text ++ rest) = 32) ↔ (c = 58 ∧ peek text = 32) := by
      cases text with
      | cons d text => rfl
      | nil =>
        have differs : peek rest ≠ 32 := by
          intro same
          rw [same] at stop
          revert stop
          decide
        simp [differs]
    simp only [List.cons_append, scanKey, ahead]
    split
    · rfl
    · split
      next separator =>
        cases text with
        | nil => exact absurd separator.2 (by decide)
        | cons d text => rfl
      · rw [ih]

/-- Text free of CRLF goes on, whatever else than an LF is behind it. -/
private theorem running_of_free {c : UInt8} {value : Bytes} (free : Free crlf (c :: value)) {more : Bytes}
    (ends : peek more ≠ lf) : ¬ (c = cr ∧ peek (value ++ more) = lf) := by
  rintro ⟨rfl, next⟩
  cases value with
  | nil => exact ends next
  | cons d value =>
    have same : d = lf := next
    exact free.absent ⟨[], value, by rw [same]; rfl⟩

theorem scanValue_line {value : Bytes} (free : Free crlf value) (more : Bytes) (eof : Nat) :
    scanValue (value ++ (crlf ++ more)) eof = ⟨value, more, eof + value.length + 2, true⟩ := by
  induction value generalizing eof with
  | nil => rfl
  | cons c value ih =>
    have nonzero : c ≠ 0 := fun same => free.nul (by simp [same])
    have start : peek (crlf ++ more) ≠ lf := (by decide : cr ≠ lf)
    have running := running_of_free free start
    rw [List.cons_append, scanValue, if_neg nonzero, if_neg running,
      ih (free.of_infix (List.infix_cons List.infix_rfl))]
    simp only [List.length_cons, ValueScan.mk.injEq, true_and, and_true]
    omega

theorem scanValue_end {value rest : Bytes} (free : Free crlf value) (stop : peek rest = 0) (eof : Nat) :
    scanValue (value ++ rest) eof = ⟨value, rest, eof + value.length, false⟩ := by
  induction value generalizing eof with
  | nil =>
    cases rest with
    | nil => rfl
    | cons c rest => simp only [List.nil_append, scanValue, if_pos (show c = 0 from stop), List.length_nil, Nat.add_zero]
  | cons c value ih =>
    have nonzero : c ≠ 0 := fun same => free.nul (by simp [same])
    have running := running_of_free free (by rw [stop]; decide : peek rest ≠ lf)
    rw [List.cons_append, scanValue, if_neg nonzero, if_neg running,
      ih (free.of_infix (List.infix_cons List.infix_rfl))]
    simp only [List.length_cons, ValueScan.mk.injEq, true_and, and_true]
    omega

/-- The text of a line on which the key loop finds a key. -/
structure KeyLine (line : Bytes) : Prop where
  free : Free crlf line
  nonempty : line ≠ []
  start : peek line ≠ cr
  unseparated : ¬ ascii ": " <+: line

/-- A line the loop gets past: any number of ": " in front of a line with a key. -/
inductive FieldLine : Bytes → Prop where
  | key {line} (valid : KeyLine line) : FieldLine line
  | separator {line} (rest : FieldLine line) : FieldLine (58 :: 32 :: line)

/-- What the loop reads from a line: the text before the first ": " or CR that
follows a key, and everything after. -/
def fieldOf : Bytes → HttpPair
  | 58 :: 32 :: line => fieldOf line
  | line => ⟨(scanKey line 0).key, (scanKey line 0).p⟩

def joinLines (lines : List Bytes) : Bytes := (lines.map (· ++ crlf)).flatten

@[simp] theorem joinLines_nil : joinLines [] = [] := rfl

@[simp] theorem joinLines_cons (line : Bytes) (lines : List Bytes) :
    joinLines (line :: lines) = line ++ (crlf ++ joinLines lines) := by
  simp [joinLines]

theorem joinLines_append (lines more : List Bytes) : joinLines (lines ++ more) = joinLines lines ++ joinLines more := by
  simp [joinLines]

private theorem KeyLine.key_ne_nil {line rest : Bytes} (valid : KeyLine line) (stop : peek rest = 0 ∨ peek rest = cr)
    (eof : Nat) : (scanKey (line ++ rest) eof).key ≠ [] := by
  rw [scanKey_append stop, Ne, scanKey_key_eq_nil]
  obtain ⟨c, line, rfl⟩ := List.exists_cons_of_ne_nil valid.nonempty
  rintro (nul | start | ⟨colon, blank⟩)
  · exact valid.free.nul (by simp [show c = 0 from nul])
  · exact valid.start start
  · cases line with
    | nil => exact absurd (show (0 : UInt8) = 32 from blank) (by decide)
    | cons d line => exact valid.unseparated ⟨line, by rw [show c = 58 from colon, show d = 32 from blank]; rfl⟩

theorem KeyLine.fieldOf_eq {line : Bytes} (valid : KeyLine line) :
    fieldOf line = ⟨(scanKey line 0).key, (scanKey line 0).p⟩ := by
  unfold fieldOf
  split
  next rest => exact absurd ⟨rest, rfl⟩ valid.unseparated
  next => rfl

theorem FieldLine.free {line : Bytes} (valid : FieldLine line) : Free crlf line := by
  induction valid with
  | key valid => exact valid.free
  | @separator line rest ih =>
    refine ⟨by simp [ih.nul], fun found => ?_⟩
    rcases List.infix_cons_iff.mp found with starts | found
    · exact absurd (List.cons_prefix_cons.mp starts).1 (by decide)
    · rcases List.infix_cons_iff.mp found with starts | found
      · exact absurd (List.cons_prefix_cons.mp starts).1 (by decide)
      · exact ih.absent found

variable {request : Bytes} {message : IncomingHttpMessage} {eof : Nat} {flag : Bool}

theorem headerStep_stop {p : Bytes} (stop : peek p = 0) :
    headerStep request ⟨message, p, eof, flag⟩ = .exit .incomplete := by
  simp only [headerStep, if_pos stop]

theorem headerStep_short {p : Bytes} (short : request.length < eof + 2) :
    headerStep request ⟨message, p, eof, flag⟩ = .exit .incomplete := by
  simp only [headerStep, gt_iff_lt, if_pos short, ite_self]

theorem headerStep_blank {more : Bytes} (room : eof + 2 ≤ request.length) :
    headerStep request ⟨message, crlf ++ more, eof, true⟩ = .exit (.complete message (eof + 2)) := by
  simp [headerStep, Nat.not_lt.mpr room]

/-- At a CR that does not end the header block a pass changes nothing but the flag. -/
theorem headerStep_stuck {c : UInt8} {more : Bytes} (room : eof + 2 ≤ request.length)
    (unfinished : flag = false ∨ c ≠ lf) :
    headerStep request ⟨message, cr :: c :: more, eof, flag⟩ = .next ⟨message, cr :: c :: more, eof, false⟩ := by
  have running : ¬ (c = lf ∧ flag = true) := by
    intro ⟨same, set⟩
    rcases unfinished with clear | differs
    · rw [clear] at set; cases set
    · exact differs same
  simp [headerStep, Nat.not_lt.mpr room, running, scanKey, show ¬ cr = 0 by decide]

theorem headerStep_separator {p : Bytes} (room : eof + 2 ≤ request.length) :
    headerStep request ⟨message, 58 :: 32 :: p, eof, flag⟩ = .next ⟨message, p, eof + 2, false⟩ := by
  simp [headerStep, Nat.not_lt.mpr room, scanKey, show ¬ (58 : UInt8) = cr by decide]

private theorem headerStep_key {line rest : Bytes} (valid : KeyLine line) (stop : peek rest = 0 ∨ peek rest = cr)
    (room : eof + 2 ≤ request.length) :
    headerStep request ⟨message, line ++ rest, eof, flag⟩ =
      let key := scanKey line eof
      let value := scanValue (key.p ++ rest) key.eof
      .next ⟨message.pushHeader ⟨key.key, value.value⟩, value.p, value.eof, value.headerLineEnd⟩ := by
  have found := valid.key_ne_nil stop eof
  obtain ⟨c, line, rfl⟩ := List.exists_cons_of_ne_nil valid.nonempty
  have nonzero : c ≠ 0 := fun same => valid.free.nul (by simp [same])
  have start : c ≠ cr := valid.start
  have running : ¬ (peek (c :: line ++ rest) = cr ∧ peek (c :: line ++ rest).tail = lf ∧ flag = true) :=
    fun both => start both.1
  rw [headerStep, if_neg (show peek (c :: line ++ rest) ≠ 0 from nonzero), if_neg (Nat.not_lt.mpr room), if_neg running]
  dsimp only
  rw [if_neg found, scanKey_append stop]

theorem headerStep_line {line more : Bytes} (valid : KeyLine line) (room : eof + 2 ≤ request.length) :
    headerStep request ⟨message, line ++ (crlf ++ more), eof, flag⟩ =
      .next ⟨message.pushHeader (fieldOf line), more, eof + line.length + 2, true⟩ := by
  have free : Free crlf (scanKey line eof).p := valid.free.of_infix (scanKey_suffix line eof).isInfix
  rw [headerStep_key valid (.inr rfl) room]
  dsimp only
  rw [scanValue_line free, valid.fieldOf_eq, (scanKey_offset line eof).1, (scanKey_offset line eof).2]
  have lock := scanKey_lock line eof
  rw [(scanKey_offset line eof).2] at lock
  simp only [Loop.Step.next.injEq, HeaderState.mk.injEq, true_and, and_true]
  omega

theorem headerStep_tail {line rest : Bytes} (valid : KeyLine line) (stop : peek rest = 0)
    (room : eof + 2 ≤ request.length) :
    ∃ message' eof', headerStep request ⟨message, line ++ rest, eof, flag⟩ = .next ⟨message', rest, eof', false⟩ := by
  have free : Free crlf (scanKey line eof).p := valid.free.of_infix (scanKey_suffix line eof).isInfix
  rw [headerStep_key valid (.inl stop) room]
  dsimp only
  rw [scanValue_end free stop]
  exact ⟨_, _, rfl⟩

end LibWebserver.IncomingHttpMessage
