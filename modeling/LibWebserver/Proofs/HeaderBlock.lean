import LibWebserver.Proofs.Header

/-! What the header loop does with a whole buffer: it takes field lines up to a
blank line, stops for want of bytes, or comes to a CR it never gets past. -/

namespace LibWebserver.IncomingHttpMessage
open CStr

/-- The shapes the rest of a buffer can have at the start of a pass. -/
inductive Ahead : Bytes → Prop where
  | stop {p} (nul : peek p = 0) : Ahead p
  | single (c : UInt8) : Ahead [c]
  | cr (c : UInt8) (more : Bytes) : Ahead (13 :: c :: more)
  | separator (more : Bytes) : Ahead (58 :: 32 :: more)
  | line {line} (valid : KeyLine line) (more : Bytes) : Ahead (line ++ (crlf ++ more))
  | tail {line rest} (valid : KeyLine line) (stop : peek rest = 0) : Ahead (line ++ rest)

private theorem keyLine_of_start {p line rest : Bytes} (same : p = line ++ rest) (free : Free crlf line)
    (nonempty : line ≠ []) (start : peek p ≠ cr) (unseparated : ¬ ascii ": " <+: p) : KeyLine line := by
  refine ⟨free, nonempty, ?_, fun found => unseparated (same ▸ found.trans (List.prefix_append line rest))⟩
  obtain ⟨c, line, rfl⟩ := List.exists_cons_of_ne_nil nonempty
  rw [same] at start
  exact start

theorem ahead (p : Bytes) : Ahead p := by
  by_cases nul : peek p = 0
  · exact .stop nul
  by_cases start : peek p = cr
  · match p with
    | [c] => exact .single c
    | c :: d :: more => rw [show c = 13 from start]; exact .cr d more
  by_cases separator : ascii ": " <+: p
  · obtain ⟨more, rfl⟩ := separator
    exact .separator more
  cases found : strstr crlf p with
  | some size =>
    obtain ⟨line, more, same, _, free⟩ := strstr_some (by decide) found
    have nonempty : line ≠ [] := by
      rintro rfl
      rw [same] at start
      exact start rfl
    have valid := keyLine_of_start same free nonempty start separator
    rw [same]
    exact .line valid more
  | none =>
    obtain ⟨rest, same, stop⟩ := cstr_split p
    have free : Free crlf (cstr p) := ⟨not_mem_cstr p, strstr_none (by decide) found⟩
    have nonempty : cstr p ≠ [] := by
      intro empty
      rw [empty] at same
      exact nul (same ▸ stop)
    have valid := keyLine_of_start same free nonempty start separator
    rw [same]
    exact .tail valid stop

variable {request : Bytes} {message : IncomingHttpMessage} {eof : Nat} {flag : Bool}

/-- The buffer behind a header state: the pointer and `eof` move in lock step. -/
def LockStep (request : Bytes) (state : HeaderState) : Prop := state.eof + state.p.length = request.length

private theorem LockStep.pair {c d : UInt8} {more : Bytes} (lock : LockStep request ⟨message, c :: d :: more, eof, flag⟩) :
    eof + 2 + more.length = request.length := by
  simp only [LockStep, List.length_cons] at lock
  omega

private theorem LockStep.line {line more : Bytes}
    (lock : LockStep request ⟨message, line ++ (crlf ++ more), eof, flag⟩) :
    eof + line.length + 2 + more.length = request.length := by
  simp only [LockStep, List.length_append, List.length_cons, List.length_nil] at lock
  omega

def pushLines (message : IncomingHttpMessage) (lines : List Bytes) : IncomingHttpMessage :=
  lines.foldl (fun message line => message.pushHeader (fieldOf line)) message

theorem reaches_line {line more : Bytes} (valid : FieldLine line)
    (lock : LockStep request ⟨message, line ++ (crlf ++ more), eof, flag⟩) :
    Loop.Reaches (headerStep request) ⟨message, line ++ (crlf ++ more), eof, flag⟩
      ⟨message.pushHeader (fieldOf line), more, eof + line.length + 2, true⟩ := by
  induction valid generalizing eof flag with
  | key valid =>
    have room := lock.line
    exact Loop.Reaches.head (headerStep_line valid (by omega)) (Loop.Reaches.refl _)
  | @separator line rest ih =>
    have room := LockStep.pair lock
    apply Loop.Reaches.head (headerStep_separator (by omega))
    have later := @ih (eof + 2) false room
    rw [List.length_cons, List.length_cons, show eof + (line.length + 1 + 1) + 2 = eof + 2 + line.length + 2 by omega]
    exact later

theorem reaches_lines {lines : List Bytes} (valid : ∀ line ∈ lines, FieldLine line) (rest : Bytes)
    (lock : LockStep request ⟨message, joinLines lines ++ rest, eof, flag⟩) :
    Loop.Reaches (headerStep request) ⟨message, joinLines lines ++ rest, eof, flag⟩
      ⟨pushLines message lines, rest, eof + (joinLines lines).length, flag || !lines.isEmpty⟩ := by
  induction lines generalizing message eof flag with
  | nil =>
    simp only [joinLines_nil, List.nil_append, List.length_nil, Nat.add_zero, List.isEmpty_nil, Bool.not_true,
      Bool.or_false]
    exact Loop.Reaches.refl _
  | cons line lines ih =>
    have split : joinLines (line :: lines) ++ rest = line ++ (crlf ++ (joinLines lines ++ rest)) := by simp
    have size : (joinLines (line :: lines)).length = line.length + 2 + (joinLines lines).length := by
      simp only [joinLines_cons, List.length_append, List.length_cons, List.length_nil]; omega
    rw [split] at lock ⊢
    apply Loop.Reaches.trans (reaches_line (valid line (by simp)) lock)
    have later := @ih (message.pushHeader (fieldOf line)) _ true (fun other member => valid other (by simp [member]))
      lock.line
    rw [size, ← Nat.add_assoc, ← Nat.add_assoc]
    simpa [pushLines] using later

private theorem flag_of_some {lines : List Bytes} (some : flag = true ∨ lines ≠ []) :
    (flag || !lines.isEmpty) = true := by
  rcases some with set | nonempty
  · simp [set]
  · cases lines with
    | nil => exact absurd rfl nonempty
    | cons line lines => simp

theorem exits_complete {lines : List Bytes} (valid : ∀ line ∈ lines, FieldLine line)
    (some : flag = true ∨ lines ≠ []) (rest : Bytes)
    (lock : LockStep request ⟨message, joinLines lines ++ (crlf ++ rest), eof, flag⟩) :
    Loop.Exits (headerStep request) ⟨message, joinLines lines ++ (crlf ++ rest), eof, flag⟩
      (.complete (pushLines message lines) (eof + (joinLines lines).length + 2)) := by
  apply (reaches_lines valid (crlf ++ rest) lock).exits
  rw [flag_of_some some]
  have room := lock.line
  exact Loop.Exits.of_exit (headerStep_blank (by omega))

theorem unfinished_of_not {c : UInt8} (other : ¬ (c = lf ∧ flag = true)) : flag = false ∨ c ≠ lf := by
  cases flag with
  | false => exact .inl rfl
  | true => exact .inr fun same => other ⟨same, rfl⟩

theorem FieldLine.start {line : Bytes} (valid : FieldLine line) (more : Bytes) : peek (line ++ more) ≠ cr := by
  cases valid with
  | key keyed =>
    obtain ⟨c, line, rfl⟩ := List.exists_cons_of_ne_nil keyed.nonempty
    exact keyed.start
  | separator rest => exact (by decide : (58 : UInt8) ≠ cr)

private theorem joinLines_start {line : Bytes} (valid : FieldLine line) (lines : List Bytes) (rest : Bytes) :
    peek (joinLines (line :: lines) ++ rest) ≠ cr := by
  rw [joinLines_cons, List.append_assoc]
  exact valid.start _

theorem joinLines_unique {lines others : List Bytes} (valid : ∀ line ∈ lines, FieldLine line)
    (good : ∀ line ∈ others, FieldLine line) {p q : Bytes}
    (same : joinLines lines ++ (crlf ++ p) = joinLines others ++ (crlf ++ q)) : lines = others ∧ p = q := by
  induction lines generalizing others with
  | nil =>
    cases others with
    | nil => exact ⟨rfl, List.append_cancel_left same⟩
    | cons line others => exact absurd (congrArg peek same.symm) (joinLines_start (good line (by simp)) others _)
  | cons line lines ih =>
    have left : FieldLine line := valid line (by simp)
    cases others with
    | nil => exact absurd (congrArg peek same) (joinLines_start left lines _)
    | cons other others =>
      simp only [joinLines_cons, List.append_assoc] at same
      obtain ⟨rfl, after⟩ := Free.cut_unique (by decide) left.free (good other (by simp)).free same
      obtain ⟨rfl, rest⟩ := ih (fun line member => valid line (by simp [member]))
        (fun line member => good line (by simp [member])) after
      exact ⟨rfl, rest⟩

/-- What the loop can come to: it waits, or has read the lines of a whole header block. -/
def Settles (message : IncomingHttpMessage) (p : Bytes) (eof : Nat) (flag : Bool) (result : Outcome) : Prop :=
  result = .incomplete ∨ ∃ lines rest, p = joinLines lines ++ (crlf ++ rest) ∧
    (∀ line ∈ lines, FieldLine line) ∧ (flag = true ∨ lines ≠ []) ∧
    result = .complete (pushLines message lines) (eof + (joinLines lines).length + 2)

section Settles
variable {result : Outcome}

theorem Settles.cr {c : UInt8} {more : Bytes} (settles : Settles message (13 :: c :: more) eof false result) :
    result = .incomplete := by
  rcases settles with waits | ⟨lines, rest, same, valid, nonempty, _⟩
  · exact waits
  · cases lines with
    | nil => simp at nonempty
    | cons line lines => exact absurd (congrArg peek same.symm) (joinLines_start (valid line (by simp)) lines _)

theorem Settles.separator {more : Bytes} (settles : Settles message more (eof + 2) false result) :
    Settles message (58 :: 32 :: more) eof flag result := by
  rcases settles with waits | ⟨lines, rest, same, valid, nonempty, reached⟩
  · exact .inl waits
  · cases lines with
    | nil => simp at nonempty
    | cons line lines =>
      refine .inr ⟨(58 :: 32 :: line) :: lines, rest, ?_, ?_, .inr (by simp), ?_⟩
      · simp [same]
      · intro other member
        rcases List.mem_cons.mp member with rfl | member
        · exact .separator (valid line (by simp))
        · exact valid other (by simp [member])
      · rw [reached]
        simp only [pushLines, List.foldl_cons, fieldOf, joinLines_cons, List.length_append, List.length_cons,
          Outcome.complete.injEq, true_and]
        omega

theorem Settles.line {line more : Bytes} (keyed : KeyLine line)
    (settles : Settles (message.pushHeader (fieldOf line)) more (eof + line.length + 2) true result) :
    Settles message (line ++ (crlf ++ more)) eof flag result := by
  rcases settles with waits | ⟨lines, rest, same, valid, _, reached⟩
  · exact .inl waits
  · refine .inr ⟨line :: lines, rest, by simp [same], ?_, .inr (by simp), ?_⟩
    · intro other member
      rcases List.mem_cons.mp member with rfl | member
      · exact .key keyed
      · exact valid other member
    · rw [reached]
      simp only [pushLines, List.foldl_cons, joinLines_cons, List.length_append, List.length_cons, List.length_nil,
        Outcome.complete.injEq, true_and]
      omega

end Settles

/-- The loop succeeds on nothing else. -/
theorem complete_lines {fuel : Nat} {p : Bytes} {result : Outcome} (lock : LockStep request ⟨message, p, eof, flag⟩)
    (done : Loop.run (headerStep request) fuel ⟨message, p, eof, flag⟩ = some result) :
    Settles message p eof flag result := by
  induction fuel generalizing message p eof flag with
  | zero => cases done
  | succ fuel ih =>
    cases ahead p with
    | stop nul => rw [Loop.run_exit fuel (headerStep_stop nul)] at done; exact .inl (Option.some.inj done).symm
    | single c =>
      simp only [LockStep, List.length_singleton] at lock
      rw [Loop.run_exit fuel (headerStep_short (by omega))] at done
      exact .inl (Option.some.inj done).symm
    | cr c more =>
      have room : eof + 2 ≤ request.length := by have room := lock.pair; omega
      by_cases blank : c = lf ∧ flag = true
      · obtain ⟨rfl, rfl⟩ := blank
        have leaves : headerStep request ⟨message, crlf ++ more, eof, true⟩ = _ := headerStep_blank room
        exact .inr ⟨[], more, rfl, by simp, .inl rfl, Option.some.inj (done.symm.trans (Loop.run_exit fuel leaves))⟩
      · rw [Loop.run_next fuel (headerStep_stuck room (unfinished_of_not blank))] at done
        have held : LockStep request ⟨message, 13 :: c :: more, eof, false⟩ := lock
        exact .inl (ih held done).cr
    | separator more =>
      have room := lock.pair
      rw [Loop.run_next fuel (headerStep_separator (by omega))] at done
      exact (ih room done).separator
    | @line line keyed more =>
      have room := lock.line
      rw [Loop.run_next fuel (headerStep_line keyed (by omega))] at done
      exact (ih room done).line keyed
    | @tail line rest keyed stop =>
      by_cases room : eof + 2 ≤ request.length
      · obtain ⟨message', eof', moves⟩ := headerStep_tail keyed stop room
        rw [Loop.run_next fuel moves] at done
        cases fuel with
        | zero => cases done
        | succ fuel => rw [Loop.run_exit fuel (headerStep_stop stop)] at done; exact .inl (Option.some.inj done).symm
      · rw [Loop.run_exit fuel (headerStep_short (by omega))] at done
        exact .inl (Option.some.inj done).symm

/-- A CR the loop never gets past: behind lines with a key and separators, not
the blank line that ends a header block, and with one more byte in the buffer. -/
inductive Stuck : Bool → Bytes → Prop where
  | cr {flag c} (more : Bytes) (unfinished : flag = false ∨ c ≠ lf) : Stuck flag (13 :: c :: more)
  | separator {flag p} (later : Stuck false p) : Stuck flag (58 :: 32 :: p)
  | line {flag line p} (valid : KeyLine line) (later : Stuck true p) : Stuck flag (line ++ (crlf ++ p))

theorem Stuck.diverges {p : Bytes} (stuck : Stuck flag p) (lock : LockStep request ⟨message, p, eof, flag⟩) :
    Loop.Diverges (headerStep request) ⟨message, p, eof, flag⟩ := by
  induction stuck generalizing message eof with
  | @cr flag c more unfinished =>
    have room : eof + 2 ≤ request.length := by have room := lock.pair; omega
    apply Loop.Diverges.of_invariant
      (fun state => ∃ flag, state = ⟨message, 13 :: c :: more, eof, flag⟩ ∧ (flag = false ∨ c ≠ lf))
    · rintro state ⟨flag, rfl, unfinished⟩
      exact ⟨_, headerStep_stuck room unfinished, false, rfl, .inl rfl⟩
    · exact ⟨flag, rfl, unfinished⟩
  | @separator flag p later ih =>
    have room := lock.pair
    apply (Loop.Reaches.head (headerStep_separator (by omega)) (Loop.Reaches.refl _)).diverges
    exact ih room
  | @line flag line p valid later ih =>
    apply (reaches_line (.key valid) lock).diverges
    exact ih lock.line

/-- More passes than bytes decide whether the loop ends. -/
theorem stuck_or_exits (p : Bytes) (lock : LockStep request ⟨message, p, eof, flag⟩) :
    Stuck flag p ∨ ∃ result, Loop.run (headerStep request) (p.length + 1) ⟨message, p, eof, flag⟩ = some result := by
  induction same : p.length using Nat.strongRecOn generalizing p message eof flag with
  | ind size ih =>
    cases ahead p with
    | stop nul => exact .inr ⟨_, Loop.run_exit size (headerStep_stop nul)⟩
    | single c =>
      simp only [LockStep, List.length_singleton] at lock
      exact .inr ⟨_, Loop.run_exit size (headerStep_short (by omega))⟩
    | cr c more =>
      have room : eof + 2 ≤ request.length := by have room := lock.pair; omega
      by_cases blank : c = lf ∧ flag = true
      · obtain ⟨rfl, rfl⟩ := blank
        exact .inr ⟨_, Loop.run_exit size (headerStep_blank room)⟩
      · exact .inl (.cr more (unfinished_of_not blank))
    | separator more =>
      have room := lock.pair
      simp only [List.length_cons] at same
      rcases ih more.length (by omega) more room rfl with stuck | ⟨result, done⟩
      · exact .inl (.separator stuck)
      · have moves : headerStep request ⟨message, 58 :: 32 :: more, eof, flag⟩ = _ := headerStep_separator (by omega)
        exact .inr ⟨result, (Loop.run_next size moves).trans (Loop.run_more done (by omega))⟩
    | @line line keyed more =>
      have room := lock.line
      simp only [List.length_append, List.length_cons, List.length_nil] at same
      rcases ih more.length (by omega) more room rfl with stuck | ⟨result, done⟩
      · exact .inl (.line keyed stuck)
      · have moves : headerStep request ⟨message, line ++ (crlf ++ more), eof, flag⟩ = _ :=
          headerStep_line keyed (by omega)
        exact .inr ⟨result, (Loop.run_next size moves).trans (Loop.run_more done (by omega))⟩
    | @tail line rest keyed stop =>
      by_cases room : eof + 2 ≤ request.length
      · have nonempty := List.length_pos_iff.mpr keyed.nonempty
        rw [List.length_append] at same
        obtain ⟨size, rfl⟩ := Nat.exists_eq_add_of_le' (show 1 ≤ size by omega)
        obtain ⟨message', eof', moves⟩ := headerStep_tail keyed stop room
        exact .inr ⟨_, (Loop.run_next _ moves).trans (Loop.run_exit size (headerStep_stop stop))⟩
      · exact .inr ⟨_, Loop.run_exit size (headerStep_short (by omega))⟩

theorem run_of_exits {p : Bytes} {fuel : Nat} {result : Outcome} (lock : LockStep request ⟨message, p, eof, flag⟩)
    (exits : Loop.Exits (headerStep request) ⟨message, p, eof, flag⟩ result) (enough : p.length < fuel) :
    Loop.run (headerStep request) fuel ⟨message, p, eof, flag⟩ = some result := by
  rcases stuck_or_exits p lock with stuck | ⟨other, done⟩
  · exact absurd ⟨result, exits⟩ (Loop.diverges_iff.mp (stuck.diverges lock))
  · rw [exits.unique ⟨_, done⟩]
    exact Loop.run_more done enough

end LibWebserver.IncomingHttpMessage
