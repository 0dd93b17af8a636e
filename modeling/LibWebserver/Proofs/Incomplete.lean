import LibWebserver.Proofs.Locality

/-! What "incomplete" promises. More bytes can complete a buffer or make it an error
unless the parser has come to a NUL, at which all its searches and loops end, or to a
CR at the end of the buffer that no byte can make the blank line. -/

namespace LibWebserver.IncomingHttpMessage
open CStr

/-- `Deserialize` returns true or throws. -/
def Decided (data : Bytes) : Prop :=
  (∃ message eof, deserialize data = some (.complete message eof)) ∨
    ∃ why message, deserialize data = some (.thrown (.deserializationError why) message)

/-- A header block in which a NUL, or a last CR in front of which no line has been
ended, comes before the blank line. -/
inductive Starved : Bool → Bytes → Prop where
  | nul {flag line} (valid : line = [] ∨ KeyLine line) (rest : Bytes) : Starved flag (line ++ 0 :: rest)
  | cr : Starved false [13]
  | separator {flag p} (later : Starved false p) : Starved flag (58 :: 32 :: p)
  | line {flag line p} (valid : KeyLine line) (later : Starved true p) : Starved flag (line ++ (crlf ++ p))

/-- A NUL in the first line, or a header block of this kind behind it. -/
inductive Unfinishable : Bytes → Prop where
  | first {line} (free : Free crlf line) (rest : Bytes) : Unfinishable (line ++ 0 :: rest)
  | block {data first p method uri} (split : data = first ++ (crlf ++ p)) (free : Free crlf first)
      (start : StartLine data method uri) (starved : Starved false p) : Unfinishable data

section Starved

variable {request : Bytes} {message : IncomingHttpMessage} {eof : Nat} {flag : Bool}

theorem Starved.exits {p : Bytes} (starved : Starved flag p) (more : Bytes)
    (lock : LockStep request ⟨message, p ++ more, eof, flag⟩) :
    Loop.Exits (headerStep request) ⟨message, p ++ more, eof, flag⟩ .incomplete ∨
      more ≠ [] ∧ Loop.Diverges (headerStep request) ⟨message, p ++ more, eof, flag⟩ := by
  induction starved generalizing message eof with
  | @nul flag line valid rest =>
    rw [List.append_assoc, List.cons_append] at lock ⊢
    have stop : peek (0 :: (rest ++ more)) = 0 := rfl
    rcases valid with rfl | valid
    · exact .inl (.of_exit (headerStep_stop stop))
    · by_cases room : eof + 2 ≤ request.length
      · obtain ⟨_, _, moves⟩ := headerStep_tail valid stop room
        exact .inl ((Loop.Exits.of_exit (headerStep_stop stop)).of_next moves)
      · exact .inl (.of_exit (headerStep_short (by omega)))
  | cr =>
    cases more with
    | nil =>
      simp only [List.append_nil, LockStep, List.length_singleton] at lock ⊢
      exact .inl (.of_exit (headerStep_short (by omega)))
    | cons c more => exact .inr ⟨by simp, (Stuck.cr more (.inl rfl)).diverges lock⟩
  | @separator flag p later ih =>
    have room : eof + 2 + (p ++ more).length = request.length := by
      simp only [LockStep, List.cons_append, List.length_cons] at lock
      omega
    have step : Loop.Reaches (headerStep request) ⟨message, 58 :: 32 :: (p ++ more), eof, flag⟩
        ⟨message, p ++ more, eof + 2, false⟩ := .head (headerStep_separator (by omega)) (.refl _)
    exact (ih room).imp step.exits fun waits => ⟨waits.1, step.diverges waits.2⟩
  | @line flag line p valid later ih =>
    have same : line ++ (crlf ++ p) ++ more = line ++ (crlf ++ (p ++ more)) := by simp
    rw [same] at lock ⊢
    have step := reaches_line (.key valid) lock
    have room : eof + line.length + 2 + (p ++ more).length = request.length := by
      simp only [LockStep, List.length_append, List.length_cons, List.length_nil] at lock ⊢
      omega
    exact (ih room).imp step.exits fun waits => ⟨waits.1, step.diverges waits.2⟩

end Starved

/-- No extension is decided, and the buffer itself is waited at. -/
theorem Unfinishable.undecided {data : Bytes} (unfinishable : Unfinishable data) (more : Bytes) :
    ¬ Decided (data ++ more) ∧ (more = [] → deserialize (data ++ more) = some .incomplete) := by
  have of_waits {whole : Bytes} (waits : deserialize whole = some .incomplete) :
      ¬ Decided whole ∧ (more = [] → deserialize whole = some .incomplete) := by
    refine ⟨?_, fun _ => waits⟩
    rintro (⟨_, _, done⟩ | ⟨_, _, done⟩)
    · rw [waits] at done; cases done
    · rw [waits] at done; cases done
  cases unfinishable with
  | @first line free rest =>
    apply of_waits
    apply deserialize_absent
    rw [List.append_assoc, List.cons_append, cstr_nul, cstr_of_not_mem free.nul]
    exact free.absent
  | @block data first p method uri split free start starved =>
    have whole : data ++ more = first ++ (crlf ++ (p ++ more)) := by simp [split]
    have grown := start.extend (List.prefix_append data more)
    have lock := lock_of_split whole { method, uri } false
    have ends := starved.exits more lock
    cases shape (data ++ more) with
    | unfinished waits => exact of_waits waits
    | malformed other freed bad =>
      exact absurd grown (bad method uri)
    | stuck other freed begins stuck =>
      have none := deserialize_stuck other freed begins stuck
      refine ⟨?_, fun empty => ?_⟩
      · rintro (⟨_, _, done⟩ | ⟨_, _, done⟩)
        · rw [deserialize, none] at done; cases done
        · rw [deserialize, none] at done; cases done
      · obtain ⟨rfl, rfl⟩ := Free.cut_unique (by decide) free freed (whole.symm.trans other)
        have spins := stuck.diverges lock
        rcases ends with exits | ⟨nonempty, _⟩
        · exact absurd ⟨_, exits⟩ (Loop.diverges_iff.mp spins)
        · exact absurd empty nonempty
    | block layout =>
      obtain ⟨same, rest⟩ := Free.cut_unique (by decide) layout.free free (layout.split.symm.trans whole)
      rw [← rest] at lock ends
      have exits := exits_complete layout.valid (.inr layout.nonempty) layout.body lock
      rcases ends with waits | ⟨_, spins⟩
      · cases exits.unique waits
      · exact absurd ⟨_, exits⟩ (Loop.diverges_iff.mp spins)

private theorem keyLine_host : KeyLine (ascii "a: b") := ⟨⟨by decide, by decide⟩, by decide, by decide, by decide⟩

/-- Bytes that bring a header block to its blank line. -/
def Completes (flag : Bool) (p more : Bytes) : Prop :=
  ∃ lines body, p ++ more = joinLines lines ++ (crlf ++ body) ∧ (∀ line ∈ lines, FieldLine line) ∧
    (flag = true ∨ lines ≠ [])

private theorem Completes.of_line {flag : Bool} {p more : Bytes} (valid : KeyLine (p ++ more)) :
    Completes flag p (more ++ (crlf ++ crlf)) := by
  refine ⟨[p ++ more], [], by simp, ?_, .inr (by simp)⟩
  intro line member
  rw [List.mem_singleton.mp member]
  exact .key valid

private theorem Completes.cons {flag : Bool} {line p more : Bytes} (valid : KeyLine line) (later : Completes true p more) :
    Completes flag (line ++ (crlf ++ p)) more := by
  obtain ⟨lines, body, same, all, _⟩ := later
  refine ⟨line :: lines, body, ?_, ?_, .inr (by simp)⟩
  · simp [same]
  · intro other member
    rcases List.mem_cons.mp member with rfl | member
    · exact .key valid
    · exact all other member

private theorem Completes.separator {flag : Bool} {p more : Bytes} (later : Completes false p more) :
    Completes flag (58 :: 32 :: p) more := by
  obtain ⟨lines, body, same, all, nonempty⟩ := later
  cases lines with
  | nil => simp at nonempty
  | cons line lines =>
    refine ⟨(58 :: 32 :: line) :: lines, body, ?_, ?_, .inr (by simp)⟩
    · simp [same]
    · intro other member
      rcases List.mem_cons.mp member with rfl | member
      · exact .separator (all line (by simp))
      · exact all other (by simp [member])

private theorem starved_or_completes (flag : Bool) {line rest : Bytes} (valid : line = [] ∨ KeyLine line)
    (stop : peek rest = 0) : Starved flag (line ++ rest) ∨ ∃ more, Completes flag (line ++ rest) more := by
  cases rest with
  | cons c rest =>
    obtain rfl : c = 0 := stop
    exact .inl (.nul valid rest)
  | nil =>
    rw [List.append_nil]
    rcases valid with rfl | valid
    · exact .inr ⟨_, .of_line keyLine_host⟩
    · exact .inr ⟨_, @Completes.of_line flag line [] (by rwa [List.append_nil])⟩

private theorem single_cases (flag : Bool) (c : UInt8) : Starved flag [c] ∨ ∃ more, Completes flag [c] more := by
  by_cases nul : c = 0
  · subst nul
    exact .inl (.nul (.inl rfl) [])
  by_cases start : c = 13
  · subst start
    cases flag with
    | false => exact .inl .cr
    | true => exact .inr ⟨[10], [], [], by simp, by simp, .inl rfl⟩
  · have valid : KeyLine [c] := by
      refine ⟨⟨by simpa using Ne.symm nul, fun found => ?_⟩, by simp, start, fun found => ?_⟩
      · exact absurd found.length_le (by simp)
      · exact absurd found.length_le (by simp [ascii])
    exact .inr ⟨_, @Completes.of_line flag [c] [] valid⟩

private theorem block_cases (flag : Bool) (p : Bytes) : Stuck flag p ∨ Starved flag p ∨ ∃ more, Completes flag p more := by
  induction same : p.length using Nat.strongRecOn generalizing flag p with
  | ind size ih =>
    cases ahead p with
    | stop nul => exact .inr (starved_or_completes flag (.inl rfl) nul)
    | single c => exact .inr (single_cases flag c)
    | cr c more =>
      by_cases blank : c = lf ∧ flag = true
      · obtain ⟨rfl, rfl⟩ := blank
        exact .inr (.inr ⟨[], [], more, by simp, by simp, .inl rfl⟩)
      · exact .inl (.cr more (unfinished_of_not blank))
    | separator more =>
      simp only [List.length_cons] at same
      rcases ih more.length (by omega) false more rfl with stuck | starved | ⟨rest, later⟩
      · exact .inl (.separator stuck)
      · exact .inr (.inl (.separator starved))
      · exact .inr (.inr ⟨rest, later.separator⟩)
    | @line line keyed more =>
      simp only [List.length_append, List.length_cons] at same
      rcases ih more.length (by omega) true more rfl with stuck | starved | ⟨rest, later⟩
      · exact .inl (.line keyed stuck)
      · exact .inr (.inl (.line keyed starved))
      · exact .inr (.inr ⟨rest, later.cons keyed⟩)
    | @tail line rest keyed stop => exact .inr (starved_or_completes flag (.inr keyed) stop)

/-- A header block that has an end, and a body as long as it declares. -/
private theorem decided_of_completes {data first p more uri : Bytes} {method : HttpMethod}
    (split : data = first ++ (crlf ++ p)) (free : Free crlf first) (start : StartLine data method uri)
    (completes : Completes false p more) : ∃ ext, Decided (data ++ ext) := by
  obtain ⟨lines, body, same, valid, nonempty⟩ := completes
  let rest : Bytes := List.replicate (pushLines {} lines).length 0
  let layout : Layout (data ++ (more ++ rest)) :=
    { first, method, uri, lines, body := body ++ rest
      split := by
        rw [split]
        simp only [List.append_assoc]
        rw [← List.append_assoc p, same]
        simp
      free
      start := start.extend (List.prefix_append data _)
      nonempty := nonempty.resolve_left (by decide)
      valid }
  have whole : layout.Whole := by
    have size := layout.length_eq
    have long : layout.contentLength ≤ layout.body.length := by
      change (pushLines {} lines).length ≤ (body ++ rest).length
      simp [rest]
    refine .inr (Nat.le_trans (Nat.mod_le _ _) ?_)
    omega
  refine ⟨more ++ rest, .inl ⟨layout.message, layout.eof, ?_⟩⟩
  rw [deserialize_layout layout, if_pos whole]

private theorem decided_of_lineless (free : Free crlf data) : ∃ ext, Decided (data ++ ext) := by
  by_cases begins : ∃ method uri, StartLine (data ++ (crlf ++ [])) method uri
  · obtain ⟨method, uri, start⟩ := begins
    obtain ⟨ext, decided⟩ := decided_of_completes rfl free start (.of_line keyLine_host)
    rw [List.append_assoc] at decided
    exact ⟨_, decided⟩
  · obtain ⟨why, message, thrown, _⟩ :=
      deserialize_bad rfl free fun method uri start => begins ⟨method, uri, start⟩
    exact ⟨_, .inr ⟨why, message, thrown⟩⟩

/-- A buffer that is waited at can be decided exactly when it is not of the kind that
no byte brings to an end. -/
theorem incomplete_extends_iff (data : Bytes) :
    (deserialize data = some .incomplete → ∃ ext, Decided (data ++ ext)) ↔ ¬ Unfinishable data := by
  constructor
  · intro promise unfinishable
    have waits := (unfinishable.undecided []).2 rfl
    rw [List.append_nil] at waits
    obtain ⟨ext, decided⟩ := promise waits
    exact (unfinishable.undecided ext).1 decided
  · intro finishable waits
    cases found : strstr crlf data with
    | none =>
      have absent := strstr_none (by decide) found
      obtain ⟨rest, same, stop⟩ := cstr_split data
      have free : Free crlf (cstr data) := ⟨not_mem_cstr data, absent⟩
      cases rest with
      | cons c rest =>
        obtain rfl : c = 0 := stop
        rw [same] at finishable
        exact absurd (.first free rest) finishable
      | nil =>
        rw [List.append_nil] at same
        rw [← same] at free
        exact decided_of_lineless free
    | some size =>
      obtain ⟨first, p, split, _, free⟩ := strstr_some (by decide) found
      by_cases begins : ∃ method uri, StartLine data method uri
      · obtain ⟨method, uri, start⟩ := begins
        rcases block_cases false p with stuck | starved | ⟨more, completes⟩
        · rw [deserialize, deserialize_stuck split free start stuck] at waits
          cases waits
        · exact absurd (.block split free start starved) finishable
        · exact decided_of_completes split free start completes
      · obtain ⟨why, message, thrown, _⟩ :=
          deserialize_bad split free fun method uri start => begins ⟨method, uri, start⟩
        rw [waits] at thrown
        cases thrown

/-- After one NUL every further byte is only kept. -/
theorem nul_buffers :
    ¬ ∀ data : Bytes, deserialize data = some .incomplete → ∃ ext, Decided (data ++ ext) := by
  intro always
  obtain ⟨ext, decided⟩ := always [0] (by decide +kernel)
  have waits : deserialize ([0] ++ ext) = some .incomplete := by
    simp [deserialize, deserializeWithin, CString.isEmpty]
  rcases decided with ⟨_, _, done⟩ | ⟨_, _, done⟩
  · rw [waits] at done; cases done
  · rw [waits] at done; cases done

end LibWebserver.IncomingHttpMessage
