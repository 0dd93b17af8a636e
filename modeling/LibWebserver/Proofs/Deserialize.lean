import LibWebserver.Proofs.FirstLine
import LibWebserver.Proofs.HeaderBlock
import LibWebserver.Proofs.Query

/-! What `Deserialize` makes of a buffer. A buffer with a first line is either
malformed there, or a layout of first line, field lines, blank line and body, or
unfinished, or one the header loop never gets past. -/

namespace LibWebserver.IncomingHttpMessage
open CStr

private theorem pushHeader_frame (self : IncomingHttpMessage) (method : HttpMethod) (uri : Bytes) (pair : HttpPair) :
    pushHeader { self with method, uri } pair = { pushHeader self pair with method, uri } := by
  unfold pushHeader
  split
  · rfl
  · dsimp only
    repeat' split
    all_goals rfl

theorem pushLines_frame (self : IncomingHttpMessage) (method : HttpMethod) (uri : Bytes) (lines : List Bytes) :
    pushLines { self with method, uri } lines = { pushLines self lines with method, uri } := by
  induction lines generalizing self with
  | nil => rfl
  | cons line lines ih =>
    simp only [pushLines, List.foldl_cons, pushHeader_frame] at ih ⊢
    exact ih _

theorem pushHeader_queries (self : IncomingHttpMessage) (pair : HttpPair) :
    (self.pushHeader pair).queries = self.queries := by
  unfold pushHeader
  split
  · rfl
  · dsimp only
    repeat' split
    all_goals rfl

theorem pushLines_queries (self : IncomingHttpMessage) (lines : List Bytes) :
    (pushLines self lines).queries = self.queries := by
  induction lines generalizing self with
  | nil => rfl
  | cons line lines ih => rw [← pushHeader_queries self (fieldOf line)]; exact ih _

/-- The queries of a message: those of the uri behind its first '?', or of the
text from the body on. -/
def queriesOf (method : HttpMethod) (uri body : Bytes) : List HttpPair :=
  match method with
  | .get => match strstr (ascii "?") uri with
    | none => []
    | some p => parseQueries (uri.drop p)
  | .post | .response => parseQueries body

private theorem drop_of_split {data text body : Bytes} (split : data = text ++ body) :
    data.drop text.length = body := by
  rw [split, List.drop_left]

/-- A buffer that holds a whole header block. -/
structure Layout (data : Bytes) where
  first : Bytes
  method : HttpMethod
  uri : Bytes
  lines : List Bytes
  body : Bytes
  split : data = first ++ (crlf ++ (joinLines lines ++ (crlf ++ body)))
  free : Free crlf first
  start : StartLine data method uri
  nonempty : lines ≠ []
  valid : ∀ line ∈ lines, FieldLine line

namespace Layout

variable {data : Bytes}

/-- Offset just after the blank line. -/
def headLength (layout : Layout data) : Nat := layout.first.length + 2 + (joinLines layout.lines).length + 2

/-- The value of the last Content-Length, 0 without one. -/
def contentLength (layout : Layout data) : Nat := (pushLines {} layout.lines).length

def eof (layout : Layout data) : Nat := addSize layout.headLength layout.contentLength

def message (layout : Layout data) : IncomingHttpMessage :=
  { pushLines {} layout.lines with
    method := layout.method, uri := layout.uri, queries := queriesOf layout.method layout.uri layout.body }

/-- What is compared with the length of the buffer before a message is accepted. -/
def Whole (layout : Layout data) : Prop := layout.method = .get ∨ layout.eof ≤ data.length

instance (layout : Layout data) : Decidable layout.Whole := by unfold Whole; infer_instance

theorem length_eq (layout : Layout data) : data.length = layout.headLength + layout.body.length := by
  conv => lhs; rw [layout.split]
  simp only [headLength, List.length_append, List.length_cons, List.length_nil]
  omega

theorem drop_headLength (layout : Layout data) : data.drop layout.headLength = layout.body := by
  have size : layout.headLength = (layout.first ++ (crlf ++ (joinLines layout.lines ++ crlf))).length := by
    simp only [headLength, List.length_append, List.length_cons, List.length_nil]
    omega
  have split : data = (layout.first ++ (crlf ++ (joinLines layout.lines ++ crlf))) ++ layout.body := by
    simpa using layout.split
  rw [size]
  exact drop_of_split split

end Layout

theorem StartLine.unique {data one two : Bytes} {method other : HttpMethod} {first p : Bytes}
    (split : data = first ++ (crlf ++ p)) (free : Free crlf first) (start : StartLine data method one)
    (same : StartLine data other two) : method = other ∧ one = two := by
  have left := deserializeMethod_start split free start
  rw [deserializeMethod_start split free same] at left
  simp only [Outcome.complete.injEq, IncomingHttpMessage.mk.injEq, and_true] at left
  exact ⟨left.1.symm, left.2.symm⟩

instance (data : Bytes) : Subsingleton (Layout data) := by
  refine ⟨fun one two => ?_⟩
  obtain ⟨first, method, uri, lines, body, split, free, start, _, valid⟩ := one
  obtain ⟨other, method', uri', lines', body', split', free', start', _, valid'⟩ := two
  obtain ⟨rfl, rfl⟩ := start.unique split free start'
  obtain ⟨rfl, rest⟩ := Free.cut_unique (by decide) free free' (split.symm.trans split')
  obtain ⟨rfl, rfl⟩ := joinLines_unique valid valid' rest
  rfl

private theorem pushQueries_more {self : IncomingHttpMessage} {p : Bytes} {fuel more eof : Nat} {result : Outcome}
    (done : self.pushQueries fuel p eof = some result) (le : fuel ≤ more) :
    self.pushQueries more p eof = some result := by
  obtain ⟨queries, found, same⟩ := Option.map_eq_some_iff.mp done
  rw [pushQueries, Loop.run_more found le, Option.map_some, same]

private theorem deserializeQuery_more {self : IncomingHttpMessage} {request : Bytes} {fuel more eof : Nat}
    {result : Outcome} (done : self.deserializeQuery fuel request eof = some result) (le : fuel ≤ more) :
    self.deserializeQuery more request eof = some result := by
  have late {p : Bytes} {eof : Nat} (done : self.pushQueries fuel p eof = some result) :
      self.pushQueries more p eof = some result := pushQueries_more done le
  unfold deserializeQuery at done ⊢
  cases kind : self.method with
  | get =>
    rw [kind] at done
    dsimp only at done ⊢
    split
    next missing => rw [missing] at done; exact done
    next found => rw [found] at done; exact late done
  | post =>
    rw [kind] at done
    dsimp only at done ⊢
    split
    next short => rw [if_pos short] at done; exact done
    next fits => rw [if_neg fits] at done; exact late done
  | response =>
    rw [kind] at done
    dsimp only at done ⊢
    split
    next short => rw [if_pos short] at done; exact done
    next fits => rw [if_neg fits] at done; exact late done

private theorem deserializeHeader_more {self : IncomingHttpMessage} {request : Bytes} {fuel more eof : Nat}
    {result : Outcome} (done : self.deserializeHeader fuel request eof = some result) (le : fuel ≤ more) :
    self.deserializeHeader more request eof = some result := by
  unfold deserializeHeader at done ⊢
  split
  next short => rw [if_pos short] at done; exact done
  next fits => rw [if_neg fits] at done; exact Loop.run_more done le

theorem deserializeWithin_more {data : Bytes} {fuel more : Nat} {result : Outcome}
    (done : deserializeWithin fuel data = some result) (le : fuel ≤ more) :
    deserializeWithin more data = some result := by
  unfold deserializeWithin at done ⊢
  split
  next empty => rw [if_pos empty] at done; exact done
  next nonempty =>
    rw [if_neg nonempty] at done
    cases first : deserializeMethod {} data with
    | incomplete => rw [first] at done; exact done
    | thrown error message => rw [first] at done; exact done
    | complete message eof =>
      rw [first] at done
      dsimp only at done ⊢
      cases header : message.deserializeHeader fuel data eof with
      | none => rw [header] at done; cases done
      | some outcome =>
        rw [header] at done
        rw [deserializeHeader_more header le]
        cases outcome with
        | incomplete => exact done
        | thrown error message => exact done
        | complete message eof => exact deserializeQuery_more done le

section Stages

variable {data first p uri : Bytes} {method : HttpMethod}

private theorem nonempty_of_split (split : data = first ++ (crlf ++ p)) (free : Free crlf first) :
    CString.isEmpty data = false := by
  cases first with
  | nil => rw [split]; rfl
  | cons c first =>
    have nonzero : c ≠ 0 := fun same => free.nul (by simp [same])
    simp [CString.isEmpty, split, nonzero]

theorem lock_of_split (split : data = first ++ (crlf ++ p)) (message : IncomingHttpMessage) (flag : Bool) :
    LockStep data ⟨message, p, first.length + 2, flag⟩ := by
  simp only [LockStep, split, List.length_append, List.length_cons, List.length_nil]
  omega

private theorem deserializeHeader_eq (split : data = first ++ (crlf ++ p)) (fuel : Nat) (self : IncomingHttpMessage) :
    deserializeHeader (fuel + 1) self data (first.length + 2) =
      Loop.run (headerStep data) (fuel + 1) ⟨self, p, first.length + 2, false⟩ := by
  have size := lock_of_split split self false
  simp only [LockStep] at size
  rw [deserializeHeader]
  split
  next short =>
    have none : p = [] := List.length_eq_zero_iff.mp (by omega)
    rw [none, Loop.run_exit fuel (headerStep_stop rfl)]
  next =>
    have after : data.drop (first.length + 2) = p := by
      have whole : data = (first ++ crlf) ++ p := by rw [split, List.append_assoc]
      have size : first.length + 2 = (first ++ crlf).length := by simp
      rw [size]
      exact drop_of_split whole
    rw [after]

private theorem deserializeWithin_eq (split : data = first ++ (crlf ++ p)) (free : Free crlf first)
    (start : StartLine data method uri) (fuel : Nat) :
    deserializeWithin (fuel + 1) data =
      match Loop.run (headerStep data) (fuel + 1) ⟨{ method, uri }, p, first.length + 2, false⟩ with
      | some (.complete message eof) => message.deserializeQuery (fuel + 1) data eof
      | other => other := by
  rw [← deserializeHeader_eq split, deserializeWithin, nonempty_of_split split free,
    deserializeMethod_start split free start]
  rfl

theorem deserialize_absent (absent : ¬ crlf <:+: cstr data) : deserialize data = some .incomplete := by
  rw [deserialize, deserializeWithin]
  split
  · rfl
  · have missing : CString.pos data crlf = none := by
      cases found : strstr crlf data with
      | none => exact found
      | some size =>
        obtain ⟨l, q, same, _, free⟩ := strstr_some (by decide) found
        refine absurd ⟨l, cstr q, ?_⟩ absent
        rw [same, cstr_append free.nul, cstr_append (by decide), List.append_assoc]
    rw [deserializeMethod, missing]

theorem deserialize_bad (split : data = first ++ (crlf ++ p)) (free : Free crlf first)
    (bad : ∀ method uri, ¬ StartLine data method uri) :
    ∃ why message, deserialize data = some (.thrown (.deserializationError why) message) ∧
      message.requestId = none := by
  obtain ⟨why, message, same, anonymous⟩ := deserializeMethod_bad split free bad
  refine ⟨why, message, ?_, anonymous⟩
  rw [deserialize, deserializeWithin, nonempty_of_split split free, same]
  rfl

theorem deserialize_stuck (split : data = first ++ (crlf ++ p)) (free : Free crlf first)
    (start : StartLine data method uri) (stuck : Stuck false p) (fuel : Nat) : deserializeWithin fuel data = none := by
  have later : deserializeWithin (fuel + 1) data = none := by
    rw [deserializeWithin_eq split free start, stuck.diverges (lock_of_split split _ _) (fuel + 1)]
  cases done : deserializeWithin fuel data with
  | none => rfl
  | some result =>
    rw [deserializeWithin_more done (Nat.le_succ fuel)] at later
    cases later

private theorem StartLine.length_le (start : StartLine data method uri) : uri.length ≤ data.length := by
  cases start with
  | post _ rest same => rw [same]; simp only [List.length_append]; omega
  | get _ rest same => rw [same]; simp only [List.length_append]; omega
  | response _ => exact Nat.zero_le _

private theorem deserializeQuery_eq {self : IncomingHttpMessage} {request : Bytes} {fuel eof : Nat}
    (long : self.uri.length < fuel) (enough : request.length < fuel) (fresh : self.queries = []) :
    self.deserializeQuery fuel request eof = some (
      if self.method = .get ∨ addSize eof self.length ≤ request.length then
        .complete { self with queries := queriesOf self.method self.uri (request.drop eof) } (addSize eof self.length)
      else .incomplete) := by
  have drop_lt {s : Bytes} (small : s.length < fuel) (n : Nat) : (s.drop n).length < fuel := by
    rw [List.length_drop]; omega
  obtain ⟨method, uri, length, isPersistent, headers, queries, requestId⟩ := self
  cases fresh
  cases method with
  | get =>
    rw [if_pos (.inl rfl), deserializeQuery, queriesOf]
    cases seen : strstr (ascii "?") uri with
    | none => rfl
    | some p => exact pushQueries_eq (drop_lt long p) _ _
  | post | response =>
    simp only [deserializeQuery, queriesOf, reduceCtorEq, false_or]
    split
    next short => rw [if_neg (Nat.not_le.mpr short)]
    next fits => rw [if_pos (Nat.not_lt.mp fits)]; exact pushQueries_eq (drop_lt enough eof) _ _

/-- A whole header block is followed by the query stage, which only may find the body short. -/
theorem deserialize_layout (layout : Layout data) :
    deserialize data = some (if layout.Whole then .complete layout.message layout.eof else .incomplete) := by
  have lock : LockStep data ⟨{ method := layout.method, uri := layout.uri },
      joinLines layout.lines ++ (crlf ++ layout.body), layout.first.length + 2, false⟩ := lock_of_split layout.split _ _
  have exits := exits_complete layout.valid (.inr layout.nonempty) layout.body lock
  have small : (joinLines layout.lines ++ (crlf ++ layout.body)).length < data.length + 1 := by
    simp only [LockStep] at lock; omega
  have frame := pushLines_frame {} layout.method layout.uri layout.lines
  have long := Nat.lt_succ_of_le layout.start.length_le
  rw [deserialize, deserializeWithin_eq layout.split layout.free layout.start, run_of_exits lock exits small]
  dsimp only
  have fresh : { pushLines {} layout.lines with
    method := layout.method, uri := layout.uri : IncomingHttpMessage }.queries = [] := pushLines_queries {} layout.lines
  rw [frame]
  apply (deserializeQuery_eq long (Nat.lt_succ_self _) fresh).trans
  dsimp only
  rw [← Layout.headLength, layout.drop_headLength]
  rfl

/-- A header block that is not whole, and not one the loop is stuck in, is waited for. -/
private theorem layout_of_complete (split : data = first ++ (crlf ++ p)) (free : Free crlf first)
    (start : StartLine data method uri) : Stuck false p ∨ deserialize data = some .incomplete ∨ Nonempty (Layout data) := by
  have lock := lock_of_split split { method, uri } false
  rcases stuck_or_exits p lock with stuck | ⟨result, done⟩
  · exact .inl stuck
  rcases complete_lines lock done with rfl | ⟨lines, body, same, valid, nonempty, _⟩
  · have small : p.length + 1 ≤ data.length + 1 := by simp only [LockStep] at lock; omega
    refine .inr (.inl ?_)
    rw [deserialize, deserializeWithin_eq split free start, Loop.run_more done small]
  · subst same
    exact .inr (.inr ⟨first, method, uri, lines, body, split, free, start, nonempty.resolve_left (by decide), valid⟩)

end Stages

/-- What a buffer can be. -/
inductive Shape (data : Bytes) : Prop where
  | unfinished (waits : deserialize data = some .incomplete)
  | malformed {first p} (split : data = first ++ (crlf ++ p)) (free : Free crlf first)
      (bad : ∀ method uri, ¬ StartLine data method uri)
  | stuck {first p method uri} (split : data = first ++ (crlf ++ p)) (free : Free crlf first)
      (start : StartLine data method uri) (stuck : Stuck false p)
  | block (layout : Layout data)

theorem shape (data : Bytes) : Shape data := by
  cases found : strstr crlf data with
  | none => exact .unfinished (deserialize_absent (strstr_none (by decide) found))
  | some size =>
    obtain ⟨first, p, split, _, free⟩ := strstr_some (by decide) found
    by_cases bad : ∀ method uri, ¬ StartLine data method uri
    · exact .malformed split free bad
    · simp only [not_forall, not_not] at bad
      obtain ⟨method, uri, start⟩ := bad
      rcases layout_of_complete split free start with stuck | waits | ⟨⟨layout⟩⟩
      · exact .stuck split free start stuck
      · exact .unfinished waits
      · exact .block layout

theorem malformed_of_thrown {data : Bytes} {error : Exception} {message : IncomingHttpMessage}
    (thrown : deserialize data = some (.thrown error message)) :
    ∃ first p, data = first ++ (crlf ++ p) ∧ Free crlf first ∧ ∀ method uri, ¬ StartLine data method uri := by
  cases shape data with
  | unfinished waits => rw [waits] at thrown; cases thrown
  | malformed split free bad => exact ⟨_, _, split, free, bad⟩
  | stuck split free start stuck =>
    rw [deserialize, deserialize_stuck split free start stuck] at thrown
    cases thrown
  | block layout =>
    rw [deserialize_layout layout] at thrown
    split at thrown <;> cases thrown

/-- Running the parser longer than `deserialize` does decides nothing more. -/
theorem deserialize_eq_some_iff {data : Bytes} {result : Outcome} :
    deserialize data = some result ↔ ∃ fuel, deserializeWithin fuel data = some result := by
  refine ⟨fun done => ⟨_, done⟩, ?_⟩
  intro ⟨fuel, done⟩
  have settled {other : Outcome} (same : deserialize data = some other) : deserialize data = some result := by
    have left := deserializeWithin_more same (Nat.le_max_left (data.length + 1) fuel)
    have right := deserializeWithin_more done (Nat.le_max_right (data.length + 1) fuel)
    rw [same, ← left, right]
  cases shape data with
  | unfinished waits => exact settled waits
  | malformed split free bad =>
    obtain ⟨_, _, same, _⟩ := deserialize_bad split free bad
    exact settled same
  | stuck split free start stuck =>
    rw [deserialize_stuck split free start stuck fuel] at done
    cases done
  | block layout => exact settled (deserialize_layout layout)

/-- The messages `Deserialize` accepts, and where it takes them to end. -/
theorem deserialize_complete_iff {data : Bytes} {message : IncomingHttpMessage} {eof : Nat} :
    deserialize data = some (.complete message eof) ↔
      ∃ layout : Layout data, layout.Whole ∧ message = layout.message ∧ eof = layout.eof := by
  constructor
  · intro done
    cases shape data with
    | unfinished waits => rw [waits] at done; cases done
    | malformed split free bad =>
      obtain ⟨_, _, same, _⟩ := deserialize_bad split free bad
      rw [same] at done; cases done
    | stuck split free start stuck =>
      rw [deserialize, deserialize_stuck split free start stuck] at done
      cases done
    | block layout =>
      rw [deserialize_layout layout] at done
      split at done
      next whole => cases done; exact ⟨layout, whole, rfl, rfl⟩
      next => cases done
  · rintro ⟨layout, whole, rfl, rfl⟩
    rw [deserialize_layout layout, if_pos whole]

end LibWebserver.IncomingHttpMessage
