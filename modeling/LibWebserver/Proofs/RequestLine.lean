import LibWebserver.Proofs.Deserialize

/-! Where the target of a request is taken from. The end of the first line and the
" HTTP/1." behind the target are searched independently, so that the target may run
on into the lines that follow. -/

namespace LibWebserver.IncomingHttpMessage
open CStr

/-- What the first line of a request starts with. -/
def verb : HttpMethod → Bytes
  | .post => ascii "POST "
  | .get => ascii "GET "
  | .response => []

/-- The first line of an accepted request is its method, its uri, " HTTP/1." and more,
and a first line without " HTTP/1." is an error unless it starts a response. -/
structure TargetInLine (data : Bytes) : Prop where
  accepted : ∀ message eof, deserialize data = some (.complete message eof) → message.method ≠ .response →
    ∃ first p suffix, data = first ++ (crlf ++ p) ∧ Free crlf first ∧
      first = verb message.method ++ (message.uri ++ (ascii " HTTP/1." ++ suffix)) ∧ ¬ crlf <:+: message.uri
  rejected : ∀ first p, data = first ++ (crlf ++ p) → ¬ crlf <:+: first → ¬ ascii " HTTP/1." <:+: first →
    ¬ (ascii "HTTP/1.1 200" <+: data ∨ ascii "HTTP/1.0 200" <+: data) →
    ∃ why message, deserialize data = some (.thrown (.deserializationError why) message)

/-- The search for " HTTP/1." does not run past the first line: it is found there in
a request that is accepted, and where the line lacks it, nowhere behind the line before a
NUL. A line without it holds no NUL itself. -/
structure MarkerInLine (data : Bytes) : Prop where
  behind : ∀ layout : Layout data, layout.Whole → layout.method ≠ .response →
    ascii " HTTP/1." <:+: layout.first.drop (verb layout.method).length
  missing : ∀ first p, data = first ++ (crlf ++ p) → ¬ crlf <:+: first → ¬ ascii " HTTP/1." <:+: first →
    ¬ (ascii "HTTP/1.1 200" <+: data ∨ ascii "HTTP/1.0 200" <+: data) →
    0 ∉ first ∧ ((ascii "POST " <+: first ∨ ascii "GET " <+: first) → ¬ ascii " HTTP/1." <:+: cstr p)

variable {data first p uri : Bytes} {method : HttpMethod}

theorem StartLine.request (start : StartLine data method uri) (request : method ≠ .response) :
    Free (ascii " HTTP/1.") uri ∧ ∃ rest, data = verb method ++ (uri ++ (ascii " HTTP/1." ++ rest)) := by
  cases start with
  | post free rest same => exact ⟨free, rest, same⟩
  | get free rest same => exact ⟨free, rest, same⟩
  | response _ => exact absurd rfl request

theorem startLine_request (request : method ≠ .response) (free : Free (ascii " HTTP/1.") uri) (rest : Bytes)
    (same : data = verb method ++ (uri ++ (ascii " HTTP/1." ++ rest))) : StartLine data method uri := by
  cases method with
  | post => exact .post free rest same
  | get => exact .get free rest same
  | response => exact absurd rfl request

private theorem split_verb (split : data = first ++ (crlf ++ p)) (request : method ≠ .response) {more : Bytes}
    (same : data = verb method ++ more) :
    ∃ rest, first = verb method ++ rest ∧ more = rest ++ (crlf ++ p) := by
  have found : verb method <+: first ++ (crlf ++ p) := ⟨more, same.symm.trans split⟩
  have size : (verb method).length ≤ first.length := by
    cases method with
    | post => exact length_le_first found rfl (by decide)
    | get => exact length_le_first found rfl (by decide)
    | response => exact absurd rfl request
  obtain ⟨rest, cut⟩ := List.prefix_of_prefix_length_le found (List.prefix_append first _) size
  refine ⟨rest, cut.symm, ?_⟩
  rw [same, ← cut, List.append_assoc] at split
  exact List.append_cancel_left split

private theorem cut_marker {rest : Bytes} (nul : 0 ∉ rest) (found : ascii " HTTP/1." <:+: rest) :
    ∃ before after, rest = before ++ (ascii " HTTP/1." ++ after) ∧ Free (ascii " HTTP/1.") before := by
  cases seen : strstr (ascii " HTTP/1.") rest with
  | none => exact absurd ((cstr_of_not_mem nul).symm ▸ found) (strstr_none (by decide) seen)
  | some size =>
    obtain ⟨before, after, same, _, free⟩ := strstr_some (by decide) seen
    exact ⟨before, after, same, free⟩

/-- A target that ends in the first line is the one the line shows. -/
theorem inLine_iff (split : data = first ++ (crlf ++ p)) (free : Free crlf first) (request : method ≠ .response)
    (start : StartLine data method uri) :
    (∃ suffix, first = verb method ++ (uri ++ (ascii " HTTP/1." ++ suffix))) ↔
      ascii " HTTP/1." <:+: first.drop (verb method).length := by
  constructor
  · rintro ⟨suffix, rfl⟩
    rw [List.drop_left]
    exact ⟨uri, suffix, by rw [List.append_assoc]⟩
  · intro found
    obtain ⟨freeUri, more, same⟩ := start.request request
    obtain ⟨rest, cut, whole⟩ := split_verb split request same
    rw [cut, List.drop_left] at found
    have nul : 0 ∉ rest := fun member => free.nul (by simp [cut, member])
    obtain ⟨before, after, parts, freeBefore⟩ := cut_marker nul found
    rw [parts, List.append_assoc, List.append_assoc] at whole
    obtain ⟨rfl, _⟩ := Free.cut_unique (by decide) freeUri freeBefore whole
    exact ⟨after, by rw [cut, parts]⟩

/-- Behind a line without the marker a target ends at the next one before the NUL. -/
private theorem runs_past_iff {rest : Bytes} (free : Free crlf rest) (absent : ¬ ascii " HTTP/1." <:+: rest) :
    (∃ uri more, Free (ascii " HTTP/1.") uri ∧ rest ++ (crlf ++ p) = uri ++ (ascii " HTTP/1." ++ more)) ↔
      ascii " HTTP/1." <:+: cstr p := by
  have beyond {later : Bytes} (found : ascii " HTTP/1." <:+: rest ++ (crlf ++ later)) : ascii " HTTP/1." <:+: later := by
    rcases infix_of_infix_append found (by decide) with here | behind
    · exact absurd here absent
    · rcases @infix_of_infix_append _ [] later _ behind (by decide) with empty | there
      · exact absurd empty (by decide)
      · exact there
  constructor
  · rintro ⟨uri, more, freeUri, same⟩
    apply beyond
    have text := congrArg cstr same
    rw [cstr_append free.nul, cstr_append (by decide), cstr_append freeUri.nul, cstr_append (by decide)] at text
    exact ⟨uri, cstr more, by rw [text, List.append_assoc]⟩
  · intro found
    obtain ⟨before, after, parts, freeBefore⟩ := cut_marker (not_mem_cstr p) found
    obtain ⟨tail, same, _⟩ := cstr_split p
    refine ⟨rest ++ (crlf ++ before), after ++ tail, ⟨?_, fun inside => freeBefore.absent (beyond inside)⟩, ?_⟩
    · simp only [List.mem_append, not_or]
      exact ⟨free.nul, by decide, freeBefore.nul⟩
    · conv => lhs; rw [same, parts]
      simp

/-- Behind a first line without the marker a request has a target exactly when the
marker comes before the NUL. -/
private theorem startLine_past_iff (split : data = first ++ (crlf ++ p)) (free : Free crlf first)
    (absent : ¬ ascii " HTTP/1." <:+: first) (request : method ≠ .response) :
    (∃ uri, StartLine data method uri) ↔ verb method <+: first ∧ ascii " HTTP/1." <:+: cstr p := by
  have within {rest : Bytes} (cut : first = verb method ++ rest) :
      Free crlf rest ∧ ¬ ascii " HTTP/1." <:+: rest := by
    have inside : rest <:+: first := ⟨verb method, [], by simp [cut]⟩
    exact ⟨free.of_infix inside, fun found => absent (found.trans inside)⟩
  constructor
  · rintro ⟨uri, start⟩
    obtain ⟨freeUri, more, same⟩ := start.request request
    obtain ⟨rest, cut, whole⟩ := split_verb split request same
    obtain ⟨freeRest, absentRest⟩ := within cut
    exact ⟨⟨rest, cut.symm⟩, (runs_past_iff freeRest absentRest).mp ⟨uri, more, freeUri, whole.symm⟩⟩
  · rintro ⟨⟨rest, cut⟩, found⟩
    obtain ⟨freeRest, absentRest⟩ := within cut.symm
    obtain ⟨uri, more, freeUri, same⟩ := (runs_past_iff freeRest absentRest).mpr found
    exact ⟨uri, startLine_request request freeUri more (by rw [split, ← cut, List.append_assoc, same])⟩

private theorem exists_verb_iff :
    (∃ method, method ≠ HttpMethod.response ∧ verb method <+: first) ↔ ascii "POST " <+: first ∨ ascii "GET " <+: first := by
  constructor
  · rintro ⟨method, request, begins⟩
    cases method with
    | post => exact .inl begins
    | get => exact .inr begins
    | response => exact absurd rfl request
  · rintro (begins | begins)
    · exact ⟨.post, by decide, begins⟩
    · exact ⟨.get, by decide, begins⟩

theorem deserialize_nul_line (nul : 0 ∈ first) (ended : ¬ crlf <:+: first) (more : Bytes) :
    deserialize (first ++ more) = some .incomplete := by
  obtain ⟨line, rest, rfl⟩ := List.append_of_mem nul
  apply deserialize_absent
  rw [List.append_assoc, List.cons_append, cstr_nul]
  intro found
  obtain ⟨tail, same, _⟩ := cstr_split line
  have inside : cstr line <:+: line ++ 0 :: rest := ⟨[], tail ++ 0 :: rest, by rw [List.nil_append, ← List.append_assoc, ← same]⟩
  exact ended (found.trans inside)

private theorem not_thrown (start : StartLine data method uri) {why : List UInt8} {message : IncomingHttpMessage} :
    deserialize data ≠ some (.thrown (.deserializationError why) message) := by
  intro thrown
  obtain ⟨_, _, _, _, bad⟩ := malformed_of_thrown thrown
  exact bad _ _ start

/-- The target of every request lies in its first line, and a line without one is an
error, exactly when the marker is not found past the line. -/
theorem targetInLine_iff (data : Bytes) : TargetInLine data ↔ MarkerInLine data := by
  constructor
  · intro ⟨accepted, rejected⟩
    refine ⟨fun layout whole request => ?_, fun first p split ended absent other => ?_⟩
    · have done := deserialize_complete_iff.mpr ⟨layout, whole, rfl, rfl⟩
      obtain ⟨first, p, suffix, split, free, shown, _⟩ := accepted _ _ done request
      obtain ⟨same, _⟩ := Free.cut_unique (by decide) layout.free free (layout.split.symm.trans split)
      rw [same, ← inLine_iff split free request layout.start]
      exact ⟨suffix, shown⟩
    · obtain ⟨why, message, thrown⟩ := rejected first p split ended absent other
      have nul : 0 ∉ first := by
        intro nul
        rw [split, deserialize_nul_line nul ended] at thrown
        cases thrown
      refine ⟨nul, fun line found => ?_⟩
      obtain ⟨method, request, begins⟩ := exists_verb_iff.mpr line
      obtain ⟨uri, start⟩ := (startLine_past_iff split ⟨nul, ended⟩ absent request).mpr ⟨begins, found⟩
      exact not_thrown start thrown
  · intro ⟨behind, missing⟩
    refine ⟨fun message eof done request => ?_, fun first p split ended absent other => ?_⟩
    · obtain ⟨layout, whole, rfl, rfl⟩ := deserialize_complete_iff.mp done
      have split := layout.split
      obtain ⟨suffix, shown⟩ := (inLine_iff split layout.free request layout.start).mpr (behind layout whole request)
      refine ⟨layout.first, _, suffix, split, layout.free, shown, fun inside => layout.free.absent (inside.trans ?_)⟩
      exact ⟨verb layout.method, ascii " HTTP/1." ++ suffix, by rw [shown, List.append_assoc]; rfl⟩
    · obtain ⟨nul, nowhere⟩ := missing first p split ended absent other
      have free : Free crlf first := ⟨nul, ended⟩
      have bad : ∀ method uri, ¬ StartLine data method uri := by
        intro method uri start
        have request : method ≠ .response := by
          rintro rfl
          cases start with
          | response found => exact other found
        obtain ⟨begins, found⟩ := (startLine_past_iff split free absent request).mp ⟨uri, start⟩
        exact nowhere (exists_verb_iff.mp ⟨method, request, begins⟩) found
      obtain ⟨why, message, thrown, _⟩ := deserialize_bad split free bad
      exact ⟨why, message, thrown⟩

/-- A first line without a protocol takes the next line into its target. -/
theorem target_runs_on : ¬ ∀ data : Bytes, TargetInLine data := by
  intro always
  have accepted : deserialize (ascii "GET /\r\nX: y HTTP/1.1\r\nHost: a\r\n\r\n") = some (.complete
      { method := .get, uri := ascii "/\r\nX: y",
        headers := [⟨ascii "X", ascii "y HTTP/1.1"⟩, ⟨ascii "Host", ascii "a"⟩] } 33) := by decide +kernel
  obtain ⟨_, _, _, _, _, _, inside⟩ := (always _).accepted _ _ accepted (by decide)
  exact inside (by decide +kernel)

end LibWebserver.IncomingHttpMessage
