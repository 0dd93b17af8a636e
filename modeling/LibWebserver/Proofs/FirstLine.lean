import LibWebserver.IncomingHttpMessage

/-! How the first line is judged: it names a method and a uri, or a response
with code 200, and anything else is a deserialization error. -/

namespace LibWebserver.IncomingHttpMessage
open CStr

/-- The first line names this method, and this uri before the first " HTTP/1.",
which is searched in the whole buffer. -/
inductive StartLine (data : Bytes) : HttpMethod → Bytes → Prop where
  | post {uri} (free : Free (ascii " HTTP/1.") uri) (rest : Bytes)
      (same : data = ascii "POST " ++ (uri ++ (ascii " HTTP/1." ++ rest))) : StartLine data .post uri
  | get {uri} (free : Free (ascii " HTTP/1.") uri) (rest : Bytes)
      (same : data = ascii "GET " ++ (uri ++ (ascii " HTTP/1." ++ rest))) : StartLine data .get uri
  | response (found : ascii "HTTP/1.1 200" <+: data ∨ ascii "HTTP/1.0 200" <+: data) : StartLine data .response []

/-- A truncated comparison never reports equality: the CR of the first line is
within it, and no text compared with has one. -/
theorem compare_eq_iff {data str first p : Bytes} {start len : Nat} (split : data = first ++ (crlf ++ p))
    (before : start ≤ first.length) (long : str.length = len) (small : start + len < 2 ^ 64) (clean : cr ∉ str) :
    CString.compare data str start len = .eq ↔ str <+: data.drop start := by
  subst long
  have sum : addSize start str.length = start + str.length := Nat.mod_eq_of_lt small
  rw [CString.compare, sum]
  split
  next fits =>
    rw [memcmp_eq_iff (by rw [List.length_drop]; omega) (Nat.le_refl _), List.take_length, List.prefix_iff_eq_take]
    exact eq_comm
  next short =>
    have size : data.length = first.length + (2 + p.length) := by simp [split]; omega
    have difference : subSize data.length start = data.length - start := by
      rw [subSize, show 2 ^ 64 + data.length - start = data.length - start + 2 ^ 64 by omega, Nat.add_mod_right]
      exact Nat.mod_eq_of_lt (by omega)
    have member : cr ∈ data.drop start := by
      rw [split, List.drop_append_of_le_length before]
      simp
    have missing : ¬ str <+: data.drop start := by
      intro found
      have long := found.length_le
      rw [List.length_drop] at long
      omega
    rw [difference, memcmp_eq_iff (by rw [List.length_drop]) (by omega)]
    refine iff_of_false (fun same => ?_) missing
    rw [List.take_of_length_le (by rw [List.length_drop])] at same
    exact clean (List.mem_of_mem_take (same ▸ member))

theorem length_le_first {verb first p : Bytes} {size : Nat} (found : verb <+: first ++ (crlf ++ p))
    (long : verb.length = size) (clean : cr ∉ verb) : size ≤ first.length := by
  subst long
  rcases Nat.lt_or_ge first.length verb.length with short | long
  · have whole := List.prefix_of_prefix_length_le (List.prefix_append first (crlf ++ p)) found (Nat.le_of_lt short)
    obtain ⟨rest, rfl⟩ := whole
    have tail : rest <+: crlf ++ p := (List.prefix_append_right_inj first).mp found
    cases rest with
    | nil => simp at short
    | cons c rest => exact absurd (by simp [(List.cons_prefix_cons.mp tail).1]) clean
  · exact long

section FirstLine

variable {data first p : Bytes}

private theorem throwLine_eq (split : data = first ++ (crlf ++ p)) (self : IncomingHttpMessage) (text : String) :
    ∃ why, self.throwLine data text (first.length + 2) = .thrown (.deserializationError why) self := by
  have inside : addSize 0 (first.length + 2) ≤ data.length := by
    have size : data.length = first.length + (2 + p.length) := by simp [split]; omega
    exact Nat.le_trans (Nat.mod_le _ _) (by omega)
  rw [throwLine, CString.substring, if_neg (Nat.not_lt.mpr inside)]
  exact ⟨_, rfl⟩

private theorem readUri_found {start eof : Nat} {uri rest : Bytes} (free : Free (ascii " HTTP/1.") uri)
    (same : data.drop start = uri ++ (ascii " HTTP/1." ++ rest)) (self : IncomingHttpMessage) :
    self.readUri data start eof = .complete { self with uri } eof := by
  have size : data.length - start = uri.length + (8 + rest.length) := by
    rw [← List.length_drop, same, List.length_append, List.length_append]; rfl
  have inside : ¬ addSize start uri.length > data.length :=
    Nat.not_lt.mpr (Nat.le_trans (Nat.mod_le _ _) (by omega))
  rw [readUri, CString.posFrom, if_neg (by omega), same, strstr_free (by decide) free]
  simp only [Option.map_some, CString.substring, Nat.add_sub_cancel, if_neg inside, same, List.take_left,
    cstr_of_not_mem free.nul]

private theorem readUri_missing (split : data = first ++ (crlf ++ p)) {start : Nat} (before : start ≤ first.length)
    (missing : strstr (ascii " HTTP/1.") (data.drop start) = none) (self : IncomingHttpMessage) :
    ∃ why, self.readUri data start (first.length + 2) = .thrown (.deserializationError why) self := by
  have size : data.length = first.length + (2 + p.length) := by simp [split]; omega
  rw [readUri, CString.posFrom, if_neg (by omega), missing]
  exact throwLine_eq split self _

private theorem deserializeMethod_eq (split : data = first ++ (crlf ++ p)) (free : Free crlf first) :
    deserializeMethod {} data =
      if ascii "POST " <+: data then { method := .post : IncomingHttpMessage }.readUri data 5 (first.length + 2)
      else if ascii "GET " <+: data then { method := .get : IncomingHttpMessage }.readUri data 4 (first.length + 2)
      else if ascii "HTTP/1.1 " <+: data ∨ ascii "HTTP/1.0 " <+: data then
        { method := .response : IncomingHttpMessage }.checkCode data 9 (first.length + 2)
      else ({} : IncomingHttpMessage).throwLine data "Invalid method: " (first.length + 2) := by
  have ended : CString.pos data crlf = some first.length := by rw [CString.pos, split, strstr_free (by decide) free]
  have post := compare_eq_iff split (Nat.zero_le _) (show (ascii "POST ").length = 5 from rfl) (by decide) (by decide)
  have get := compare_eq_iff split (Nat.zero_le _) (show (ascii "GET ").length = 4 from rfl) (by decide) (by decide)
  have newer := compare_eq_iff split (Nat.zero_le _) (show (ascii "HTTP/1.1 ").length = 9 from rfl) (by decide) (by decide)
  have older := compare_eq_iff split (Nat.zero_le _) (show (ascii "HTTP/1.0 ").length = 9 from rfl) (by decide) (by decide)
  rw [List.drop_zero] at post get newer older
  simp only [deserializeMethod, ended]
  refine if_congr post rfl (if_congr get rfl ?_)
  by_cases one : ascii "HTTP/1.1 " <+: data
  · rw [if_pos (newer.mpr one), if_pos (.inl one)]
  · rw [if_neg (mt newer.mp one)]
    refine if_congr (older.trans ⟨.inr, fun found => found.resolve_left one⟩) rfl rfl

private theorem other_verb {one two : Bytes} (found : one <+: data) (le : two.length ≤ one.length)
    (differs : ¬ two <+: one) : ¬ two <+: data :=
  fun other => differs (List.prefix_of_prefix_length_le other found le)

private theorem append_prefix_iff {one two : Bytes} :
    one ++ two <+: data ↔ one <+: data ∧ two <+: data.drop one.length := by
  constructor
  · rintro ⟨rest, rfl⟩
    exact ⟨⟨two ++ rest, by simp⟩, rest, by rw [List.append_assoc, List.drop_left]⟩
  · rintro ⟨⟨rest, rfl⟩, found⟩
    rw [List.drop_left] at found
    exact (List.prefix_append_right_inj one).mpr found

private theorem code_iff (split : data = first ++ (crlf ++ p)) :
    (ascii "HTTP/1.1 " <+: data ∨ ascii "HTTP/1.0 " <+: data) ∧ CString.compare data (ascii "200") 9 3 = .eq ↔
      ascii "HTTP/1.1 200" <+: data ∨ ascii "HTTP/1.0 200" <+: data := by
  have newer : ascii "HTTP/1.1 200" = ascii "HTTP/1.1 " ++ ascii "200" := rfl
  have older : ascii "HTTP/1.0 200" = ascii "HTTP/1.0 " ++ ascii "200" := rfl
  rw [newer, older, append_prefix_iff, append_prefix_iff, or_and_right]
  refine or_congr (and_congr_right fun found => ?_) (and_congr_right fun found => ?_) <;>
  · rw [split] at found
    exact compare_eq_iff split (length_le_first found rfl (by decide)) rfl (by decide) (by decide)

theorem deserializeMethod_start {method : HttpMethod} {uri : Bytes} (split : data = first ++ (crlf ++ p))
    (free : Free crlf first) (start : StartLine data method uri) :
    deserializeMethod {} data = .complete { method, uri } (first.length + 2) := by
  rw [deserializeMethod_eq split free]
  cases start with
  | post free rest same =>
    have found : ascii "POST " <+: data := ⟨_, same.symm⟩
    have after : data.drop 5 = uri ++ (ascii " HTTP/1." ++ rest) := by rw [same]; rfl
    rw [if_pos found, readUri_found free after]
  | get free rest same =>
    have found : ascii "GET " <+: data := ⟨_, same.symm⟩
    have other : ¬ ascii "POST " <+: data := by
      intro other
      exact absurd (List.prefix_of_prefix_length_le found other (by decide)) (by decide)
    have after : data.drop 4 = uri ++ (ascii " HTTP/1." ++ rest) := by rw [same]; rfl
    rw [if_neg other, if_pos found, readUri_found free after]
  | response found =>
    obtain ⟨version, code⟩ := (code_iff split).mpr found
    have post : ¬ ascii "POST " <+: data := by
      obtain one | one := version <;> exact other_verb one (by decide) (by decide)
    have get : ¬ ascii "GET " <+: data := by
      obtain one | one := version <;> exact other_verb one (by decide) (by decide)
    rw [if_neg post, if_neg get, if_pos version, checkCode, code]
    rfl

/-- A first line that names no method, no protocol or no code 200 is quoted in the error. -/
theorem deserializeMethod_bad (split : data = first ++ (crlf ++ p)) (free : Free crlf first)
    (bad : ∀ method uri, ¬ StartLine data method uri) :
    ∃ why message, deserializeMethod {} data = .thrown (.deserializationError why) message ∧
      message.requestId = none := by
  have quoted : ∀ self text, ∃ why, throwLine self data text (first.length + 2) = .thrown (.deserializationError why) self :=
    fun self text => throwLine_eq split self text
  have missing : ∀ self start, start ≤ first.length → strstr (ascii " HTTP/1.") (data.drop start) = none →
      ∃ why, readUri self data start (first.length + 2) = .thrown (.deserializationError why) self :=
    fun self start before none => readUri_missing split before none self
  rw [deserializeMethod_eq split free]
  split
  next found =>
    have before : 5 ≤ first.length := length_le_first (split ▸ found) rfl (by decide)
    cases seen : strstr (ascii " HTTP/1.") (data.drop 5) with
    | none =>
      obtain ⟨why, same⟩ := missing { method := .post } 5 before seen
      exact ⟨why, _, same, rfl⟩
    | some size =>
      obtain ⟨uri, rest, same, _, free⟩ := strstr_some (by decide) seen
      refine absurd (StartLine.post free rest ?_) (bad .post uri)
      rw [← same]
      exact (List.prefix_append_drop found)
  next =>
    split
    next found =>
      have before : 4 ≤ first.length := length_le_first (split ▸ found) rfl (by decide)
      cases seen : strstr (ascii " HTTP/1.") (data.drop 4) with
      | none =>
        obtain ⟨why, same⟩ := missing { method := .get } 4 before seen
        exact ⟨why, _, same, rfl⟩
      | some size =>
        obtain ⟨uri, rest, same, _, free⟩ := strstr_some (by decide) seen
        refine absurd (StartLine.get free rest ?_) (bad .get uri)
        rw [← same]
        exact (List.prefix_append_drop found)
    next =>
      split
      next version =>
        have differs : CString.compare data (ascii "200") 9 3 ≠ .eq :=
          fun code => bad .response [] (.response ((code_iff split).mp ⟨version, code⟩))
        rw [checkCode, if_pos differs]
        obtain ⟨why, same⟩ := quoted { method := .response } "Response code is not 200: "
        exact ⟨why, _, same, rfl⟩
      next =>
        obtain ⟨why, same⟩ := quoted {} "Invalid method: "
        exact ⟨why, _, same, rfl⟩

end FirstLine

end LibWebserver.IncomingHttpMessage
