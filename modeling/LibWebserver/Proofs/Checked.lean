import LibWebserver.Checked
import LibWebserver.Proofs.Receive

/-! The parser stays inside the block. Over a terminated string every access is one
the list model makes, so that the two return the same, and only the first line throws. -/

namespace LibWebserver.Checked
open CStr IncomingHttpMessage

/-- The text is these bytes and the NUL behind them. -/
structure Text.Holds (text : Text) (content : Bytes) : Prop where
  length : text.length = content.length
  readable : text.readable = content ++ [0]

/-- The bytes of a string that has its NUL at `Length()`, whatever else the block is for. -/
structure Stored (s : CString) (content : Bytes) : Prop where
  length : s.length = content.length
  small : content.length < 2 ^ 64
  readable : (textOf s).readable = content ++ [0]

theorem stored_content {s : CString} (terminated : s.string[s.length]? = some 0) (small : s.length < 2 ^ 64) :
    Stored s s.content := by
  obtain ⟨inside, _⟩ := List.getElem?_eq_some_iff.mp terminated
  have length : s.content.length = s.length := by
    rw [CString.content, List.length_take]
    omega
  refine ⟨length.symm, length ▸ small, ?_⟩
  change s.string.take (s.length + 1) = s.content ++ [0]
  rw [List.take_add_one, terminated, Option.toList_some]
  rfl

theorem holds_textOf {s : CString} {content : Bytes} (stored : Stored s content) : (textOf s).Holds content :=
  ⟨stored.length, stored.readable⟩

theorem holds_ofString (s : Bytes) : (ofString s).Holds s := by
  refine ⟨rfl, ?_⟩
  change (s ++ [0]).take (s.length + 1) = s ++ [0]
  exact List.take_of_length_le (by simp)

theorem memcmp_append {s : Bytes} (t : Bytes) {literal : Bytes} {len : Nat} (inside : len ≤ s.length)
    (short : len ≤ literal.length) : CStr.memcmp (s ++ t) literal len = CStr.memcmp s literal len := by
  induction len generalizing s literal with
  | zero => simp [CStr.memcmp]
  | succ len ih =>
    obtain ⟨a, s, rfl⟩ := List.exists_cons_of_length_pos (Nat.lt_of_lt_of_le (Nat.succ_pos len) inside)
    obtain ⟨b, literal, rfl⟩ := List.exists_cons_of_length_pos (Nat.lt_of_lt_of_le (Nat.succ_pos len) short)
    rw [List.cons_append, CStr.memcmp, CStr.memcmp, ih (Nat.le_of_succ_le_succ inside) (Nat.le_of_succ_le_succ short)]

section Reading

variable {text : Text} {content : Bytes} (holds : text.Holds content)
include holds

theorem Text.Holds.read {p : Nat} (inside : p ≤ content.length) : text.read p = .ok (peek (content.drop p)) := by
  rw [Text.read, holds.readable]
  rcases Nat.lt_or_eq_of_le inside with before | rfl
  · rw [List.getElem?_append_left before, List.getElem?_eq_getElem before, List.drop_eq_getElem_cons before]
    rfl
  · rw [List.getElem?_concat_length, List.drop_length]
    rfl

/-- The second byte is read behind one that is not the NUL. -/
theorem Text.Holds.readPair {p : Nat} (inside : p ≤ content.length) {first second : UInt8} (nonzero : first ≠ 0) :
    text.readPair p first second =
      .ok (decide (peek (content.drop p) = first ∧ peek (content.drop p).tail = second)) := by
  rw [Text.readPair, holds.read inside]
  by_cases found : peek (content.drop p) = first
  · have before : p < content.length := by
      rcases Nat.lt_or_eq_of_le inside with before | rfl
      · exact before
      · rw [List.drop_length] at found
        exact absurd found.symm nonzero
    simp only [bind, Except.bind, holds.read before, found, true_and, List.tail_drop]
    rfl
  · simp only [bind, Except.bind, found, false_and, decide_false]
    rfl

theorem Text.Holds.strstr {start : Nat} (inside : start ≤ content.length) {needle : Bytes} (absent : 0 ∉ needle) :
    text.strstr needle start = .ok ((CStr.strstr needle (content.drop start)).map (· + start)) := by
  have rest : text.readable.drop start = content.drop start ++ [0] := by
    rw [holds.readable, List.drop_append_of_le_length inside]
  rw [Text.strstr, rest, if_pos (by simp), strstr_nul absent]

theorem Text.Holds.memcmp {start len : Nat} {literal : Bytes} (inside : start + len ≤ content.length)
    (short : len ≤ literal.length) : text.memcmp literal start len = .ok (CStr.memcmp (content.drop start) literal len) := by
  have rest : text.readable.drop start = content.drop start ++ [0] := by
    rw [holds.readable, List.drop_append_of_le_length (by omega)]
  rw [Text.memcmp, holds.length, if_pos ⟨inside, short⟩, rest,
    memcmp_append _ (by rw [List.length_drop]; omega) short]

end Reading

section FirstLine

variable {request : CString} {content : Bytes} (holds : Stored request content)
include holds

theorem pos_eq {str : Bytes} (absent : 0 ∉ str) : pos request str = .ok (CString.pos content str) := by
  rw [pos, (holds_textOf holds).strstr (Nat.zero_le _) absent, List.drop_zero, CString.pos]
  simp

theorem posFrom_eq (start : Nat) {str : Bytes} (absent : 0 ∉ str) :
    posFrom request str start = .ok (CString.posFrom content str start) := by
  rw [posFrom, CString.posFrom, holds.length]
  split
  · rfl
  next inside => rw [(holds_textOf holds).strstr (by omega) absent]; rfl

theorem substring_eq {start len : Nat} (small : start + len < 2 ^ 64) :
    substring request start len = .ok (CString.substring content start len) := by
  have sum : addSize start len = start + len := Nat.mod_eq_of_lt small
  rw [substring, CString.substring, sum, holds.length]
  split
  · rfl
  next inside =>
    have rest : (textOf request).readable.drop start = content.drop start ++ [0] := by
      rw [(holds_textOf holds).readable, List.drop_append_of_le_length (by omega)]
    rw [if_pos (by omega), rest, List.take_append_of_le_length (by rw [List.length_drop]; omega)]

/-- Behind the end the length left wraps, so the comparison has to start inside. -/
theorem compare_eq {str : Bytes} {start : Nat} (inside : start ≤ content.length) (small : start + str.length < 2 ^ 64) :
    compare request str start str.length = .ok (CString.compare content str start str.length) := by
  have sum : addSize start str.length = start + str.length := Nat.mod_eq_of_lt small
  have below := holds.small
  have difference : subSize content.length start = content.length - start := by
    rw [subSize, show 2 ^ 64 + content.length - start = content.length - start + 2 ^ 64 by omega, Nat.add_mod_right]
    exact Nat.mod_eq_of_lt (by omega)
  rw [compare, CString.compare, sum, holds.length, difference]
  split
  next fits => rw [(holds_textOf holds).memcmp fits (Nat.le_refl _)]
  next short => rw [(holds_textOf holds).memcmp (by omega) (by omega)]

theorem throwLine_eq (self : IncomingHttpMessage) (text : String) {eof : Nat} (inside : eof ≤ content.length) :
    throwLine self request text eof = .ok (self.throwLine content text eof) := by
  have small := holds.small
  rw [throwLine, IncomingHttpMessage.throwLine, substring_eq holds (by omega)]
  cases CString.substring content 0 eof <;> rfl

theorem readUri_eq (self : IncomingHttpMessage) (p : Nat) {eof : Nat} (inside : eof ≤ content.length) :
    readUri self request p eof = .ok (self.readUri content p eof) := by
  have small := holds.small
  rw [readUri, IncomingHttpMessage.readUri, posFrom_eq holds p (by decide)]
  cases sought : CString.posFrom content (ascii " HTTP/1.") p with
  | error error => rfl
  | ok found =>
    cases found with
    | none => exact throwLine_eq holds self _ inside
    | some pp =>
      have range : p ≤ pp ∧ pp ≤ content.length := by
        rw [CString.posFrom] at sought
        split at sought
        · cases sought
        · obtain ⟨size, inner, rfl⟩ := Option.map_eq_some_iff.mp (Except.ok.inj sought)
          obtain ⟨before, behind, split, rfl, _⟩ := strstr_some (by decide) inner
          have long := congrArg List.length split
          rw [List.length_drop, List.length_append] at long
          omega
      simp only [bind, Except.bind]
      rw [substring_eq holds (by omega)]
      cases CString.substring content p (pp - p) <;> rfl

theorem checkCode_eq (self : IncomingHttpMessage) {p eof : Nat} (start : p ≤ content.length) (small : p + 3 < 2 ^ 64)
    (inside : eof ≤ content.length) : checkCode self request p eof = .ok (self.checkCode content p eof) := by
  have code : compare request (ascii "200") p 3 = .ok (CString.compare content (ascii "200") p 3) :=
    compare_eq holds start small
  rw [checkCode, IncomingHttpMessage.checkCode, code]
  simp only [bind, Except.bind]
  split
  · exact throwLine_eq holds self _ inside
  · rfl

/-- The first line is judged with every access inside the block. -/
theorem deserializeMethod_eq (self : IncomingHttpMessage) :
    deserializeMethod self request = .ok (self.deserializeMethod content) := by
  rw [deserializeMethod, IncomingHttpMessage.deserializeMethod, pos_eq holds (by decide)]
  cases ended : CString.pos content crlf with
  | none => rfl
  | some found =>
    obtain ⟨first, rest, split, size, _⟩ := strstr_some (by decide) ended
    have inside : found + 2 ≤ content.length := by
      rw [split, List.length_append, List.length_append, size]
      exact Nat.add_le_add_left (Nat.le_add_right 2 _) _
    have compared {str : Bytes} (small : 0 + str.length < 2 ^ 64) : compare request str 0 str.length = _ :=
      compare_eq holds (Nat.zero_le _) small
    have post : compare request (ascii "POST ") 0 5 = .ok (CString.compare content (ascii "POST ") 0 5) :=
      compared (by decide)
    have get : compare request (ascii "GET ") 0 4 = .ok (CString.compare content (ascii "GET ") 0 4) :=
      compared (by decide)
    have newer : compare request (ascii "HTTP/1.1 ") 0 9 = .ok (CString.compare content (ascii "HTTP/1.1 ") 0 9) :=
      compared (by decide)
    have older : compare request (ascii "HTTP/1.0 ") 0 9 = .ok (CString.compare content (ascii "HTTP/1.0 ") 0 9) :=
      compared (by decide)
    -- behind a version there is room for the code
    have room {version : Bytes} (long : version.length = 9) (clean : cr ∉ version)
        (same : CString.compare content version 0 9 = .eq) : 9 ≤ content.length := by
      have found := (compare_eq_iff split (Nat.zero_le _) long (by decide) clean).mp same
      rw [List.drop_zero] at found
      exact long ▸ found.length_le
    simp only [bind, Except.bind, post, get, newer, older]
    split
    · exact readUri_eq holds _ 5 inside
    · split
      · exact readUri_eq holds _ 4 inside
      · split
        next same => exact checkCode_eq holds _ (room rfl (by decide) same) (by decide) inside
        next =>
          split
          next same => exact checkCode_eq holds _ (room rfl (by decide) same) (by decide) inside
          next => exact throwLine_eq holds self _ inside

end FirstLine

/-- The pointer is where `eof` says, and not behind the NUL. -/
structure Cursor.Locked (content : Bytes) (cursor : Cursor) : Prop where
  lock : cursor.p = cursor.eof
  inside : cursor.p ≤ content.length

/-- What a step does, with the bytes it may read. -/
def Cursor.test (content : Bytes) (cursor : Cursor) : Loop.Step Cursor Outcome :=
  let rest := content.drop cursor.p
  match cursor.place with
  | .line =>
    if peek rest = 0 then .exit .incomplete
    else if cursor.eof + 2 > content.length then .exit .incomplete
    else if (peek rest = cr ∧ peek rest.tail = lf) ∧ cursor.headerLineEnd then
      .exit (.complete cursor.message (cursor.eof + 2))
    else .next { cursor with headerLineEnd := false, place := .key, pair := ⟨[], []⟩ }
  | .key =>
    if peek rest = 0 ∨ peek rest = cr then .next cursor.leaveKey
    else if peek rest = 58 ∧ peek rest.tail = 32 then .next (cursor.skip 2).leaveKey
    else .next { cursor.skip 1 with pair.key := cursor.pair.key ++ [peek rest] }
  | .value =>
    if peek rest = 0 then .next cursor.leaveValue
    else if peek rest = cr ∧ peek rest.tail = lf then .next { cursor.skip 2 with headerLineEnd := true }.leaveValue
    else .next { cursor.skip 1 with pair.value := cursor.pair.value ++ [peek rest] }

theorem lt_of_peek {content : Bytes} {p : Nat} (running : peek (content.drop p) ≠ 0) : p < content.length := by
  rcases Nat.lt_or_ge p content.length with before | behind
  · exact before
  · rw [List.drop_of_length_le behind] at running
    exact absurd rfl running

theorem lt_of_peek_tail {content : Bytes} {p : Nat} (running : peek (content.drop p).tail ≠ 0) : p + 1 < content.length := by
  rw [List.tail_drop] at running
  exact lt_of_peek running

theorem Cursor.Locked.skip {content : Bytes} {cursor : Cursor} (locked : cursor.Locked content) {count : Nat}
    (room : cursor.p + count ≤ content.length) : (cursor.skip count).Locked content :=
  ⟨congrArg (· + count) locked.lock, room⟩

theorem Cursor.Locked.leaveKey {content : Bytes} {cursor : Cursor} (locked : cursor.Locked content) :
    cursor.leaveKey.Locked content := by
  unfold Cursor.leaveKey
  split
  · exact ⟨locked.lock, locked.inside⟩
  · exact ⟨locked.lock, locked.inside⟩

/-- Pointer and offset move together, and neither moves past the NUL. -/
theorem Cursor.Locked.test {content : Bytes} {cursor after : Cursor} (locked : cursor.Locked content)
    (moves : cursor.test content = .next after) : after.Locked content := by
  have one (running : peek (content.drop cursor.p) ≠ 0) : (cursor.skip 1).Locked content :=
    locked.skip (lt_of_peek running)
  have two (running : peek (content.drop cursor.p).tail ≠ 0) : (cursor.skip 2).Locked content :=
    locked.skip (lt_of_peek_tail running)
  cases place : cursor.place with
  | line =>
    simp only [Cursor.test, place] at moves
    split at moves
    · cases moves
    · split at moves
      · cases moves
      · split at moves
        · cases moves
        · cases moves
          exact ⟨locked.lock, locked.inside⟩
  | key =>
    simp only [Cursor.test, place] at moves
    split at moves
    · cases moves
      exact locked.leaveKey
    next running =>
      split at moves
      next separator =>
        cases moves
        exact (two (by rw [separator.2]; decide)).leaveKey
      next =>
        cases moves
        have moved := one (not_or.mp running).1
        exact ⟨moved.lock, moved.inside⟩
  | value =>
    simp only [Cursor.test, place] at moves
    split at moves
    · cases moves
      exact ⟨locked.lock, locked.inside⟩
    next running =>
      split at moves
      next ended =>
        cases moves
        have moved := two (by rw [ended.2]; decide)
        exact ⟨moved.lock, moved.inside⟩
      next =>
        cases moves
        have moved := one running
        exact ⟨moved.lock, moved.inside⟩

section Header

variable {request : CString} {content : Bytes} (holds : Stored request content)
include holds

theorem headerStep_eq {cursor : Cursor} (inside : cursor.p ≤ content.length) :
    headerStep request cursor = .ok (cursor.test content) := by
  have text := holds_textOf holds
  have blank : (textOf request).readPair cursor.p cr lf = .ok (decide _) := text.readPair inside (by decide)
  have separator : (textOf request).readPair cursor.p 58 32 = .ok (decide _) := text.readPair inside (by decide)
  simp only [headerStep, text.read inside, blank, separator, bind, Except.bind, holds.length, Cursor.test]
  cases cursor.place with
  | line =>
    simp only [Bool.and_eq_true, decide_eq_true_eq, apply_ite Except.ok]
    rfl
  | key =>
    simp only [decide_eq_true_eq, apply_ite Except.ok]
    rfl
  | value =>
    simp only [decide_eq_true_eq, apply_ite Except.ok]
    rfl

theorem headerStep_next_iff {cursor after : Cursor} (locked : cursor.Locked content) :
    Loop.failing (headerStep request) cursor = .next after ↔ cursor.test content = .next after := by
  rw [Loop.failing, headerStep_eq holds locked.inside]
  cases cursor.test content <;> simp

theorem headerStep_exit {cursor : Cursor} {result : Outcome} (locked : cursor.Locked content)
    (exits : cursor.test content = .exit result) : Loop.failing (headerStep request) cursor = .exit (.ok result) :=
  Loop.failing_exit ((headerStep_eq holds locked.inside).trans (congrArg Except.ok exits))

theorem Cursor.Locked.reaches {cursor after : Cursor} (locked : cursor.Locked content)
    (reaches : Loop.Reaches (Loop.failing (headerStep request)) cursor after) : after.Locked content := by
  induction reaches with
  | refl => exact locked
  | tail _ moves ih => exact ih.test ((headerStep_next_iff holds ih).mp moves)

/-! The steps of a pass. -/

/-- The key loop reads what the list model scans. -/
theorem reaches_key (message : IncomingHttpMessage) (flag : Bool) (value rest : Bytes) :
    ∀ (n : Nat) (key : Bytes), n ≤ content.length → content.drop n = rest →
      ((scanKey rest n).eof ≤ content.length ∧ content.drop (scanKey rest n).eof = (scanKey rest n).p) ∧
      Loop.Reaches (Loop.failing (headerStep request)) ⟨message, n, n, flag, .key, ⟨key, value⟩⟩
        (Cursor.leaveKey ⟨message, (scanKey rest n).eof, (scanKey rest n).eof, flag, .key,
          ⟨key ++ (scanKey rest n).key, value⟩⟩) := by
  induction rest with
  | nil =>
    intro n key inside ahead
    have locked : Cursor.Locked content ⟨message, n, n, flag, .key, ⟨key, value⟩⟩ := ⟨rfl, inside⟩
    refine ⟨⟨inside, ahead⟩, .head ((headerStep_next_iff holds locked).mpr ?_) (.refl _)⟩
    simp [Cursor.test, ahead, scanKey]
  | cons c rest ih =>
    intro n key inside ahead
    have locked : Cursor.Locked content ⟨message, n, n, flag, .key, ⟨key, value⟩⟩ := ⟨rfl, inside⟩
    have behind : content.drop (n + 1) = rest := by rw [← List.tail_drop, ahead, List.tail_cons]
    by_cases stop : c = 0 ∨ c = cr
    · simp only [scanKey, if_pos stop]
      refine ⟨⟨inside, ahead⟩, .head ((headerStep_next_iff holds locked).mpr ?_) (.refl _)⟩
      simp [Cursor.test, ahead, stop]
    · by_cases separator : c = 58 ∧ peek rest = 32
      · simp only [scanKey, if_neg stop, if_pos separator]
        have room : n + 1 < content.length := lt_of_peek (by rw [behind, separator.2]; decide)
        refine ⟨⟨room, by rw [← behind, List.tail_drop]⟩, .head ((headerStep_next_iff holds locked).mpr ?_) (.refl _)⟩
        simp only [Cursor.test, ahead, peek_cons, List.tail_cons, if_neg stop, if_pos separator, List.append_nil]
        rfl
      · simp only [scanKey, if_neg stop, if_neg separator]
        have room : n < content.length := lt_of_peek (by rw [ahead]; exact (not_or.mp stop).1)
        obtain ⟨ends, reached⟩ := ih (n + 1) (key ++ [c]) room behind
        have first : Loop.failing (headerStep request) ⟨message, n, n, flag, .key, ⟨key, value⟩⟩ =
            .next ⟨message, n + 1, n + 1, flag, .key, ⟨key ++ [c], value⟩⟩ :=
          (headerStep_next_iff holds locked).mpr (by simp [Cursor.test, ahead, stop, separator, Cursor.skip])
        rw [List.append_assoc] at reached
        exact ⟨ends, .head first reached⟩

/-- The value loop starts without a line end behind it. -/
theorem reaches_value (message : IncomingHttpMessage) (key rest : Bytes) :
    ∀ (n : Nat) (value : Bytes), n ≤ content.length → content.drop n = rest →
      ((scanValue rest n).eof ≤ content.length ∧ content.drop (scanValue rest n).eof = (scanValue rest n).p) ∧
      Loop.Reaches (Loop.failing (headerStep request)) ⟨message, n, n, false, .value, ⟨key, value⟩⟩
        (Cursor.leaveValue ⟨message, (scanValue rest n).eof, (scanValue rest n).eof, (scanValue rest n).headerLineEnd,
          .value, ⟨key, value ++ (scanValue rest n).value⟩⟩) := by
  induction rest with
  | nil =>
    intro n value inside ahead
    have locked : Cursor.Locked content ⟨message, n, n, false, .value, ⟨key, value⟩⟩ := ⟨rfl, inside⟩
    refine ⟨⟨inside, ahead⟩, .head ((headerStep_next_iff holds locked).mpr ?_) (.refl _)⟩
    simp [Cursor.test, ahead, scanValue]
  | cons c rest ih =>
    intro n value inside ahead
    have locked : Cursor.Locked content ⟨message, n, n, false, .value, ⟨key, value⟩⟩ := ⟨rfl, inside⟩
    have behind : content.drop (n + 1) = rest := by rw [← List.tail_drop, ahead, List.tail_cons]
    by_cases stop : c = 0
    · simp only [scanValue, if_pos stop]
      refine ⟨⟨inside, ahead⟩, .head ((headerStep_next_iff holds locked).mpr ?_) (.refl _)⟩
      simp [Cursor.test, ahead, stop]
    · by_cases ended : c = cr ∧ peek rest = lf
      · simp only [scanValue, if_neg stop, if_pos ended]
        have room : n + 1 < content.length := lt_of_peek (by rw [behind, ended.2]; decide)
        refine ⟨⟨room, by rw [← behind, List.tail_drop]⟩, .head ((headerStep_next_iff holds locked).mpr ?_) (.refl _)⟩
        simp only [Cursor.test, ahead, peek_cons, List.tail_cons, if_neg stop, if_pos ended, List.append_nil]
        rfl
      · simp only [scanValue, if_neg stop, if_neg ended]
        have room : n < content.length := lt_of_peek (by rw [ahead]; exact stop)
        obtain ⟨ends, reached⟩ := ih (n + 1) (value ++ [c]) room behind
        have first : Loop.failing (headerStep request) ⟨message, n, n, false, .value, ⟨key, value⟩⟩ =
            .next ⟨message, n + 1, n + 1, false, .value, ⟨key, value ++ [c]⟩⟩ :=
          (headerStep_next_iff holds locked).mpr (by simp [Cursor.test, ahead, stop, ended, Cursor.skip])
        rw [List.append_assoc] at reached
        exact ⟨ends, .head first reached⟩

/-- The state of the list model at the head of the outer loop. -/
def AtLine (content : Bytes) (state : HeaderState) (cursor : Cursor) : Prop :=
  state.eof ≤ content.length ∧ state.p = content.drop state.eof ∧
    ∃ pair, cursor = ⟨state.message, state.eof, state.eof, state.headerLineEnd, .line, pair⟩

theorem headerStep_refined {state : HeaderState} {cursor : Cursor} (same : AtLine content state cursor) :
    Loop.Step.Refined (Loop.failing (headerStep request)) (AtLine content) Except.ok
      (IncomingHttpMessage.headerStep content state) cursor := by
  obtain ⟨message, p, eof, flag⟩ := state
  obtain ⟨inside, ahead, pair, rfl⟩ := same
  dsimp only at inside ahead ⊢
  subst ahead
  have locked : Cursor.Locked content ⟨message, eof, eof, flag, .line, pair⟩ := ⟨rfl, inside⟩
  rw [IncomingHttpMessage.headerStep]
  split
  next stop =>
    exact .exit (.of_exit (headerStep_exit holds locked (by simp only [Cursor.test, if_pos stop])))
  next running =>
    split
    next short =>
      exact .exit (.of_exit (headerStep_exit holds locked (by simp only [Cursor.test, if_neg running, if_pos short])))
    next room =>
      split
      next blank =>
        have found : (peek (content.drop eof) = cr ∧ peek (content.drop eof).tail = lf) ∧ flag = true := and_assoc.mpr blank
        exact .exit (.of_exit (headerStep_exit holds locked
          (by simp only [Cursor.test, if_neg running, if_neg room, if_pos found])))
      next other =>
        have missing : ¬ ((peek (content.drop eof) = cr ∧ peek (content.drop eof).tail = lf) ∧ flag = true) :=
          fun found => other (and_assoc.mp found)
        have first : Loop.failing (headerStep request) ⟨message, eof, eof, flag, .line, pair⟩ =
            .next ⟨message, eof, eof, false, .key, ⟨[], []⟩⟩ :=
          (headerStep_next_iff holds locked).mpr
            (by simp only [Cursor.test, if_neg running, if_neg room, if_neg missing])
        obtain ⟨⟨bound, behind⟩, keyed⟩ := reaches_key holds message false [] _ eof [] inside rfl
        rw [List.nil_append] at keyed
        dsimp only
        split
        next none =>
          refine .next (.head' first keyed) ⟨bound, behind.symm, ⟨[], []⟩, ?_⟩
          simp [Cursor.leaveKey, none]
        next some =>
          obtain ⟨⟨further, rest⟩, valued⟩ := reaches_value holds message (scanKey (content.drop eof) eof).key _ _ [] bound behind
          rw [List.nil_append] at valued
          have whole := keyed
          simp only [Cursor.leaveKey, if_neg some] at whole
          refine .next (.head' first (whole.trans valued)) ⟨further, rest.symm, _, rfl⟩

end Header

/-- A loop that moves a pointer on while a test holds, and gathers what it passes. -/
theorem reaches_scan {σ ρ : Type} {body : σ → Loop.Step σ ρ} {content : Bytes} {test : UInt8 → Bool} (stops : test 0 = false)
    (place : Nat → Bytes → σ)
    (goes : ∀ n seen, n < content.length → test (peek (content.drop n)) = true →
      body (place n seen) = .next (place (n + 1) (seen ++ [peek (content.drop n)]))) (rest : Bytes) :
    ∀ n seen, n ≤ content.length → content.drop n = rest →
      ∃ ends, ends ≤ content.length ∧ content.drop ends = rest.dropWhile test ∧
        test (peek (content.drop ends)) = false ∧
        Loop.Reaches body (place n seen) (place ends (seen ++ rest.takeWhile test)) := by
  induction rest with
  | nil =>
    intro n seen inside ahead
    rw [List.takeWhile_nil, List.append_nil]
    exact ⟨n, inside, ahead, by rw [ahead]; exact stops, .refl _⟩
  | cons c rest ih =>
    intro n seen inside ahead
    by_cases passes : test c = true
    · have room : n < content.length := lt_of_peek (by
        rw [ahead]
        rintro rfl
        rw [show test 0 = true from passes] at stops
        cases stops)
      have behind : content.drop (n + 1) = rest := by rw [← List.tail_drop, ahead, List.tail_cons]
      have first := goes n seen room (by rw [ahead]; exact passes)
      rw [ahead, peek_cons] at first
      obtain ⟨ends, bound, left, stopped, reached⟩ := ih (n + 1) (seen ++ [c]) room behind
      rw [List.append_assoc, List.singleton_append, ← List.takeWhile_cons_of_pos passes] at reached
      exact ⟨ends, bound, by rw [left, List.dropWhile_cons_of_pos passes], stopped, .head first reached⟩
    · rw [List.takeWhile_cons_of_neg passes, List.append_nil, List.dropWhile_cons_of_neg passes]
      refine ⟨n, inside, ahead, ?_, .refl _⟩
      rw [ahead, peek_cons]
      exact Bool.not_eq_true _ ▸ passes

section Query

variable {text : Text} {content : Bytes} (holds : text.Holds content)
include holds

theorem queryStep_next {cursor after : QueryCursor} (inside : cursor.p ≤ content.length)
    (moves : cursor.test (peek (content.drop cursor.p)) = .next after) :
    Loop.failing (queryStep text) cursor = .next after := by
  apply Loop.failing_next
  rw [queryStep, holds.read inside]
  exact congrArg Except.ok moves

theorem queryStep_exit {cursor : QueryCursor} {result : List HttpPair} (inside : cursor.p ≤ content.length)
    (exits : cursor.test (peek (content.drop cursor.p)) = .exit result) :
    Loop.failing (queryStep text) cursor = .exit (.ok result) := by
  apply Loop.failing_exit
  rw [queryStep, holds.read inside]
  exact congrArg Except.ok exits

/-- The state of the list model at the head of the outer loop. -/
def AtStart (content : Bytes) (state : QueryState) (cursor : QueryCursor) : Prop :=
  ∃ n pair, n ≤ content.length ∧ state.p = content.drop n ∧ cursor = ⟨n, .start, pair, state.queries⟩

theorem queryStep_refined {state : QueryState} {cursor : QueryCursor} (same : AtStart content state cursor) :
    Loop.Step.Refined (Loop.failing (queryStep text)) (AtStart content) Except.ok
      (IncomingHttpMessage.queryStep state) cursor := by
  obtain ⟨p, queries⟩ := state
  obtain ⟨n, pair, inside, ahead, rfl⟩ := same
  dsimp only at ahead ⊢
  subst ahead
  rw [IncomingHttpMessage.queryStep]
  dsimp only
  split
  next stop =>
    exact .exit (.of_exit (queryStep_exit holds inside (by simp only [QueryCursor.test, if_pos stop])))
  next running =>
    have begun : Loop.failing (queryStep text) ⟨n, .start, pair, queries⟩ = .next ⟨n, .separators, ⟨[], []⟩, queries⟩ :=
      queryStep_next holds inside (by simp only [QueryCursor.test, if_neg running])
    obtain ⟨atKey, bound, behind, separated, passed⟩ := reaches_scan (show isSeparator 0 = false by decide)
      (fun m _ => (⟨m, .separators, ⟨[], []⟩, queries⟩ : QueryCursor))
      (fun m seen room passes => queryStep_next holds (Nat.le_of_lt room) (by simp only [QueryCursor.test, passes, if_true]))
      _ n [] inside rfl
    have toKey : Loop.failing (queryStep text) ⟨atKey, .separators, ⟨[], []⟩, queries⟩ =
        .next ⟨atKey, .key, ⟨[], []⟩, queries⟩ :=
      queryStep_next holds bound (by simp only [QueryCursor.test, separated, Bool.false_eq_true, if_false])
    obtain ⟨atEquals, bound, behind, keyed, keys⟩ := reaches_scan (show inKey 0 = false by decide)
      (fun m seen => (⟨m, .key, ⟨seen, []⟩, queries⟩ : QueryCursor))
      (fun m seen room passes => queryStep_next holds (Nat.le_of_lt room) (by simp only [QueryCursor.test, passes, if_true]))
      _ atKey [] bound behind
    rw [List.nil_append] at keys
    generalize ((content.drop n).dropWhile isSeparator).takeWhile inKey = key at keys ⊢
    have toEquals : Loop.failing (queryStep text) ⟨atEquals, .key, ⟨key, []⟩, queries⟩ =
        .next ⟨atEquals, .equals, ⟨key, []⟩, queries⟩ :=
      queryStep_next holds bound (by simp only [QueryCursor.test, keyed, Bool.false_eq_true, if_false])
    obtain ⟨atValue, bound, behind, equalled, equals⟩ := reaches_scan (show isEquals 0 = false by decide)
      (fun m _ => (⟨m, .equals, ⟨key, []⟩, queries⟩ : QueryCursor))
      (fun m seen room passes => queryStep_next holds (Nat.le_of_lt room) (by simp only [QueryCursor.test, passes, if_true]))
      _ atEquals [] bound behind
    have keyRead : Loop.Reaches (Loop.failing (queryStep text)) ⟨n, .separators, ⟨[], []⟩, queries⟩
        ⟨atValue, .equals, ⟨key, []⟩, queries⟩ := passed.trans (.head toKey (keys.trans (.head toEquals equals)))
    have toValue : Loop.failing (queryStep text) ⟨atValue, .equals, ⟨key, []⟩, queries⟩ =
        .next ⟨atValue, if key = [] then .start else .value, ⟨key, []⟩, queries⟩ :=
      queryStep_next holds bound (by simp only [QueryCursor.test, equalled, Bool.false_eq_true, if_false])
    split
    next none =>
      rw [if_pos none] at toValue
      exact .next (.head' begun (keyRead.trans (.head toValue (.refl _)))) ⟨atValue, _, bound, behind.symm, rfl⟩
    next some =>
      rw [if_neg some] at toValue
      obtain ⟨ends, bound, left, valued, values⟩ := reaches_scan (show inValue 0 = false by decide)
        (fun m seen => (⟨m, .value, ⟨key, seen⟩, queries⟩ : QueryCursor))
        (fun m seen room passes => queryStep_next holds (Nat.le_of_lt room) (by simp only [QueryCursor.test, passes, if_true]))
        _ atValue [] bound behind
      rw [List.nil_append] at values
      generalize List.takeWhile inValue _ = value at values ⊢
      have leaves : Loop.failing (queryStep text) ⟨ends, .value, ⟨key, value⟩, queries⟩ =
          .next (QueryCursor.leaveValue ⟨ends, .value, ⟨key, value⟩, queries⟩) :=
        queryStep_next holds bound (by simp only [QueryCursor.test, valued, Bool.false_eq_true, if_false])
      exact .next (.head' begun (keyRead.trans (.head toValue (values.trans (.head leaves (.refl _))))))
        ⟨ends, _, bound, left.symm, rfl⟩

end Query

/-- What comes out over the memory is what the list model returns, and it comes out
wherever the list model returns. -/
structure Same {α : Type} (checked : Nat → Option (Except Fault α)) (plain : Nat → Option α) : Prop where
  of_some : ∀ {fuel value}, checked fuel = some value → ∃ outcome, value = .ok outcome ∧ plain fuel = some outcome
  exits : ∀ {fuel outcome}, plain fuel = some outcome →
    ∃ steps, ∀ more, steps ≤ more → checked more = some (.ok outcome)

namespace Same

variable {α β : Type} {checked : Nat → Option (Except Fault α)} {plain : Nat → Option α}

theorem const (outcome : α) : Same (fun _ => some (.ok outcome)) fun _ => some outcome where
  of_some done := ⟨outcome, (Option.some.inj done).symm, rfl⟩
  exits done := ⟨0, fun _ _ => congrArg (fun outcome => some (Except.ok outcome)) (Option.some.inj done)⟩

theorem map (same : Same checked plain) (f : α → β) :
    Same (fun fuel => (checked fuel).map (·.map f)) fun fuel => (plain fuel).map f where
  of_some done := by
    obtain ⟨found, ran, rfl⟩ := Option.map_eq_some_iff.mp done
    obtain ⟨outcome, rfl, passes⟩ := same.of_some ran
    exact ⟨f outcome, rfl, congrArg (·.map f) passes⟩
  exits done := by
    obtain ⟨outcome, ran, rfl⟩ := Option.map_eq_some_iff.mp done
    obtain ⟨steps, found⟩ := same.exits ran
    exact ⟨steps, fun more le => congrArg (·.map (·.map f)) (found more le)⟩

theorem run {σ τ : Type} {body : σ → Loop.Step σ α} {step : τ → Except Fault (Loop.Step τ α)} {states : σ → τ → Prop}
    (pass : ∀ state cursor, states state cursor →
      Loop.Step.Refined (Loop.failing step) states Except.ok (body state) cursor)
    {state : σ} {cursor : τ} (start : states state cursor) :
    Same (fun fuel => Loop.run (Loop.failing step) fuel cursor) fun fuel => Loop.run body fuel state where
  of_some done := Loop.run_of_refined pass start done
  exits done := by
    obtain ⟨steps, found⟩ := Loop.Exits.refined pass start ⟨_, done⟩
    exact ⟨steps, fun _ le => Loop.run_more found le⟩

end Same

section Parser

variable {text : Text} {content : Bytes} {self : IncomingHttpMessage} {value : Except Fault Outcome} {outcome : Outcome}

theorem pushQueries_same (holds : text.Holds content) {p : Nat} (inside : p ≤ content.length) (eof : Nat) :
    Same (fun fuel => pushQueries fuel self text p eof) fun fuel => self.pushQueries fuel (content.drop p) eof := by
  have start : AtStart content ⟨content.drop p, self.queries⟩ ⟨p, .start, ⟨[], []⟩, self.queries⟩ :=
    ⟨p, _, inside, rfl, rfl⟩
  exact (Same.run (fun _ _ same => queryStep_refined holds same) start).map _

variable {request : CString} (holds : Stored request content)
include holds

theorem deserializeHeader_same (eof : Nat) :
    Same (fun fuel => deserializeHeader fuel self request eof) fun fuel => self.deserializeHeader fuel content eof := by
  simp only [deserializeHeader, IncomingHttpMessage.deserializeHeader, holds.length]
  split
  · exact .const _
  next fits =>
    have inside : eof ≤ content.length := Nat.le_of_not_le fits
    have start : AtLine content ⟨self, content.drop eof, eof, false⟩ (startHeader self eof) := ⟨inside, rfl, _, rfl⟩
    exact .run (fun _ _ same => headerStep_refined holds same) start

omit holds in
theorem complete_inside {fuel eof after : Nat} {message : IncomingHttpMessage}
    (done : self.deserializeHeader fuel content eof = some (.complete message after)) : after ≤ content.length := by
  rw [IncomingHttpMessage.deserializeHeader] at done
  split at done
  · cases done
  · have inside := Loop.run_invariant (fun _ => True)
      (fun result => ∀ message after, result = .complete message after → after ≤ content.length)
      (fun _ _ _ _ => trivial) (fun state result _ exits => ?_) trivial done
    · exact inside message after rfl
    · rintro message after rfl
      rw [IncomingHttpMessage.headerStep] at exits
      split at exits
      · cases exits
      · split at exits
        · cases exits
        next room =>
          split at exits
          · cases exits
            omega
          · dsimp only at exits
            split at exits <;> cases exits

omit holds in
private theorem mark_eq (uri : Bytes) : (ofString uri).strstr (ascii "?") 0 = .ok (CStr.strstr (ascii "?") uri) := by
  rw [(holds_ofString uri).strstr (Nat.zero_le _) (by decide), List.drop_zero]
  simp

omit holds in
private theorem mark_inside {uri : Bytes} {p : Nat} (found : CStr.strstr (ascii "?") uri = some p) : p ≤ uri.length := by
  obtain ⟨before, behind, split, rfl, _⟩ := strstr_some (by decide) found
  rw [split, List.length_append]
  exact Nat.le_add_right _ _

theorem deserializeQuery_same {eof : Nat} (inside : eof ≤ content.length) :
    Same (fun fuel => deserializeQuery fuel self request eof) fun fuel => self.deserializeQuery fuel content eof := by
  simp only [deserializeQuery, IncomingHttpMessage.deserializeQuery, mark_eq, holds.length]
  cases self.method with
  | get =>
    cases found : CStr.strstr (ascii "?") self.uri with
    | none => exact .const _
    | some p => exact pushQueries_same (holds_ofString self.uri) (mark_inside found) _
  | post | response =>
    dsimp only
    split
    · exact .const _
    · exact pushQueries_same (holds_textOf holds) inside _

theorem isEmpty_eq : isEmpty request = .ok (CString.isEmpty content) := by
  rw [isEmpty, holds.length, CString.isEmpty]
  split
  next empty => simp [empty]
  next nonempty =>
    rw [(holds_textOf holds).read (Nat.zero_le _), List.drop_zero]
    simp only [nonempty, false_or, bind, Except.bind]
    rfl

/-- What the parser returns over the memory is what the list model returns. -/
theorem deserialize_of_some {fuel : Nat} (done : deserialize fuel request = some value) :
    ∃ outcome, value = .ok outcome ∧ deserializeWithin fuel content = some outcome := by
  rw [deserialize, isEmpty_eq holds, deserializeMethod_eq holds] at done
  rw [deserializeWithin]
  cases empty : CString.isEmpty content with
  | true =>
    rw [empty] at done
    cases done
    exact ⟨_, rfl, rfl⟩
  | false =>
    rw [empty] at done
    cases first : IncomingHttpMessage.deserializeMethod {} content with
    | incomplete | thrown =>
      rw [first] at done
      cases done
      exact ⟨_, rfl, rfl⟩
    | complete message eof =>
      rw [first] at done
      dsimp only at done ⊢
      cases ran : deserializeHeader fuel message request eof with
      | none =>
        rw [ran] at done
        cases done
      | some result =>
        obtain ⟨outcome, rfl, header⟩ := (deserializeHeader_same holds eof).of_some ran
        rw [ran] at done
        rw [if_neg (by simp), header]
        cases outcome with
        | incomplete | thrown =>
          cases done
          exact ⟨_, rfl, rfl⟩
        | complete message eof => exact (deserializeQuery_same holds (complete_inside header)).of_some done

theorem deserialize_exits {fuel : Nat} (done : deserializeWithin fuel content = some outcome) :
    ∃ steps, deserialize steps request = some (.ok outcome) := by
  simp only [deserialize, isEmpty_eq holds, deserializeMethod_eq holds]
  rw [deserializeWithin] at done
  cases empty : CString.isEmpty content with
  | true =>
    rw [empty] at done
    cases done
    exact ⟨0, rfl⟩
  | false =>
    rw [empty, if_neg (by simp)] at done
    cases first : IncomingHttpMessage.deserializeMethod {} content with
    | incomplete | thrown =>
      rw [first] at done
      cases done
      exact ⟨0, rfl⟩
    | complete message eof =>
      rw [first] at done
      dsimp only at done ⊢
      cases header : message.deserializeHeader fuel content eof with
      | none =>
        rw [header] at done
        cases done
      | some result =>
        obtain ⟨steps, ran⟩ := (deserializeHeader_same holds eof).exits header
        rw [header] at done
        cases result with
        | incomplete | thrown =>
          cases done
          exact ⟨steps, by rw [ran steps (Nat.le_refl _)]⟩
        | complete message eof =>
          obtain ⟨further, queried⟩ := (deserializeQuery_same holds (complete_inside header)).exits done
          refine ⟨max steps further, ?_⟩
          rw [ran _ (Nat.le_max_left _ _)]
          exact queried _ (Nat.le_max_right _ _)

omit holds in
/-- Every read of the parser is of a byte up to the one at `Length()`, pointer and
offset agree in the header loops, and nothing but a DeserializationError gets out: the
searches and the substrings, which throw an InternalError outside their range, stay in it. -/
structure Safe (request : CString) : Prop where
  reads : ∀ fuel fault, deserialize fuel request ≠ some (.error fault)
  lockStep : ∀ message eof cursor, eof < request.length →
    Loop.Reaches (Loop.failing (headerStep request)) (startHeader message eof) cursor → cursor.p = cursor.eof
  thrown : ∀ fuel error message, deserialize fuel request = some (.ok (.thrown error message)) →
    ∃ why, error = .deserializationError why

end Parser

end LibWebserver.Checked
