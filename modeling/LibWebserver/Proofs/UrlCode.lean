import LibWebserver.UrlCode
import LibWebserver.Proofs.Strings
import LibWebserver.Library.InPlace

/-! What decoding makes of a string. The decoder writes behind itself, so that it
computes a function of the content: the inverse of the encoder, and where every escape is
two digits the decoding of the escapes. -/

namespace LibWebserver
open CStr Checked InPlace

/-- What the passes of `UrlDecode` write. -/
def scanned : Bytes → Bytes
  | 37 :: a :: b :: rest => UInt8.ofInt (strtol16 [a, b]) :: scanned rest
  | c :: rest => c :: scanned rest
  | [] => []

/-- The reference decoder: an escape is a `%` with two hexadecimal digits behind it. -/
def decodeEscapes : Bytes → Bytes
  | 37 :: a :: b :: rest => match xdigit a, xdigit b with
    | some x, some y => UInt8.ofNat (16 * x + y) :: decodeEscapes rest
    | _, _ => 37 :: decodeEscapes (a :: b :: rest)
  | c :: rest => c :: decodeEscapes rest
  | [] => []

/-- Scanned from the left, every `%` with two bytes behind it has two digits there. -/
def EscapesDigits : Bytes → Prop
  | 37 :: a :: b :: rest => (xdigit a).isSome ∧ (xdigit b).isSome ∧ EscapesDigits rest
  | _ :: rest => EscapesDigits rest
  | [] => True

theorem scanned_cons {c : UInt8} {rest : Bytes} (plain : ∀ a b tail, c = 37 → rest = a :: b :: tail → False) :
    scanned (c :: rest) = c :: scanned rest := by
  rw [scanned]
  exact plain

namespace Decoding

variable {d after : Decoding} {out rest : Bytes}

theorem read_of_rewriting (rewriting : Rewriting d.string d.src d.dst out rest) {i : Nat} {c : UInt8}
    (here : rest[i]? = some c) : d.read (d.src + i) = .ok c := by
  rw [read, rewriting.getElem? i, here]

theorem put_of_rewriting (rewriting : Rewriting d.string d.src d.dst out rest) (more : 0 < rest.length) (c : UInt8) :
    d.put c = .ok { d with string := d.string.set d.dst c, dst := d.dst + 1 } := by
  have length := rewriting.length_block
  have behind := rewriting.behind
  exact if_pos (by omega)

theorem step_nul {tail : Bytes} (rewriting : Rewriting d.string d.src d.dst out (0 :: tail)) :
    d.step = .ok (.exit { string := d.string.set d.dst 0, length := d.length, reserved := d.reserved }) := by
  have first : d.read d.src = .ok 0 := read_of_rewriting rewriting (i := 0) rfl
  simp only [step, first, put_of_rewriting rewriting (Nat.succ_pos _), bind, Except.bind, if_true]
  rfl

theorem step_escape {a b : UInt8} {tail : Bytes} (rewriting : Rewriting d.string d.src d.dst out (37 :: a :: b :: tail))
    (second : a ≠ 0) (third : b ≠ 0) :
    ∃ after, d.step = .ok (.next after) ∧
      Rewriting after.string after.src after.dst (out ++ [UInt8.ofInt (strtol16 [a, b])]) tail ∧
      after.length = subSize d.length 2 ∧ after.reserved = addSize d.reserved 2 := by
  have percent : d.read d.src = .ok 37 := read_of_rewriting rewriting (i := 0) rfl
  have high : d.read (d.src + 1) = .ok a := read_of_rewriting rewriting (i := 1) rfl
  have low : d.read (d.src + 2) = .ok b := read_of_rewriting rewriting (i := 2) rfl
  have escape : d.atEscape = .ok true := by
    simp only [atEscape, percent, high, low, bind, Except.bind, ne_eq, not_true_eq_false, if_false, if_neg second]
    simp [third, pure, Except.pure]
  have zero : ¬ (37 : UInt8) = 0 := by decide
  let c := UInt8.ofInt (strtol16 [a, b])
  refine ⟨⟨d.string.set d.dst c, d.src + 3, d.dst + 1, subSize d.length 2, addSize d.reserved 2⟩, ?_,
    rewriting.put (n := 3) (by decide) (by simp) c, rfl, rfl⟩
  simp only [step, percent, escape, high, low, put_of_rewriting rewriting (Nat.succ_pos _), bind, Except.bind, if_neg zero,
    if_true]
  rfl

theorem step_plain {c : UInt8} {tail : Bytes} (rewriting : Rewriting d.string d.src d.dst out (c :: tail)) (nonzero : c ≠ 0)
    (plain : d.atEscape = .ok false) :
    ∃ after, d.step = .ok (.next after) ∧ Rewriting after.string after.src after.dst (out ++ [c]) tail ∧
      after.length = d.length ∧ after.reserved = d.reserved := by
  have first : d.read d.src = .ok c := read_of_rewriting rewriting (i := 0) rfl
  refine ⟨⟨d.string.set d.dst c, d.src + 1, d.dst + 1, d.length, d.reserved⟩, ?_,
    rewriting.put (n := 1) (by decide) (by simp) c, rfl, rfl⟩
  simp only [step, first, plain, put_of_rewriting rewriting (Nat.succ_pos _), bind, Except.bind, if_neg nonzero]
  rfl

/-- The NUL behind the content ends an escape that is cut off. -/
theorem atEscape_false {c : UInt8} {content tail : Bytes}
    (rewriting : Rewriting d.string d.src d.dst out (c :: content ++ 0 :: tail))
    (plain : ∀ a b rest, c = 37 → content = a :: b :: rest → False) : d.atEscape = .ok false := by
  have first : d.read d.src = .ok c := read_of_rewriting rewriting (i := 0) rfl
  by_cases percent : c = 37
  · subst percent
    cases content with
    | nil =>
      have second : d.read (d.src + 1) = .ok 0 := read_of_rewriting rewriting (i := 1) rfl
      simp [atEscape, first, second, bind, Except.bind, pure, Except.pure]
    | cons a rest =>
      have second : d.read (d.src + 1) = .ok a := read_of_rewriting rewriting (i := 1) rfl
      cases rest with
      | nil =>
        have third : d.read (d.src + 2) = .ok 0 := read_of_rewriting rewriting (i := 2) rfl
        simp [atEscape, first, second, third, bind, Except.bind, pure, Except.pure]
      | cons b rest => exact absurd rfl (plain a b rest rfl)
  · simp [atEscape, first, percent, bind, Except.bind, pure, Except.pure]

/-- The loop writes what it scans up to the NUL, and counts what it takes. -/
theorem run_scanned (content : Bytes) (nonzero : 0 ∉ content) {tail : Bytes}
    (rewriting : Rewriting d.string d.src d.dst out (content ++ 0 :: tail)) (length : d.length = out.length + content.length)
    (sized : d.length + d.reserved < 2 ^ 64) {fuel : Nat} (enough : content.length < fuel) :
    ∃ after, Loop.run (Loop.failing step) fuel d = some (.ok after) ∧ after.content = out ++ scanned content ∧
      after.length = (out ++ scanned content).length ∧ after.length + after.reserved = d.length + d.reserved ∧
      after.string[after.length]? = some 0 := by
  obtain ⟨fuel, rfl⟩ : ∃ n, fuel = n + 1 := ⟨fuel - 1, by omega⟩
  induction content using scanned.induct generalizing d out fuel with
  | case1 a b rest ih =>
    have second : a ≠ 0 := fun zero => nonzero (by simp [zero])
    have third : b ≠ 0 := fun zero => nonzero (by simp [zero])
    obtain ⟨next, moves, going, shorter, larger⟩ := step_escape rewriting second third
    simp only [List.length_cons] at length enough
    rw [subSize] at shorter
    rw [addSize] at larger
    obtain ⟨fuel, rfl⟩ : ∃ n, fuel = n + 1 := ⟨fuel - 1, by omega⟩
    obtain ⟨after, done, content, count, total, terminated⟩ := ih (fun member => nonzero (by simp [member])) going
      (by rw [List.length_append, List.length_singleton]; omega) (by omega) fuel (by omega)
    refine ⟨after, (Loop.run_next _ (Loop.failing_next moves)).trans done, ?_, ?_, by omega, terminated⟩
    · rw [content, scanned, List.append_assoc, List.singleton_append]
    · rw [count, scanned, List.append_assoc, List.singleton_append]
  | case2 c rest plain ih =>
    have first : c ≠ 0 := fun zero => nonzero (by simp [zero])
    obtain ⟨next, moves, going, same, kept⟩ := step_plain rewriting first (atEscape_false rewriting plain)
    simp only [List.length_cons] at length enough
    obtain ⟨fuel, rfl⟩ : ∃ n, fuel = n + 1 := ⟨fuel - 1, by omega⟩
    obtain ⟨after, done, content, count, total, terminated⟩ := ih (fun member => nonzero (by simp [member])) going
      (by rw [List.length_append, List.length_singleton]; omega) (by omega) fuel (by omega)
    refine ⟨after, (Loop.run_next _ (Loop.failing_next moves)).trans done, ?_, ?_, by omega, terminated⟩
    · rw [content, scanned_cons plain, List.append_assoc, List.singleton_append]
    · rw [count, scanned_cons plain, List.append_assoc, List.singleton_append]
  | case3 =>
    have wrote := rewriting.length_out
    have block := rewriting.length_block
    have behind := rewriting.behind
    simp only [List.nil_append, List.length_cons, List.length_nil, Nat.add_zero] at block length rewriting
    refine ⟨_, Loop.run_exit _ (Loop.failing_exit (step_nul rewriting)), ?_, ?_, rfl, ?_⟩
    · rw [CString.content, scanned, List.append_nil]
      dsimp only
      rw [length, wrote, List.take_set_of_le (Nat.le_refl _), rewriting.written]
    · rw [scanned, List.append_nil]
      exact length
    · dsimp only
      rw [length, wrote, List.getElem?_set_self (by omega)]

private theorem bind_eq_ok {α β : Type} {x : Except Fault α} {f : α → Except Fault β} {b : β} :
    x >>= f = .ok b ↔ ∃ a, x = .ok a ∧ f a = .ok b := by
  cases x with
  | error fault => simp [bind, Except.bind]
  | ok a => simp [bind, Except.bind]

theorem step_next (moves : d.step = .ok (.next after)) :
    ∃ n c, 0 < n ∧ d.src + n ≤ d.string.length ∧
      after.string = d.string.set d.dst c ∧ after.src = d.src + n ∧ after.dst = d.dst + 1 := by
  have put {d after : Decoding} {c : UInt8} (done : d.put c = .ok after) :
      after = { d with string := d.string.set d.dst c, dst := d.dst + 1 } := by
    unfold Decoding.put at done
    split at done
    · exact (Except.ok.inj done).symm
    · cases done
  have inside {i : Nat} {c : UInt8} (done : d.read i = .ok c) : i < d.string.length := by
    unfold read at done
    split at done
    next here => exact (List.getElem?_eq_some_iff.mp here).1
    next => cases done
  unfold step at moves
  obtain ⟨c, first, moves⟩ := bind_eq_ok.mp moves
  split at moves
  · obtain ⟨_, _, moves⟩ := bind_eq_ok.mp moves
    cases moves
  · obtain ⟨escape, _, moves⟩ := bind_eq_ok.mp moves
    split at moves
    · obtain ⟨a, _, moves⟩ := bind_eq_ok.mp moves
      obtain ⟨b, third, moves⟩ := bind_eq_ok.mp moves
      obtain ⟨wrote, done, moves⟩ := bind_eq_ok.mp moves
      cases moves
      have reached := inside third
      rw [put done]
      exact ⟨3, _, by decide, by omega, rfl, rfl, rfl⟩
    · obtain ⟨again, _, moves⟩ := bind_eq_ok.mp moves
      obtain ⟨wrote, done, moves⟩ := bind_eq_ok.mp moves
      cases moves
      have reached := inside first
      rw [put done]
      exact ⟨1, _, by decide, by omega, rfl, rfl, rfl⟩

/-- No byte is overwritten before it has been read, whatever the block holds. -/
theorem unread_of_reaches (reaches : Loop.Reaches (Loop.failing step) d after) (start : Rewriting d.string d.src d.dst out rest) :
    after.dst ≤ after.src ∧ after.string.drop after.src = d.string.drop after.src := by
  have kept : d.src ≤ after.src ∧
      ∃ written, Rewriting after.string after.src after.dst written (d.string.drop after.src) := by
    induction reaches with
    | refl => exact ⟨Nat.le_refl _, out, start.unread ▸ start⟩
    | @tail before last _ moves ih =>
      obtain ⟨later, written, rewriting⟩ := ih
      obtain ⟨n, c, some, inside, string, src, dst⟩ := step_next (Loop.failing_next_iff.mp moves)
      refine ⟨by omega, written ++ [c], ?_⟩
      have available : n ≤ (d.string.drop before.src).length := by
        rw [← rewriting.unread, List.length_drop]
        omega
      have next := rewriting.put some available c
      rw [List.drop_drop] at next
      rw [string, src, dst]
      exact next
  obtain ⟨_, written, rewriting⟩ := kept
  exact ⟨rewriting.behind, rewriting.unread⟩

end Decoding

theorem urlDecode_scanned {s : CString} (refines : s.Refines s.content) (block : s.string ≠ []) (nonzero : 0 ∉ s.content) :
    ∃ after, s.urlDecode = some (.ok after) ∧ after.content = scanned s.content ∧
      after.length = (scanned s.content).length ∧ after.length + after.reserved = s.length + s.reserved ∧
      after.string[after.length]? = some 0 := by
  obtain ⟨tail, split⟩ := refines.split (refines.terminated block)
  have start : Rewriting s.startDecoding.string s.startDecoding.src s.startDecoding.dst [] (s.content ++ 0 :: tail) := by
    rw [← split]
    exact Rewriting.start s.string
  have fits : s.content.length < s.string.length + 1 := by
    rw [split, List.length_append]
    omega
  have small := refines.small
  exact Decoding.run_scanned s.content nonzero start (by rw [List.length_nil, Nat.zero_add]; exact refines.length)
    (show s.length + s.reserved < 2 ^ 64 by omega) fits

theorem hexDigit_spec (dig : UInt8) (nibble : dig.toNat < 16) : xdigit (hexDigit dig) = some dig.toNat := by
  have each : ∀ n < 16, xdigit (hexDigit (UInt8.ofNat n)) = some n := by decide
  have here := each dig.toNat nibble
  rwa [UInt8.ofNat_toNat] at here

theorem high_nibble (c : UInt8) : ((c &&& 0xF0) >>> 4).toNat = c.toNat / 16 := by
  have each : ∀ n < 256, ((UInt8.ofNat n &&& 0xF0) >>> 4).toNat = n / 16 := by decide +kernel
  have here := each c.toNat c.toNat_lt
  rwa [UInt8.ofNat_toNat] at here

theorem low_nibble (c : UInt8) : (c &&& 0x0F).toNat = c.toNat % 16 := by
  rw [UInt8.toNat_and]
  exact Nat.and_two_pow_sub_one_eq_mod c.toNat 4

theorem ofInt_natCast (n : Nat) : UInt8.ofInt n = UInt8.ofNat n := by
  have rest : ((n : Int) % 2 ^ 8).toNat = n % 2 ^ 8 := by omega
  rw [UInt8.ofInt, rest]
  exact UInt8.ofNat_mod_size

theorem strtol16_char2hex (c : UInt8) : UInt8.ofInt (strtol16 (char2hex c)) = c := by
  have size := c.toNat_lt
  have high := hexDigit_spec ((c &&& 0xF0) >>> 4) (by rw [high_nibble]; omega)
  have low := hexDigit_spec (c &&& 0x0F) (by rw [low_nibble]; omega)
  have whole : 16 * (c.toNat / 16) + c.toNat % 16 = c.toNat := by omega
  rw [char2hex, strtol16_pair high low, high_nibble, low_nibble, whole, ofInt_natCast, UInt8.ofNat_toNat]

theorem hexDigit_ne_zero (dig : UInt8) (nibble : dig.toNat < 16) : hexDigit dig ≠ 0 := by
  intro zero
  have digit := hexDigit_spec dig nibble
  rw [zero] at digit
  cases digit

theorem not_isUnreserved {c : UInt8} (plain : isUnreserved c) : c ≠ 37 ∧ c ≠ 0 := by
  constructor <;> rintro rfl <;> exact absurd plain (by decide)

theorem zero_not_mem_urlEncode (src : Bytes) : 0 ∉ urlEncode src := by
  intro member
  obtain ⟨c, _, member⟩ := List.mem_flatMap.mp member
  split at member
  next plain => exact (not_isUnreserved plain).2 (List.mem_singleton.mp member).symm
  next =>
    have size := c.toNat_lt
    have high := hexDigit_ne_zero ((c &&& 0xF0) >>> 4) (by rw [high_nibble]; omega)
    have low := hexDigit_ne_zero (c &&& 0x0F) (by rw [low_nibble]; omega)
    simp only [char2hex, List.mem_cons, List.not_mem_nil, or_false] at member
    rcases member with percent | zero | zero
    · exact absurd percent (by decide)
    · exact high zero.symm
    · exact low zero.symm

theorem scanned_urlEncode (src : Bytes) : scanned (urlEncode src) = src := by
  induction src with
  | nil => rfl
  | cons c src ih =>
    have split : urlEncode (c :: src) = (if isUnreserved c then [c] else 37 :: char2hex c) ++ urlEncode src := rfl
    rw [split]
    split_ifs with plain
    · rw [List.singleton_append, scanned_cons fun _ _ _ percent => absurd percent (not_isUnreserved plain).1, ih]
    · have escape : 37 :: char2hex c ++ urlEncode src =
          37 :: hexDigit ((c &&& 0xF0) >>> 4) :: hexDigit (c &&& 0x0F) :: urlEncode src := rfl
      rw [escape, scanned, ih]
      exact congrArg (· :: src) (strtol16_char2hex c)

theorem ofBytes_block {str : Bytes} {s : CString} (made : CString.ofBytes str = some s) : s.string ≠ [] ∧ s.reserved = 0 := by
  simp only [CString.ofBytes, Option.bind_eq_bind, Option.bind_eq_some_iff, Option.pure_def, Option.some.injEq] at made
  obtain ⟨block, _, terminated, stored, rfl⟩ := made
  refine ⟨?_, rfl⟩
  unfold store at stored
  split at stored <;> cases stored
  simp [memcpy]

/-- Decoding an encoded string gives the string back, in the block of the encoded one, and
overwrites no byte that is still to be read. -/
theorem urlDecode_urlEncode (src : Bytes) (sized : (urlEncode src).length + 1 < 2 ^ 64) :
    ∃ encoded after, CString.ofBytes (urlEncode src) = some encoded ∧ encoded.urlDecode = some (.ok after) ∧
      after.length = src.length ∧ after.content = src ∧ after.string[after.length]? = some 0 ∧
      after.length + after.reserved = (urlEncode src).length ∧
      ∀ decoding, Loop.Reaches (Loop.failing Decoding.step) encoded.startDecoding decoding →
        decoding.dst ≤ decoding.src ∧
          decoding.string.drop decoding.src = encoded.string.drop decoding.src := by
  obtain ⟨encoded, made, refines⟩ := CString.ofBytes_refines sized
  obtain ⟨block, reserved⟩ := ofBytes_block made
  have content := refines.content
  obtain ⟨after, done, same, length, total, terminated⟩ := urlDecode_scanned (content.symm ▸ refines) block
    (by rw [content]; exact zero_not_mem_urlEncode src)
  rw [content, scanned_urlEncode] at same length
  refine ⟨encoded, after, made, done, length, same, terminated, ?_, fun decoding reaches => ?_⟩
  · rw [total, reserved, refines.length, Nat.add_zero]
  · exact Decoding.unread_of_reaches reaches (Rewriting.start encoded.string)

theorem urlDecode_urlEncode_space :
    ∃ encoded after, CString.ofBytes (urlEncode [0, 32, 65]) = some encoded ∧ encoded.urlDecode = some (.ok after) ∧
      after.length = 3 ∧ after.content = [0, 32, 65] ∧ after.string[after.length]? = some 0 ∧
      after.length + after.reserved = (urlEncode [0, 32, 65]).length ∧
      ∀ decoding, Loop.Reaches (Loop.failing Decoding.step) encoded.startDecoding decoding →
        decoding.dst ≤ decoding.src ∧
          decoding.string.drop decoding.src = encoded.string.drop decoding.src :=
  urlDecode_urlEncode [0, 32, 65] (by decide)

theorem scanned_digits {a b : UInt8} {x y : Nat} (first : xdigit a = some x) (second : xdigit b = some y) :
    UInt8.ofInt (strtol16 [a, b]) = UInt8.ofNat (16 * x + y) := by
  rw [strtol16_pair first second, ofInt_natCast]

/-- What `strtol` makes of a malformed escape is never the `%` that should stay. -/
theorem malformed_ne_percent {a b : UInt8} (malformed : xdigit a = none ∨ xdigit b = none) :
    UInt8.ofInt (strtol16 [a, b]) ≠ 37 := by
  obtain ⟨low, high⟩ := strtol16_malformed malformed
  interval_cases strtol16 [a, b] <;> decide

theorem decodeEscapes_cons {c : UInt8} {rest : Bytes} (plain : ∀ a b tail, c = 37 → rest = a :: b :: tail → False) :
    decodeEscapes (c :: rest) = c :: decodeEscapes rest := by
  rw [decodeEscapes]
  exact plain

theorem escapesDigits_cons {c : UInt8} {rest : Bytes} (plain : ∀ a b tail, c = 37 → rest = a :: b :: tail → False) :
    EscapesDigits (c :: rest) ↔ EscapesDigits rest := by
  rw [EscapesDigits]
  exact plain

/-- The decoders part at the first malformed escape. -/
theorem scanned_eq_decodeEscapes_iff (bytes : Bytes) : scanned bytes = decodeEscapes bytes ↔ EscapesDigits bytes := by
  induction bytes using scanned.induct with
  | case1 a b rest ih =>
    rw [scanned, decodeEscapes, EscapesDigits]
    cases first : xdigit a with
    | none =>
      refine iff_of_false (fun same => ?_) (by simp)
      exact malformed_ne_percent (.inl first) (List.cons.inj same).1
    | some x =>
      cases second : xdigit b with
      | none =>
        refine iff_of_false (fun same => ?_) (by simp)
        exact malformed_ne_percent (.inr second) (List.cons.inj same).1
      | some y =>
        simp only [scanned_digits first second, List.cons.injEq, ih, true_and, Option.isSome_some]
  | case2 c rest plain ih =>
    rw [scanned_cons plain, decodeEscapes_cons plain, escapesDigits_cons plain, List.cons.injEq, ih]
    exact and_iff_right rfl
  | case3 => exact iff_of_true rfl trivial

/-- `UrlDecode` is the reference decoder on the strings whose escapes are all well formed. -/
theorem urlDecode_decodes_iff (s : CString) (refines : s.Refines s.content) (block : s.string ≠ [])
    (nonzero : 0 ∉ s.content) :
    (∃ after, s.urlDecode = some (.ok after) ∧ after.content = decodeEscapes s.content ∧
      after.length = (decodeEscapes s.content).length) ↔ EscapesDigits s.content := by
  obtain ⟨result, done, content, length, _⟩ := urlDecode_scanned refines block nonzero
  rw [← scanned_eq_decodeEscapes_iff]
  constructor
  · rintro ⟨after, again, same, _⟩
    rw [done] at again
    cases again
    rw [← content, same]
  · intro same
    exact ⟨result, done, content.trans same, length.trans (congrArg List.length same)⟩

theorem urlDecode_decodes_iff_letter :
    (∃ after, (⟨[37, 52, 49, 0], 3, 0⟩ : CString).urlDecode = some (.ok after) ∧
      after.content = decodeEscapes [37, 52, 49] ∧ after.length = (decodeEscapes [37, 52, 49]).length) ↔
    EscapesDigits [37, 52, 49] :=
  urlDecode_decodes_iff ⟨[37, 52, 49, 0], 3, 0⟩
    (CString.Stored.refines ⟨.inl (by decide), by decide, rfl⟩ fun _ => rfl) (by decide) (by decide)

/-- `%zz` is made into a NUL. -/
theorem malformed_decodes :
    ¬ ∀ s : CString, s.Refines s.content → s.string ≠ [] → 0 ∉ s.content →
      ∃ after, s.urlDecode = some (.ok after) ∧ after.content = decodeEscapes s.content ∧
        after.length = (decodeEscapes s.content).length := by
  intro always
  obtain ⟨after, done, content, _⟩ := always ⟨[37, 122, 122, 0], 3, 0⟩
    (CString.Stored.refines ⟨.inl (by decide), by decide, rfl⟩ fun _ => rfl) (by decide) (by decide)
  have ran : CString.urlDecode ⟨[37, 122, 122, 0], 3, 0⟩ = some (.ok ⟨[0, 0, 122, 0], 1, 2⟩) := by decide +kernel
  rw [ran] at done
  cases done
  exact absurd content (by decide)

end LibWebserver
