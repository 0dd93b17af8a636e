import LibWebserver.Proofs.Division
import LibWebserver.Proofs.Buffer

/-! The digit loop and the reversal write the numeral of a value, wherever the divisions
are right; for unsigned values they always are. -/

namespace LibWebserver.Conversions
open CStr Numeral

def glyph (alphabet : Bytes) (d : Nat) : UInt8 := alphabet.getD d 0

/-- The numeral of a number in the letters of an alphabet. -/
def text (alphabet : Bytes) (base n : Nat) : Bytes := (numeral base n).map (glyph alphabet)

@[simp] theorem length_text (alphabet : Bytes) (base n : Nat) : (text alphabet base n).length = (lowFirst base n).length := by
  rw [text, List.length_map, length_numeral]

theorem read_at (before after : Bytes) (c : UInt8) : read (before ++ c :: after) before.length = .ok c := by
  simp [read]

theorem write_at (before after : Bytes) (c d : UInt8) :
    write (before ++ c :: after) before.length d = .ok (before ++ d :: after) := by
  simp [write]

theorem write_inside {str : Bytes} {index : Nat} (inside : index < str.length) (c : UInt8) :
    write str index c = .ok (str.set index c) := if_pos inside

theorem write_outside {str : Bytes} {index : Nat} (outside : str.length ≤ index) (c : UInt8) :
    write str index c = .error (.buffer index) := if_neg (Nat.not_lt.mpr outside)

theorem letter_of_lt {alphabet : Bytes} {d : Nat} (inside : d < alphabet.length) :
    letter alphabet d = .ok (glyph alphabet d) := by
  rw [letter, if_neg (by omega), Int.toNat_natCast, glyph, List.getD_eq_getElem?_getD, List.getElem?_eq_getElem inside]
  rfl

theorem letter_outside {alphabet : Bytes} {index : Int} (outside : index < 0 ∨ (alphabet.length : Int) ≤ index) :
    letter alphabet index = .error (.alphabet index) := by
  unfold letter
  split
  · rfl
  · rw [List.getElem?_eq_none (by omega)]

theorem memcpy_cons {str cs : Bytes} {index : Nat} (inside : index < str.length) (c : UInt8) :
    memcpy (str.set index c) (index + 1) cs = memcpy str index (c :: cs) := by
  have first : (str.set index c).take (index + 1) = str.take index ++ [c] := by
    rw [List.take_add_one, List.take_set_of_le (Nat.le_refl index), List.getElem?_set_self inside]
    rfl
  have rest : (str.set index c).drop (index + 1 + cs.length) = str.drop (index + (c :: cs).length) := by
    rw [List.drop_set_of_lt (by omega), List.length_cons, Nat.add_assoc, Nat.add_comm 1]
  rw [memcpy, memcpy, first, rest]
  simp

/-- One pass swaps the ends of what is still to be reversed. -/
theorem reverseStep_swap (before middle after : Bytes) (c d : UInt8) :
    reverseStep ⟨before ++ c :: middle ++ d :: after, before.length, before.length + middle.length + 1⟩ =
      .ok (.next ⟨before ++ d :: middle ++ c :: after, before.length + 1, before.length + middle.length⟩) := by
  have last : before.length + middle.length + 1 = (before ++ c :: middle).length := by
    rw [List.length_append, List.length_cons]
    omega
  have front (x : UInt8) (rest : Bytes) : before ++ c :: middle ++ x :: rest = before ++ c :: (middle ++ x :: rest) := by simp
  rw [reverseStep, if_pos (by dsimp only; omega)]
  dsimp only
  rw [last, read_at, ok_bind, front, read_at, ok_bind, ← front, write_at, ok_bind, front, write_at, ok_bind, ← last,
    List.append_assoc]
  rfl

theorem strreverse_eq (before part after : Bytes) {fuel : Nat} (enough : part.length < fuel) :
    strreverse fuel (before ++ part ++ after) before.length (before.length + part.length - 1) =
      .ok (before ++ part.reverse ++ after) := by
  induction fuel generalizing before part after with
  | zero => omega
  | succ fuel ih =>
    have stops (short : part.length ≤ 1) (whole : part.reverse = part) :
        strreverse (fuel + 1) (before ++ part ++ after) before.length (before.length + part.length - 1) =
          .ok (before ++ part.reverse ++ after) := by
      rw [whole]
      refine loop_exit ?_ fuel
      rw [reverseStep, if_neg (by dsimp only; omega)]
      rfl
    cases part with
    | nil => exact stops (by simp) rfl
    | cons c part =>
      rcases List.eq_nil_or_concat part with rfl | ⟨middle, d, rfl⟩
      · exact stops (by simp) rfl
      · have swap := reverseStep_swap before middle after c d
        have rest := ih (before ++ [d]) middle (c :: after) (by
          simp only [List.length_cons, List.concat_eq_append, List.length_append] at enough
          omega)
        have left : before ++ c :: middle.concat d ++ after = before ++ c :: middle ++ d :: after := by simp
        have position : before.length + (c :: middle.concat d).length - 1 = before.length + middle.length + 1 := by
          simp only [List.length_cons, List.concat_eq_append, List.length_append, List.length_nil]
          omega
        have behind : (before ++ [d]).length + middle.length - 1 = before.length + middle.length := by
          rw [List.length_append, List.length_singleton]
          omega
        have shape : before ++ [d] ++ middle ++ c :: after = before ++ d :: middle ++ c :: after := by simp
        rw [behind, shape, List.length_append, List.length_singleton] at rest
        rw [left, position, strreverse, loop_next swap]
        refine Eq.trans rest ?_
        simp

variable {w : Nat} {signed : Bool} {base : BitVec w} {alphabet : Bytes} {fuel : Nat}

/-- The division of a value by the base leaves quotient and remainder, and the remainder
is the number of a letter. -/
structure Divides (signed : Bool) (fuel : Nat) (base : BitVec w) (value : BitVec w) : Prop where
  divides : div_ signed fuel (operands value base) .res .base .res .remainder =
    .ok (Function.update (Function.update (operands value base) .res (value / base)) .remainder (value % base))
  index : toInt signed (value % base) = (value.toNat % base.toNat : Nat)

theorem digitStep_eq {state : Digits w} (divides : Divides signed fuel base state.res)
    (letters : base.toNat ≤ alphabet.length) (positive : 0 < base.toNat) :
    digitStep signed fuel base alphabet state =
      if state.wstr < state.str.length then
        let after : Digits w :=
          { str := state.str.set state.wstr (glyph alphabet (state.res.toNat % base.toNat)), wstr := state.wstr + 1
            res := state.res / base, chars := state.chars + 1 }
        .ok (if state.res / base ≠ 0 then .next after else .exit after)
      else .error (.buffer state.wstr) := by
  have inside : state.res.toNat % base.toNat < alphabet.length := Nat.lt_of_lt_of_le (Nat.mod_lt _ positive) letters
  rw [digitStep, divides.divides]
  rw [ok_bind, Function.update_self, divides.index, letter_of_lt inside, ok_bind, Function.update_of_ne (by decide),
    Function.update_self]
  rcases Nat.lt_or_ge state.wstr state.str.length with room | full
  · rw [write_inside room, ok_bind, if_pos room]
    rfl
  · rw [write_outside full, error_bind, if_neg (Nat.not_lt.mpr full)]

theorem quotient_eq_zero_iff (positive : 0 < base.toNat) (value : BitVec w) : value / base = 0 ↔ value.toNat < base.toNat := by
  have quotient : (value / base).toNat = value.toNat / base.toNat := BitVec.toNat_udiv
  constructor
  · intro zero
    rw [zero] at quotient
    exact (Nat.div_eq_zero_iff_lt positive).mp (quotient.symm.trans BitVec.toNat_zero)
  · intro last
    apply BitVec.eq_of_toNat_eq
    rw [quotient, Nat.div_eq_of_lt last]
    exact BitVec.toNat_zero.symm

/-- Every pass takes a bit from the value, at least. -/
theorem quotient_lt_two_pow (low : 2 ≤ base.toNat) {value : BitVec w} {passes : Nat}
    (enough : value.toNat < 2 ^ (passes + 1)) : (value / base).toNat < 2 ^ passes := by
  rw [BitVec.toNat_udiv, Nat.div_lt_iff_lt_mul (by omega)]
  calc value.toNat < 2 ^ (passes + 1) := enough
    _ = 2 ^ passes * 2 := Nat.pow_succ 2 passes
    _ ≤ 2 ^ passes * base.toNat := Nat.mul_le_mul_left _ low

/-- From the last digit on, behind what is in the block already; past the end of the block
the loop faults. -/
theorem digits_run {state : Digits w} {top : Nat} (divides : ∀ value : BitVec w, value.toNat ≤ top → Divides signed fuel base value)
    (letters : base.toNat ≤ alphabet.length) (low : 2 ≤ base.toNat) (small : state.res.toNat ≤ top)
    (inside : state.wstr ≤ state.str.length) {passes : Nat} (enough : state.res.toNat < 2 ^ passes) (some : 0 < passes) :
    loop (digitStep signed fuel base alphabet) passes state =
      let digits := lowFirst base.toNat state.res.toNat
      if state.wstr + digits.length ≤ state.str.length then
        .ok { str := memcpy state.str state.wstr (digits.map (glyph alphabet)), wstr := state.wstr + digits.length, res := 0
              chars := state.chars + digits.length }
      else .error (.buffer state.str.length) := by
  induction passes generalizing state with
  | zero => omega
  | succ passes ih =>
    have step := digitStep_eq (divides state.res small) letters (by omega)
    by_cases room : state.wstr < state.str.length
    · rw [if_pos room] at step
      have quotient : (state.res / base).toNat = state.res.toNat / base.toNat := BitVec.toNat_udiv
      rcases Nat.lt_or_ge state.res.toNat base.toNat with last | more
      · have done := (quotient_eq_zero_iff (by omega) state.res).mpr last
        have exits := step.trans (congrArg Except.ok (if_neg (not_not_intro done)))
        rw [loop_exit exits, lowFirst_of_lt last]
        dsimp only
        rw [if_pos (by simpa using room), done, Nat.mod_eq_of_lt last, List.map_singleton, ← memcpy_cons room]
        simp [memcpy]
      · have onward := mt (quotient_eq_zero_iff (by omega) state.res).mp (Nat.not_lt.mpr more)
        have moves := step.trans (congrArg Except.ok (if_pos onward))
        have less : state.res.toNat / base.toNat ≤ state.res.toNat := Nat.div_le_self _ _
        have halved := quotient_lt_two_pow low enough
        have further : 0 < passes := by
          rcases Nat.eq_zero_or_pos passes with rfl | some
          · simp only [Nat.zero_add, Nat.pow_one] at enough
            omega
          · exact some
        rw [loop_next moves, ih (by dsimp only; omega) (by simpa using room) halved further, lowFirst_of_le low more]
        dsimp only
        rw [quotient, List.length_set, List.length_cons, List.map_cons, ← memcpy_cons room, Nat.add_right_comm,
          ← Nat.add_assoc, Nat.add_right_comm state.chars, ← Nat.add_assoc]
    · rw [if_neg room] at step
      have some := List.length_pos_of_ne_nil (lowFirst_ne_nil base.toNat state.res.toNat)
      rw [loop_error step]
      dsimp only
      rw [if_neg (by omega), (by omega : state.wstr = state.str.length)]

theorem terminate_reverse {str cs : Bytes} (room : cs.length < str.length) (enough : cs.length < fuel) :
    (write (memcpy str 0 cs) cs.length 0 >>= fun str => strreverse fuel str 0 (cs.length - 1)) =
      .ok (cs.reverse ++ 0 :: str.drop (cs.length + 1)) := by
  have block : memcpy str 0 cs = cs ++ str[cs.length] :: str.drop (cs.length + 1) := by
    rw [memcpy, List.take_zero, List.nil_append, Nat.zero_add, List.drop_eq_getElem_cons room]
  have reversed := @strreverse_eq [] cs (0 :: str.drop (cs.length + 1)) fuel enough
  rw [List.nil_append, List.length_nil, Nat.zero_add] at reversed
  rw [block, write_at, ok_bind, reversed]
  rfl

theorem toNat_base {base : Int} (low : 2 ≤ base) (high : base ≤ 35) (wide : 35 < 2 ^ w) :
    (BitVec.ofInt w base).toNat = base.toNat := by
  have small : base < (2 ^ w : Nat) := by omega
  rw [BitVec.toNat_ofInt, Int.emod_eq_of_lt (by omega) small]

theorem intToAlpha_digits {value : BitVec w} {base : Int} {str : Bytes} (low : 2 ≤ base) (high : base ≤ 35)
    (wide : 35 < 2 ^ w) (letters : base ≤ alphabet.length) (positive : ¬ toInt signed value < 0)
    (divides : ∀ below : BitVec w, below.toNat ≤ value.toNat → Divides signed fuel (BitVec.ofInt w base) below)
    (enough : w < fuel) :
    intToAlpha signed fuel value str base alphabet =
      if (numeral base.toNat value.toNat).length < str.length then
        .ok ((numeral base.toNat value.toNat).length,
          text alphabet base.toNat value.toNat ++ 0 :: str.drop ((numeral base.toNat value.toNat).length + 1))
      else .error (.buffer str.length) := by
  have same := toNat_base low high wide
  have least : 2 ≤ base.toNat := by omega
  have bits : 0 < w := by
    rcases Nat.eq_zero_or_pos w with rfl | some
    · simp at wide
    · exact some
  have small : value.toNat < 2 ^ fuel := value.isLt.trans_le (Nat.pow_le_pow_right (by omega) (Nat.le_of_lt enough))
  have short : (lowFirst base.toNat value.toNat).length ≤ w := by
    rw [length_lowFirst_le_iff least bits]
    exact value.isLt.trans_le (Nat.pow_le_pow_left least w)
  have run := @digits_run w signed (BitVec.ofInt w base) alphabet fuel ⟨str, 0, value, 0⟩ value.toNat divides
    (by omega) (by omega) (Nat.le_refl _) (Nat.zero_le _) fuel small (by omega)
  rw [same] at run
  dsimp only at run
  have range : ¬ (base < 2 ∨ base > 35) := by omega
  rw [intToAlpha, if_neg range, run, length_numeral]
  simp only [Nat.zero_add]
  have count : ((lowFirst base.toNat value.toNat).map (glyph alphabet)).length =
      (lowFirst base.toNat value.toNat).length := List.length_map _
  rcases Nat.lt_trichotomy (lowFirst base.toNat value.toNat).length str.length with room | full | behind
  · have ending := @terminate_reverse fuel str _ (count.trans_lt room) (by omega)
    rw [if_pos (Nat.le_of_lt room), if_pos room, ok_bind, if_neg positive, pure_bind, text, numeral, List.map_reverse]
    rw [count] at ending
    change (write _ _ 0 >>= fun str => strreverse fuel str 0 _ >>= fun str => Except.ok (_, str)) = _
    rw [← bind_assoc, ending]
    rfl
  · have outside : (memcpy str 0 ((lowFirst base.toNat value.toNat).map (glyph alphabet))).length ≤
        (lowFirst base.toNat value.toNat).length := by
      rw [CString.length_memcpy (by omega)]
      omega
    rw [if_pos (Nat.le_of_eq full), if_neg (by omega), ok_bind, if_neg positive, pure_bind]
    change (write _ _ 0 >>= _) = _
    rw [write_outside outside, error_bind, full]
  · rw [if_neg (by omega), if_neg (by omega), error_bind]

theorem divides_unsigned {base : BitVec w} (positive : 0 < base.toNat) (value : BitVec w) (enough : w < fuel) :
    Divides false fuel base value where
  divides := @div_unsigned w Operand _ (operands value base) .res .base .res .remainder fuel positive enough
  index := congrArg Nat.cast BitVec.toNat_umod

/-- The specialisation is the general function without the sign. -/
theorem intToAlphaUint64_eq (value : BitVec 64) (str : Bytes) (base : Int) :
    intToAlphaUint64 fuel value str base alphabet = intToAlpha false fuel value str base alphabet := by
  have positive : ¬ toInt false value < 0 := Int.not_lt.mpr (Int.natCast_nonneg _)
  simp only [intToAlphaUint64, intToAlpha, if_neg positive, pure_bind]

theorem intToAlphaUint64_digits {value : BitVec 64} {base : Int} {str : Bytes} (low : 2 ≤ base) (high : base ≤ 35)
    (letters : base ≤ alphabet.length) (enough : 64 < fuel) :
    intToAlphaUint64 fuel value str base alphabet =
      if (numeral base.toNat value.toNat).length < str.length then
        .ok ((numeral base.toNat value.toNat).length,
          text alphabet base.toNat value.toNat ++ 0 :: str.drop ((numeral base.toNat value.toNat).length + 1))
      else .error (.buffer str.length) := by
  have some : 0 < (BitVec.ofInt 64 base).toNat := by
    rw [toNat_base low high (by norm_num)]
    omega
  rw [intToAlphaUint64_eq]
  exact intToAlpha_digits low high (by norm_num) letters (Int.not_lt.mpr (Int.natCast_nonneg _))
    (fun below _ => divides_unsigned some below enough) enough

theorem digit_letters {alphabet : Bytes} (source : alphabet = lowercase ∨ alphabet = uppercase) :
    ∀ d < 36, digit (glyph alphabet d) = some d := by
  rcases source with rfl | rfl <;> decide +kernel

/-- In a block with room for the digits and the terminator, the numeral of the value and
nothing else in front of the terminator. -/
theorem intToAlphaUint64_canonical (value : BitVec 64) {base : Int} (low : 2 ≤ base) (high : base ≤ 35)
    {alphabet str : Bytes} (letters : base ≤ alphabet.length) {k : Nat} (some : 0 < k) (fits : value.toNat < base.toNat ^ k)
    (room : k < str.length) {fuel : Nat} (enough : 64 < fuel) :
    ∃ digits : List Nat, digits ≠ [] ∧ (∀ d ∈ digits, d < base.toNat) ∧ Numeral.value base.toNat digits = value.toNat ∧
      (digits.head? = Option.some 0 → value = 0 ∧ digits = [0]) ∧
      intToAlphaUint64 fuel value str base alphabet =
        .ok (digits.length, digits.map (glyph alphabet) ++ 0 :: str.drop (digits.length + 1)) ∧
      (alphabet = lowercase ∨ alphabet = uppercase →
        strtoull (digits.map (glyph alphabet) ++ 0 :: str.drop (digits.length + 1)) base.toNat = value.toNat) := by
  have least : 2 ≤ base.toNat := by omega
  have short : (numeral base.toNat value.toNat).length < str.length := by
    rw [length_numeral]
    exact Nat.lt_of_le_of_lt ((length_lowFirst_le_iff least some).mpr fits) room
  refine ⟨numeral base.toNat value.toNat, numeral_ne_nil _ _, fun d member => lt_of_mem_numeral least member,
    value_numeral _ _, ?_, ?_, ?_⟩
  · intro zero
    have none := numeral_head zero
    exact ⟨BitVec.eq_of_toNat_eq none, by rw [none, numeral_zero]⟩
  · rw [intToAlphaUint64_digits low high letters enough, if_pos short]
    rfl
  · intro source
    have glyphs : ∀ d < base.toNat, digit (glyph alphabet d) = Option.some d :=
      fun d small => digit_letters source d (by omega)
    have representable : value.toNat ≤ ULONG_MAX := by
      have := value.isLt
      unfold ULONG_MAX
      omega
    exact strtoull_numeral least glyphs representable _

theorem intToAlphaUint64_hexadecimal :
    ∃ digits : List Nat, Numeral.value 16 digits = 48879 ∧
      intToAlphaUint64 65 (48879#64) scratch 16 lowercase =
        .ok (digits.length, digits.map (glyph lowercase) ++ 0 :: scratch.drop (digits.length + 1)) ∧
      strtoull (digits.map (glyph lowercase) ++ 0 :: scratch.drop (digits.length + 1)) 16 = 48879 := by
  obtain ⟨digits, _, _, value, _, done, read⟩ :=
    @intToAlphaUint64_canonical (48879#64) 16 (by decide) (by decide) lowercase scratch (by decide) 4 (by decide)
      (by decide) (by decide) 65 (by decide)
  exact ⟨digits, value, done, read (.inl rfl)⟩

end LibWebserver.Conversions
