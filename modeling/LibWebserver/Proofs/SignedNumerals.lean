import LibWebserver.Proofs.Padding

/-! Signed values. The division is right as long as the dividend stops the doubling of the
divisor. When the sign bit stops it, the shifted divisor is negative and the remainder is
no digit, and neither is it when the dividend is negative. -/

namespace LibWebserver.Conversions
open CStr Numeral ShiftSubtract

variable {w : Nat}

theorem toInt_sub_of_bounds {x y : BitVec w} (positive : 0 < w) (low : -(2 ^ (w - 1) : Nat) ≤ x.toInt - y.toInt)
    (high : x.toInt - y.toInt < (2 ^ (w - 1) : Nat)) : (x - y).toInt = x.toInt - y.toInt := by
  have room := twice_top positive
  rw [BitVec.toInt_sub]
  exact Int.bmod_eq_of_le_mul_two (by omega) (by omega)

theorem toInt_of_nonneg {value : BitVec w} (positive : 0 ≤ value.toInt) :
    value.toInt = value.toNat ∧ value.toNat < 2 ^ (w - 1) := by
  have half : 2 ^ w ≤ 2 * 2 ^ (w - 1) := by
    rw [← Nat.pow_succ']
    exact Nat.pow_le_pow_right (by omega) (by omega)
  have sign := @BitVec.toInt_eq_toNat_cond w value
  split at sign <;> omega

/-- The shifted divisor is a negative multiple of the bit. -/
structure Negative (state : Division w) (c i : Nat) : Prop where
  bit : state.x.toNat = 2 ^ i
  divisor : state.d.toInt = -(c * 2 ^ i : Nat)
  room : 2 ^ i < 2 ^ (w - 1)

theorem negative_pass {state : Division w} {c i : Nat} (negative : Negative state c i) :
    ∃ after, subtractStep true state = .ok (.next after) ∧ after.x.toNat = 2 ^ i / 2 ∧
      after.d.toInt = -(c * 2 ^ i : Nat) / 2 ∧
      after.n = if -(c * 2 ^ i : Nat) ≤ state.n.toInt then state.n - state.d else state.n := by
  have running : state.x ≠ 0 := by
    apply nonzero_of_pos
    rw [negative.bit]
    exact Nat.two_pow_pos i
  have small : state.x.toNat < limit true w := by
    rw [negative.bit]
    exact negative.room
  have bit : (shiftRight true state.x 1).toNat = 2 ^ i / 2 := by
    rw [shiftRight_of_lt_limit small, negative.bit, Nat.pow_one]
  have divisor : (shiftRight true state.d 1).toInt = -(c * 2 ^ i : Nat) / 2 := by
    rw [shiftRight, if_pos rfl, BitVec.toInt_sshiftRight, negative.divisor, Int.shiftRight_eq_div_pow]
    rfl
  have compared : atLeast true state.n state.d = decide (-(c * 2 ^ i : Nat) ≤ state.n.toInt) := by
    rw [← negative.divisor]
    exact BitVec.sle_eq_decide
  refine ⟨_, by rw [subtractStep, if_pos running]; rfl, ?_⟩
  rw [compared]
  by_cases fits : -(c * 2 ^ i : Nat) ≤ state.n.toInt
  · rw [if_pos (decide_eq_true fits), if_pos fits]
    exact ⟨bit, divisor, rfl⟩
  · rw [if_neg (by rw [decide_eq_true_iff]; exact fits), if_neg fits]
    exact ⟨bit, divisor, rfl⟩

theorem negative_next {after : Division w} {c i : Nat} (bit : after.x.toNat = 2 ^ (i + 1) / 2)
    (divisor : after.d.toInt = -(c * 2 ^ (i + 1) : Nat) / 2) (room : 2 ^ (i + 1) < 2 ^ (w - 1)) : Negative after c i := by
  have twice := double c i
  have power := double 1 i
  simp only [Nat.one_mul] at power
  exact ⟨by omega, by omega, by omega⟩

theorem never_runs {state : Division w} {c i fuel : Nat} (negative : Negative state c i)
    (below : state.n.toInt < -(c * 2 ^ i : Nat)) (enough : i + 1 < fuel) :
    ∃ after, loop (subtractStep true) fuel state = .ok after ∧ after.n = state.n := by
  induction i generalizing state fuel with
  | zero =>
    obtain ⟨fuel, rfl⟩ := Nat.exists_eq_add_of_le' (by omega : 2 ≤ fuel)
    obtain ⟨after, moves, bit, _, dividend⟩ := negative_pass negative
    rw [if_neg (by omega)] at dividend
    exact ⟨after, (loop_next moves (fuel + 1)).trans (loop_exit (subtract_done bit) fuel), dividend⟩
  | succ i ih =>
    obtain ⟨fuel, rfl⟩ := Nat.exists_eq_add_of_le' (by omega : 1 ≤ fuel)
    obtain ⟨after, moves, bit, divisor, dividend⟩ := negative_pass negative
    rw [if_neg (by omega)] at dividend
    have next := negative_next bit divisor negative.room
    have twice := double c i
    have passes : i + 1 < fuel := by omega
    obtain ⟨final, done, same⟩ := ih next (by rw [dividend]; omega) passes
    exact ⟨final, (loop_next moves fuel).trans done, same.trans dividend⟩

theorem negative_width {state : Division w} {c i : Nat} (negative : Negative state c i) : 0 < w := by
  rcases Nat.eq_zero_or_pos w with rfl | some
  · have room := negative.room
    have power := Nat.two_pow_pos i
    simp only [Nat.zero_sub, Nat.pow_zero] at room
    omega
  · exact some

theorem negative_grown {state : Division w} {c i : Nat} (negative : Negative state c i)
    (low : -(c * 2 ^ i : Nat) ≤ state.n.toInt) (bounded : state.n.toInt + (c * 2 ^ i : Nat) < (2 ^ (w - 1) : Nat)) :
    (state.n - state.d).toInt = state.n.toInt + (c * 2 ^ i : Nat) := by
  have divisor := negative.divisor
  rw [toInt_sub_of_bounds (negative_width negative) (by omega) (by omega)]
  omega

theorem grows_runs {state : Division w} {c i fuel : Nat} (negative : Negative state c i) (positive : 0 ≤ state.n.toInt)
    (bounded : state.n.toInt + 2 * (c * 2 ^ i : Nat) < (2 ^ (w - 1) : Nat)) (enough : i + 1 < fuel) :
    ∃ after, loop (subtractStep true) fuel state = .ok after ∧ state.n.toInt + (c * 2 ^ i : Nat) ≤ after.n.toInt := by
  induction i generalizing state fuel with
  | zero =>
    obtain ⟨fuel, rfl⟩ := Nat.exists_eq_add_of_le' (by omega : 2 ≤ fuel)
    obtain ⟨after, moves, bit, _, dividend⟩ := negative_pass negative
    rw [if_pos (by omega)] at dividend
    refine ⟨after, (loop_next moves (fuel + 1)).trans (loop_exit (subtract_done bit) fuel), ?_⟩
    rw [dividend, negative_grown negative (by omega) (by omega)]
  | succ i ih =>
    obtain ⟨fuel, rfl⟩ := Nat.exists_eq_add_of_le' (by omega : 1 ≤ fuel)
    obtain ⟨after, moves, bit, divisor, dividend⟩ := negative_pass negative
    rw [if_pos (by omega)] at dividend
    have grown : after.n.toInt = state.n.toInt + (c * 2 ^ (i + 1) : Nat) := by
      rw [dividend, negative_grown negative (by omega) (by omega)]
    have next := negative_next bit divisor negative.room
    have twice := double c i
    have passes : i + 1 < fuel := by omega
    obtain ⟨final, done, more⟩ := ih next (by omega) (by omega) passes
    exact ⟨final, (loop_next moves fuel).trans done, by omega⟩

/-- A divisor whose sign bit stopped the doubling is negative. It is a multiple of the bit,
like the type's range. -/
theorem exists_negative {state : Division w} {d i : Nat} (doubled : Doubled state d i) (some : 2 ≤ d)
    (stopped : 2 ^ (w - 1) ≤ d * 2 ^ i) (fits : d * 2 ^ i < 2 ^ w) :
    ∃ c, Negative state c i ∧ 2 ^ w = d * 2 ^ i + c * 2 ^ i ∧ 0 < c := by
  have bits : i < w := by
    have power : 2 ^ i ≤ d * 2 ^ i := Nat.le_mul_of_pos_left _ (by omega)
    exact (Nat.pow_lt_pow_iff_right (by omega)).mp (Nat.lt_of_le_of_lt power fits)
  have room := twice_top (by omega : 0 < w)
  have small : 2 ^ i < 2 ^ (w - 1) := by
    have power : 2 * 2 ^ i ≤ d * 2 ^ i := Nat.mul_le_mul_right _ some
    omega
  obtain ⟨c, multiple⟩ : ∃ c, 2 ^ w - d * 2 ^ i = c * 2 ^ i := by
    have range : 2 ^ i ∣ 2 ^ w := Nat.pow_dvd_pow 2 (by omega)
    obtain ⟨c, same⟩ := Nat.dvd_sub range (Nat.dvd_mul_left (2 ^ i) d)
    exact ⟨c, same.trans (Nat.mul_comm _ _)⟩
  have nonzero : 0 < c := by
    rcases Nat.eq_zero_or_pos c with rfl | some
    · omega
    · exact some
  refine ⟨c, ⟨doubled.bit, ?_, small⟩, by omega, nonzero⟩
  rw [BitVec.toInt_eq_toNat_cond, doubled.divisor, if_neg (by omega)]
  omega

/-- A dividend from which such a divisor is taken passes the end of the range. -/
theorem toInt_sub_wraps {n d : BitVec w} (stopped : 2 ^ (w - 1) ≤ d.toNat) (low : d.toNat ≤ n.toNat + 2 ^ (w - 1))
    (positive : n.toNat < 2 ^ (w - 1)) : (n - d).toInt = n.toNat - d.toNat := by
  have fits := d.isLt
  have wide : 0 < w := by
    rcases Nat.eq_zero_or_pos w with rfl | some
    · simp only [Nat.zero_sub, Nat.pow_zero] at stopped fits
      omega
    · exact some
  have room := twice_top wide
  have difference : (n - d).toNat = 2 ^ w - d.toNat + n.toNat := by
    rw [BitVec.toNat_sub, Nat.mod_eq_of_lt (by omega)]
  rw [BitVec.toInt_eq_toNat_cond, difference]
  split <;> omega

/-- The whole loop, from a divisor whose sign bit stopped the doubling. What is left is
negative, or as large as a bit two places below the first. -/
theorem overflow_runs {state : Division w} {d k fuel : Nat} (doubled : Doubled state d (k + 2)) (some : 2 ≤ d)
    (stopped : 2 ^ (w - 1) ≤ d * 2 ^ (k + 2)) (fits : d * 2 ^ (k + 2) < 2 ^ w) (positive : state.n.toNat < 2 ^ (w - 1))
    (reached : d * 2 ^ (k + 1) ≤ state.n.toNat) (enough : k + 3 < fuel) :
    ∃ after, loop (subtractStep true) fuel state = .ok after ∧ (after.n.toInt < 0 ∨ 2 ^ k ≤ after.n.toInt) := by
  obtain ⟨c, negative, range, nonzero⟩ := exists_negative doubled some stopped fits
  have room := twice_top (negative_width negative)
  have top : d * 2 ^ (k + 2) = 2 * (d * 2 ^ (k + 1)) := double d (k + 1)
  have twice : c * 2 ^ (k + 2) = 2 * (c * 2 ^ (k + 1)) := double c (k + 1)
  have again := double c k
  have bit : 2 ^ k ≤ c * 2 ^ k := Nat.le_mul_of_pos_left _ nonzero
  have dividend : state.n.toInt = state.n.toNat := BitVec.toInt_eq_toNat_of_lt (by omega)
  obtain ⟨fuel, rfl⟩ := Nat.exists_eq_add_of_le' (by omega : 1 ≤ fuel)
  obtain ⟨first, moves, bit, divisor, left⟩ := negative_pass negative
  rw [if_pos (by omega)] at left
  have below : first.n.toInt = state.n.toNat - (d * 2 ^ (k + 2) : Nat) := by
    have stays : state.d.toNat ≤ state.n.toNat + 2 ^ (w - 1) := by
      rw [doubled.divisor]
      omega
    rw [left, ← doubled.divisor]
    exact toInt_sub_wraps (by rw [doubled.divisor]; exact stopped) stays positive
  have next := negative_next bit divisor negative.room
  rcases Int.lt_or_le first.n.toInt (-(c * 2 ^ (k + 1) : Nat)) with under | fits
  · have passes : k + 1 + 1 < fuel := by omega
    obtain ⟨final, done, same⟩ := never_runs next under passes
    exact ⟨final, (loop_next moves fuel).trans done, .inl (by rw [same]; omega)⟩
  · obtain ⟨fuel, rfl⟩ := Nat.exists_eq_add_of_le' (by omega : 1 ≤ fuel)
    obtain ⟨second, onward, bit, divisor, left⟩ := negative_pass next
    rw [if_pos fits] at left
    have grown : second.n.toInt = first.n.toInt + (c * 2 ^ (k + 1) : Nat) := by
      rw [left, negative_grown next fits (by omega)]
    have last := negative_next bit divisor next.room
    have passes : k + 1 < fuel := by omega
    obtain ⟨final, done, more⟩ := grows_runs last (by omega) (by omega) passes
    refine ⟨final, (loop_next moves (fuel + 1)).trans ((loop_next onward fuel).trans done), .inr ?_⟩
    have power : ((2 : Int) ^ k) = (2 ^ k : Nat) := by push_cast; rfl
    omega

section
variable {Variable : Type} [DecidableEq Variable] {store : Variable → BitVec w}
  {numerator denominator quotient remainder : Variable} {fuel : Nat}

theorem div_overflows (some : 2 ≤ (store denominator).toNat) (room : 2 * (store denominator).toNat < 2 ^ (w - 1))
    (positive : (store numerator).toNat < 2 ^ (w - 1))
    (large : largest (store denominator).toNat (2 ^ (w - 1)) ≤ (store numerator).toNat) (enough : w < fuel) :
    ∃ k q r, div_ true fuel store numerator denominator quotient remainder =
        .ok (Function.update (Function.update store quotient q) remainder r) ∧
      2 ^ (w - 1) ≤ (store denominator).toNat * 2 ^ (k + 2) ∧ (r.toInt < 0 ∨ 2 ^ k ≤ r.toInt) := by
  obtain ⟨last, raised⟩ := exists_raised (store numerator).toNat (by omega : 0 < (store denominator).toNat) (w - 1)
  obtain ⟨stopped, _, _⟩ := raised.of_le (by omega) (by omega) large
  have wide := width_pos (by omega : 0 < (store denominator).toNat) (store denominator).isLt
  have few := raised.le (by omega)
  obtain ⟨k, rfl⟩ : ∃ k, last = k + 2 := by
    rcases last with _ | _ | k
    · omega
    · omega
    · exact ⟨k, rfl⟩
  have fits := raised.lt (by omega)
  rw [← twice_top wide] at fits
  have reached := raised.earlier (k + 1) (by omega)
  rw [Stops, not_or, Nat.not_lt] at reached
  have small : (store numerator).toNat < limit true w := positive
  obtain ⟨top, up, dividend, _, doubled⟩ :=
    raise_start (by omega : 0 < (store denominator).toNat) small raised enough
  obtain ⟨final, down, outside⟩ := overflow_runs doubled some stopped fits (by rw [dividend]; exact positive)
    (by rw [dividend]; exact reached.1) (by omega : k + 3 < fuel)
  exact ⟨k, final.answer, final.n, div_of_runs (nonzero_of_pos (by omega)) up down, stopped, outside⟩

theorem div_negative (positive : 0 < (store denominator).toNat) (room : 2 * (store denominator).toNat < 2 ^ (w - 1))
    (negative : (store numerator).toInt < 0) (enough : w < fuel) :
    div_ true fuel store numerator denominator quotient remainder =
      .ok (Function.update (Function.update store quotient 0) remainder (store numerator)) := by
  have wide : 1 < w := by
    by_contra narrow
    have power : 2 ^ (w - 1) ≤ 2 ^ 0 := Nat.pow_le_pow_right (by omega) (by omega)
    omega
  have divisor : (store denominator).toInt = (store denominator).toNat := by
    refine BitVec.toInt_eq_toNat_of_lt ?_
    have := twice_top (by omega : 0 < w)
    omega
  have below : ¬ atLeast true (store numerator) (store denominator) = true := by
    rw [atLeast, if_pos rfl, BitVec.sle_eq_decide, decide_eq_true_iff]
    omega
  have one := toNat_one (by omega : 0 < w)
  have halved : (shiftRight true (1 : BitVec w) 1).toNat = 0 := by
    have small : (1 : BitVec w).toNat < limit true w := by
      rw [one]
      exact Nat.one_lt_two_pow (by omega)
    rw [shiftRight_of_lt_limit small, one]
    exact Nat.div_eq_of_lt (by decide)
  have running : (1 : BitVec w) ≠ 0 := nonzero_of_pos (by omega)
  obtain ⟨fuel, rfl⟩ := Nat.exists_eq_add_of_le' (by omega : 2 ≤ fuel)
  have up : loop (raiseStep true) (fuel + 2) ⟨store numerator, store denominator, 1, 0⟩ =
      .ok ⟨store numerator, store denominator, 1, 0⟩ := by
    refine loop_exit ?_ (fuel + 1)
    rw [raiseStep, if_neg (fun raises => below raises.1)]
    rfl
  have moves : subtractStep true ⟨store numerator, store denominator, 1, 0⟩ =
      .ok (.next ⟨store numerator, shiftRight true (store denominator) 1, shiftRight true 1 1, 0⟩) := by
    rw [subtractStep, if_pos running, if_neg below]
    rfl
  have down := (loop_next moves (fuel + 1)).trans (loop_exit (subtract_done halved) fuel)
  exact div_of_runs (nonzero_of_pos positive) up down

end

variable {value : BitVec w} {base : Int} {alphabet str : Bytes} {fuel : Nat}

/-- The values whose division by the base the dividend stops. -/
def InRange (value : BitVec w) (base : Int) : Prop :=
  0 ≤ value.toInt ∧ value.toInt < (largest base.toNat (2 ^ (w - 1)) : Nat)

instance (value : BitVec w) (base : Int) : Decidable (InRange value base) := inferInstanceAs (Decidable (_ ∧ _))

theorem room_of_wide (low : 2 ≤ base) (high : base ≤ 35) (wide : 32 ≤ w) :
    (BitVec.ofInt w base).toNat = base.toNat ∧ 2 ^ 31 ≤ 2 ^ (w - 1) ∧ 2 ^ w = 2 * 2 ^ (w - 1) ∧
      2 * base.toNat < 2 ^ (w - 1) := by
  have large : 2 ^ 31 ≤ 2 ^ (w - 1) := Nat.pow_le_pow_right (by omega) (by omega)
  have double := twice_top (by omega : 0 < w)
  exact ⟨toNat_base low high (by omega), large, double, by omega⟩

/-- For any other value the remainder of the first division is no digit, not even of the
largest alphabet. -/
theorem first_division (low : 2 ≤ base) (high : base ≤ 35) (wide : 32 ≤ w) (outside : ¬ InRange value base)
    (enough : w < fuel) :
    ∃ q r, div_ true fuel (operands value (BitVec.ofInt w base)) .res .base .res .remainder =
        .ok (Function.update (Function.update (operands value (BitVec.ofInt w base)) .res q) .remainder r) ∧
      (r.toInt < 0 ∨ 2 ^ 24 ≤ r.toInt) := by
  obtain ⟨same, large, double, room⟩ := @room_of_wide w base low high wide
  rcases Int.lt_or_le value.toInt 0 with negative | positive
  · refine ⟨0, value, ?_, .inl negative⟩
    exact div_negative (by change 0 < (BitVec.ofInt w base).toNat; omega)
      (by change 2 * (BitVec.ofInt w base).toNat < _; omega) negative enough
  · obtain ⟨plain, small⟩ := toInt_of_nonneg positive
    have past : largest (BitVec.ofInt w base).toNat (2 ^ (w - 1)) ≤ value.toNat := by
      rw [same]
      rw [InRange, not_and, not_lt] at outside
      have := outside positive
      omega
    obtain ⟨k, q, r, done, stopped, off⟩ := @div_overflows w Operand _ (operands value (BitVec.ofInt w base)) .res .base
      .res .remainder fuel (by change 2 ≤ (BitVec.ofInt w base).toNat; omega)
      (by change 2 * (BitVec.ofInt w base).toNat < _; omega) small past enough
    refine ⟨q, r, done, off.imp_right fun beyond => ?_⟩
    have bits : 24 ≤ k := by
      by_contra few
      have power : 2 ^ (k + 2) ≤ 2 ^ 25 := Nat.pow_le_pow_right (by omega) (by omega)
      have product : (BitVec.ofInt w base).toNat * 2 ^ (k + 2) ≤ 35 * 2 ^ 25 := Nat.mul_le_mul (by omega) power
      have reached : 2 ^ (w - 1) ≤ (BitVec.ofInt w base).toNat * 2 ^ (k + 2) := stopped
      omega
    have power : 2 ^ 24 ≤ 2 ^ k := Nat.pow_le_pow_right (by omega) bits
    have cast : (2 : Int) ^ k = (2 ^ k : Nat) := by push_cast; rfl
    omega

/-- Then the alphabet is read outside. -/
theorem intToAlpha_faults (low : 2 ≤ base) (high : base ≤ 35) (wide : 32 ≤ w) (outside : ¬ InRange value base)
    (table : alphabet.length ≤ 2 ^ 24) (enough : w < fuel) :
    ∃ index, intToAlpha true fuel value str base alphabet = .error (.alphabet index) := by
  obtain ⟨q, r, done, off⟩ := first_division low high wide outside enough
  have off : r.toInt < 0 ∨ (alphabet.length : Int) ≤ r.toInt := by omega
  have fails : digitStep true fuel (BitVec.ofInt w base) alphabet ⟨str, 0, value, 0⟩ = .error (.alphabet r.toInt) := by
    rw [digitStep, done, ok_bind, Function.update_self]
    change (letter alphabet r.toInt >>= _) = _
    rw [letter_outside off, error_bind]
  obtain ⟨fuel, rfl⟩ := Nat.exists_eq_add_of_le' (by omega : 1 ≤ fuel)
  refine ⟨r.toInt, ?_⟩
  rw [intToAlpha, if_neg (by omega), loop_error fails, error_bind]

theorem intToAlpha_inRange (low : 2 ≤ base) (high : base ≤ 35) (wide : 32 ≤ w) (inside : InRange value base)
    (letters : base ≤ alphabet.length) (enough : w < fuel) :
    intToAlpha true fuel value str base alphabet =
      if (numeral base.toNat value.toInt.toNat).length < str.length then
        .ok ((numeral base.toNat value.toInt.toNat).length, text alphabet base.toNat value.toInt.toNat ++
          0 :: str.drop ((numeral base.toNat value.toInt.toNat).length + 1))
      else .error (.buffer str.length) := by
  obtain ⟨same, large, double, room⟩ := @room_of_wide w base low high wide
  have below := largest_lt (by omega : 0 < base.toNat) (by omega : base.toNat < 2 ^ (w - 1))
  obtain ⟨positive, small⟩ := inside
  have plain := toInt_of_nonneg positive
  have divides (less : BitVec w) (le : less.toNat ≤ value.toNat) : Divides true fuel (BitVec.ofInt w base) less := by
    constructor
    · refine @div_signed w Operand _ (operands less (BitVec.ofInt w base)) .res .base .res .remainder fuel ?_ ?_ ?_ enough
      · change 0 < (BitVec.ofInt w base).toNat
        omega
      · change (BitVec.ofInt w base).toNat < _
        omega
      · change less.toNat < largest (BitVec.ofInt w base).toNat _
        rw [same]
        omega
    · rw [← BitVec.toNat_umod]
      apply toInt_of_lt_limit
      rw [BitVec.toNat_umod]
      exact (Nat.mod_le _ _).trans_lt (by change less.toNat < 2 ^ (w - 1); omega)
  rw [plain.1, Int.toNat_natCast]
  refine intToAlpha_digits low high (by omega) letters ?_ divides enough
  rw [toInt, if_pos rfl]
  omega

/-- A sign for a negative value, and the digits of its absolute value. -/
def signedText (alphabet : Bytes) (base : Nat) (v : Int) : Bytes :=
  (if v < 0 then [45] else []) ++ text alphabet base v.natAbs

/-- The numeral is written into every block with room for it, with an alphabet that has the
digits of the base and may have no others. -/
def RendersSigned (value : BitVec w) (base : Int) : Prop :=
  ∀ alphabet str : Bytes, base ≤ alphabet.length → (signedText alphabet base.toNat value.toInt).length < str.length →
    Returns (fun fuel => intToAlpha true fuel value str base alphabet)
      ((signedText alphabet base.toNat value.toInt).length, signedText alphabet base.toNat value.toInt ++
        0 :: str.drop ((signedText alphabet base.toNat value.toInt).length + 1))

/-- Appended to an empty string and read back. -/
def RoundTrips (value : BitVec w) : Prop :=
  ∀ s : CString, s.Refines [] → ∃ after, Returns (fun fuel => appendDecimal true fuel s value) after ∧ toInteger w after = value

theorem rendersSigned_iff (low : 2 ≤ base) (high : base ≤ 35) (wide : 32 ≤ w) :
    RendersSigned value base ↔ InRange value base := by
  constructor
  · intro renders
    by_contra outside
    let digits : Bytes := List.replicate base.toNat 48
    let block : Bytes := List.replicate ((signedText digits base.toNat value.toInt).length + 1) 0
    have count : digits.length = base.toNat := List.length_replicate
    have returns := renders digits block (by omega) (by rw [List.length_replicate]; omega)
    refine @not_returns_of_fault _ _ (w + 1) (fun fuel enough => ?_) _ returns
    obtain ⟨index, fails⟩ := @intToAlpha_faults w value base digits block fuel low high wide outside (by omega) enough
    exact ⟨_, fails⟩
  · intro inside alphabet str letters room
    have positive := inside.1
    have plain : signedText alphabet base.toNat value.toInt = text alphabet base.toNat value.toInt.toNat := by
      rw [signedText, if_neg (by omega), List.nil_append, (by omega : value.toInt.natAbs = value.toInt.toNat)]
    have count : (text alphabet base.toNat value.toInt.toNat).length = (numeral base.toNat value.toInt.toNat).length :=
      List.length_map _
    rw [plain] at room ⊢
    rw [count] at room ⊢
    refine ⟨w + 1, fun fuel enough => ?_⟩
    change intToAlpha true fuel value str base alphabet = _
    rw [intToAlpha_inRange low high wide inside letters enough, if_pos room]

theorem decimal_fits (size : w = 32 ∨ w = 64) (inside : InRange value 10) :
    (numeral 10 value.toInt.toNat).length < scratch.length := by
  have below := largest_lt (by omega : 0 < (10 : Int).toNat) (by rcases size with rfl | rfl <;> decide : (10 : Int).toNat < 2 ^ (w - 1))
  have small := inside.2
  apply (@length_numeral_lt_iff 10 (by decide) _).mpr
  rcases size with rfl | rfl
  · exact (by omega : value.toInt.toNat < 2 ^ 31).trans (by decide)
  · exact (by omega : value.toInt.toNat < 2 ^ 63).trans (by decide)

theorem appendDecimal_refines (size : w = 32 ∨ w = 64) (inside : InRange value 10) {s : CString} (refines : s.Refines []) :
    ∃ after, Returns (fun fuel => appendDecimal true fuel s value) after ∧
      after.Refines (text lowercase 10 value.toInt.toNat) := by
  have fits := decimal_fits size inside
  have count : (text lowercase 10 value.toInt.toNat).length = (numeral 10 value.toInt.toNat).length := List.length_map _
  have short : (text lowercase 10 value.toInt.toNat).length < 21 := by
    rw [count]
    exact fits
  obtain ⟨after, done, all⟩ := @appendDigits_refines s [] (text lowercase 10 value.toInt.toNat) 0 refines
    (by simp only [List.length_nil, Nat.zero_add, Nat.zero_max]; omega)
  rw [Nat.zero_sub, List.replicate_zero, List.nil_append, List.nil_append] at all
  refine ⟨after, ⟨w + 1, fun fuel enough => ?_⟩, all⟩
  have rendered := @intToAlpha_inRange w value 10 lowercase scratch fuel (by decide) (by decide) (by omega) inside (by decide)
    enough
  have ten : (10 : Int).toNat = 10 := rfl
  rw [ten, if_pos fits, ← count] at rendered
  exact (appendInteger_rendered rendered).trans done

/-- The numeral is read back up to its terminator. -/
theorem toInteger_decimal (size : w = 32 ∨ w = 64) (positive : 0 ≤ value.toInt) {s : CString}
    (refines : s.Refines (text lowercase 10 value.toInt.toNat)) : toInteger w s = value := by
  have block : s.string ≠ [] := by
    intro null
    have content := refines.content
    rw [CString.content, null, List.take_nil] at content
    exact absurd content.symm (by simp [text, numeral_ne_nil])
  obtain ⟨rest, split⟩ := refines.toStored.split (refines.terminated block)
  have upper := @BitVec.toInt_lt w value
  have bound : (2 : Int) ^ (w - 1) ≤ 2 ^ 63 := by rcases size with rfl | rfl <;> decide
  have readable : value.toInt.toNat ≤ LONG_MAX := by
    unfold LONG_MAX
    omega
  have glyphs : ∀ d < 10, digit (glyph lowercase d) = some d := fun d small => digit_letters (.inl rfl) d (by omega)
  have read : strtol s.string 10 = value.toInt.toNat := by
    rw [split]
    exact strtol_numeral (by omega) glyphs readable rest
  rw [toInteger, read, Int.toNat_of_nonneg positive, BitVec.ofInt_toInt]

theorem roundTrips_iff (size : w = 32 ∨ w = 64) : RoundTrips value ↔ InRange value 10 := by
  constructor
  · intro trips
    by_contra outside
    obtain ⟨after, returns, _⟩ := trips .empty CString.refines_empty
    refine @not_returns_of_fault _ _ (w + 1) (fun fuel enough => ?_) after returns
    obtain ⟨index, fails⟩ := @intToAlpha_faults w value 10 lowercase scratch fuel (by decide) (by decide) (by omega) outside
      (by decide) enough
    exact ⟨_, appendInteger_fault fails⟩
  · intro inside s refines
    obtain ⟨after, returns, all⟩ := appendDecimal_refines size inside refines
    exact ⟨after, returns, toInteger_decimal size inside.1 all⟩

/-- The numeral of a signed value, exactly when the value is not negative and below the
largest multiple of the base by a power of two that the type has; and the value read back
from its decimal numeral, exactly when that holds for base 10. -/
theorem signed_numeral_iff {w : Nat} (size : w = 32 ∨ w = 64) (value : BitVec w) {base : Int} (low : 2 ≤ base)
    (high : base ≤ 35) :
    (RendersSigned value base ↔
      0 ≤ value.toInt ∧ value.toInt < (largest base.toNat (2 ^ (w - 1)) : Nat)) ∧
      (RoundTrips value ↔ 0 ≤ value.toInt ∧ value.toInt < (largest 10 (2 ^ (w - 1)) : Nat)) :=
  ⟨rendersSigned_iff low high (by omega), roundTrips_iff size⟩

theorem signed_numeral_sample :
    (32 = 32 ∨ 32 = 64) ∧ 2 ≤ (10 : Int) ∧ (10 : Int) ≤ 35 ∧ RendersSigned (1342177279#32) 10 ∧ ¬ RendersSigned (1342177280#32) 10 ∧
      RoundTrips (1342177279#32) ∧ ¬ RoundTrips (1342177280#32) := by
  have inside := signed_numeral_iff (.inl rfl) (1342177279#32) (by decide : 2 ≤ (10 : Int)) (by decide)
  have outside := signed_numeral_iff (.inl rfl) (1342177280#32) (by decide : 2 ≤ (10 : Int)) (by decide)
  have limit : largest 10 (2 ^ (32 - 1)) = 1342177280 := by decide +kernel
  have base : largest (10 : Int).toNat (2 ^ (32 - 1)) = 1342177280 := limit
  rw [limit, base] at inside outside
  exact ⟨.inl rfl, by decide, by decide, inside.1.mpr (by decide), mt outside.1.mp (by decide), inside.2.mpr (by decide),
    mt outside.2.mp (by decide)⟩

theorem negative_not_rendered : ¬ RendersSigned (BitVec.ofInt 32 (-5)) 10 := by
  rw [rendersSigned_iff (by decide) (by decide) (by decide)]
  exact fun inside => absurd inside.1 (by decide)

end LibWebserver.Conversions
