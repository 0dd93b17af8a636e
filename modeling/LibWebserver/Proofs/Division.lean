import LibWebserver.Conversions
import LibWebserver.Library.ShiftSubtract

/-! Division by shifts and subtractions computes quotient and remainder wherever the
values it compares and shifts stay below the limit of the type. -/

namespace LibWebserver.Conversions
open ShiftSubtract

section
variable {σ ρ : Type} {body : σ → Result (Loop.Step σ ρ)} {state : σ}

theorem loop_next {after : σ} (moves : body state = .ok (.next after)) (fuel : Nat) :
    loop body (fuel + 1) state = loop body fuel after := by
  rw [loop, Loop.run_next fuel (Loop.failing_next moves), loop]

theorem loop_exit {result : ρ} (exits : body state = .ok (.exit result)) (fuel : Nat) :
    loop body (fuel + 1) state = .ok result := by
  rw [loop, Loop.run_exit fuel (Loop.failing_exit exits)]
  rfl

theorem loop_error {fault : Fault} (fails : body state = .error fault) (fuel : Nat) :
    loop body (fuel + 1) state = .error fault := by
  have exits : Loop.failing body state = .exit (.error fault) := by simp only [Loop.failing, fails]
  rw [loop, Loop.run_exit fuel exits]
  rfl

end

variable {w : Nat} {signed : Bool}

/-- Below it a value is the number its bits stand for. -/
def limit (signed : Bool) (w : Nat) : Nat := if signed then 2 ^ (w - 1) else 2 ^ w

theorem top_le_limit (signed : Bool) (w : Nat) : 2 ^ (w - 1) ≤ limit signed w := by
  cases signed with
  | false => exact Nat.pow_le_pow_right (by omega) (by omega)
  | true => exact Nat.le_refl _

theorem twice_top (positive : 0 < w) : 2 ^ w = 2 * 2 ^ (w - 1) := by
  obtain ⟨v, rfl⟩ := Nat.exists_eq_add_of_le' positive
  rw [Nat.add_sub_cancel, Nat.pow_succ, Nat.mul_comm]

theorem width_pos {d : Nat} (positive : 0 < d) (small : d < 2 ^ w) : 0 < w := by
  rcases Nat.eq_zero_or_pos w with rfl | some
  · simp only [Nat.pow_zero] at small
    omega
  · exact some

theorem nonzero_of_pos {a : BitVec w} (positive : 0 < a.toNat) : a ≠ 0 := by
  intro zero
  rw [zero] at positive
  exact absurd positive (by simp)

theorem toNat_one (wide : 0 < w) : (1 : BitVec w).toNat = 1 := by
  change (1#w).toNat = 1
  rw [BitVec.toNat_ofNat, Nat.mod_eq_of_lt (Nat.one_lt_two_pow (by omega))]

theorem msb_of_lt_limit {a : BitVec w} (small : a.toNat < limit true w) : a.msb = false := by
  rw [BitVec.msb_eq_decide, decide_eq_false_iff_not, Nat.not_le]
  exact small

theorem toInt_of_lt_limit {a : BitVec w} (small : a.toNat < limit signed w) : toInt signed a = a.toNat := by
  cases signed with
  | false => rfl
  | true => exact BitVec.toInt_eq_toNat_of_msb (msb_of_lt_limit small)

theorem atLeast_of_lt_limit {a b : BitVec w} (left : a.toNat < limit signed w) (right : b.toNat < limit signed w) :
    atLeast signed a b = decide (b.toNat ≤ a.toNat) := by
  cases signed with
  | false => rfl
  | true =>
    have first : a.toInt = a.toNat := BitVec.toInt_eq_toNat_of_msb (msb_of_lt_limit left)
    have second : b.toInt = b.toNat := BitVec.toInt_eq_toNat_of_msb (msb_of_lt_limit right)
    simp only [atLeast, if_true, BitVec.sle_eq_decide, first, second, Int.ofNat_le]

theorem shiftRight_of_lt_limit {a : BitVec w} (small : a.toNat < limit signed w) (count : Nat) :
    (shiftRight signed a count).toNat = a.toNat / 2 ^ count := by
  have plain : (a >>> count).toNat = a.toNat / 2 ^ count := by
    rw [BitVec.toNat_ushiftRight, Nat.shiftRight_eq_div_pow]
  cases signed with
  | false => exact plain
  | true =>
    rw [shiftRight, if_pos rfl, BitVec.sshiftRight_eq_of_msb_false (msb_of_lt_limit small)]
    exact plain

theorem topBit_iff (positive : 0 < w) (a : BitVec w) :
    shiftRight signed a (w - 1) &&& 1 = 0 ↔ a.toNat < 2 ^ (w - 1) := by
  have bit : (shiftRight signed a (w - 1)).getLsbD 0 = a.msb := by
    rw [BitVec.msb_eq_getLsbD_last]
    cases signed with
    | false => simp [shiftRight]
    | true =>
      rw [shiftRight, if_pos rfl, BitVec.getLsbD_sshiftRight, if_pos (by omega), decide_eq_false (by omega)]
      rfl
  rw [← Nat.not_le, ← decide_eq_false_iff_not, ← BitVec.msb_eq_decide, ← bit]
  constructor
  · intro zero
    have low := congrArg (fun v : BitVec w => v.getLsbD 0) zero
    simpa [positive] using low
  · intro low
    apply BitVec.eq_of_getLsbD_eq
    intro i _
    rcases Nat.eq_zero_or_pos i with rfl | above
    · simp [low]
    · simp [Nat.ne_of_gt above]

/-- The divisor has been doubled some number of times, and the bit with it. -/
structure Doubled (state : Division w) (d k : Nat) : Prop where
  divisor : state.d.toNat = d * 2 ^ k
  bit : state.x.toNat = 2 ^ k

theorem raises_iff {state : Division w} {d k : Nat} (doubled : Doubled state d k) (positive : 0 < w)
    (small : state.n.toNat < limit signed w) :
    (atLeast signed state.n state.d ∧ shiftRight signed state.d (w - 1) &&& 1 = 0) ↔
      ¬ Stops state.n.toNat d (2 ^ (w - 1)) k := by
  rw [topBit_iff positive, Stops, not_or, Nat.not_lt, Nat.not_le, doubled.divisor]
  refine and_congr_left fun below => ?_
  have bounded : state.d.toNat < limit signed w := by
    rw [doubled.divisor]
    exact Nat.lt_of_lt_of_le below (top_le_limit signed w)
  rw [atLeast_of_lt_limit small bounded, decide_eq_true_iff, doubled.divisor]

theorem raise_runs {state : Division w} {d k last fuel : Nat} (doubled : Doubled state d k) (positive : 0 < d)
    (start : d < 2 ^ w) (small : state.n.toNat < limit signed w)
    (raised : Raised state.n.toNat d (2 ^ (w - 1)) last) (behind : k ≤ last) (enough : last - k < fuel) :
    ∃ after, loop (raiseStep signed) fuel state = .ok after ∧ after.n = state.n ∧ after.answer = state.answer ∧
      Doubled after d last := by
  have wide := width_pos positive start
  induction fuel generalizing state k with
  | zero => omega
  | succ fuel ih =>
    rcases Nat.eq_or_lt_of_le behind with rfl | earlier
    · have stays := mt (raises_iff doubled wide small).mp (not_not_intro raised.stops)
      have exits : raiseStep signed state = .ok (.exit state) := by
        rw [raiseStep, if_neg stays]
        rfl
      exact ⟨state, loop_exit exits fuel, rfl, rfl, doubled⟩
    · have goes := raised.earlier k earlier
      let after : Division w := { state with x := state.x <<< 1, d := state.d <<< 1 }
      have moves : raiseStep signed state = .ok (.next after) := by
        rw [raiseStep, if_pos ((raises_iff doubled wide small).mpr goes)]
        rfl
      rw [Stops, not_or, Nat.not_lt, Nat.not_le] at goes
      have room := twice_top wide
      have power : 2 ^ k ≤ d * 2 ^ k := Nat.le_mul_of_pos_left _ positive
      have next : Doubled after d (k + 1) := by
        constructor
        · rw [BitVec.toNat_shiftLeft, doubled.divisor, Nat.shiftLeft_eq, Nat.pow_one, double,
            Nat.mod_eq_of_lt (by omega), Nat.mul_comm]
        · rw [BitVec.toNat_shiftLeft, doubled.bit, Nat.shiftLeft_eq, Nat.pow_one, ← Nat.pow_succ, Nat.mod_eq_of_lt]
          rw [Nat.pow_succ]
          omega
      obtain ⟨final, done, dividend, answer, reached⟩ := ih next small raised earlier (by omega)
      exact ⟨final, (loop_next moves fuel).trans done, dividend, answer, reached⟩

/-- The answer has no bit yet at or below the one the next pass may set. -/
theorem or_bit {answer i : Nat} (multiple : 2 ^ (i + 1) ∣ answer) : answer ||| 2 ^ i = answer + 2 ^ i := by
  obtain ⟨high, rfl⟩ := multiple
  exact (Nat.two_pow_add_eq_or_of_lt (Nat.pow_lt_pow_right (by omega) (Nat.lt_succ_self i)) high).symm

theorem subtract_pass {state : Division w} {d i : Nat} (doubled : Doubled state d i) (positive : 0 < d)
    (bounded : d * 2 ^ i < limit signed w) (small : state.n.toNat < limit signed w)
    (multiple : 2 ^ (i + 1) ∣ state.answer.toNat) :
    ∃ after, subtractStep signed state = .ok (.next after) ∧
      after.d.toNat = d * 2 ^ i / 2 ∧ after.x.toNat = 2 ^ i / 2 ∧
      after.n.toNat = (if d * 2 ^ i ≤ state.n.toNat then state.n.toNat - d * 2 ^ i else state.n.toNat) ∧
      after.answer.toNat = state.answer.toNat + if d * 2 ^ i ≤ state.n.toNat then 2 ^ i else 0 := by
  have power : 2 ^ i ≤ d * 2 ^ i := Nat.le_mul_of_pos_left _ positive
  have divisor : state.d.toNat < limit signed w := by rw [doubled.divisor]; exact bounded
  have bit : state.x.toNat < limit signed w := by rw [doubled.bit]; omega
  have running : state.x ≠ 0 := by
    apply nonzero_of_pos
    rw [doubled.bit]
    exact Nat.two_pow_pos i
  have halves : (shiftRight signed state.d 1).toNat = d * 2 ^ i / 2 ∧ (shiftRight signed state.x 1).toNat = 2 ^ i / 2 := by
    rw [shiftRight_of_lt_limit divisor, shiftRight_of_lt_limit bit, doubled.divisor, doubled.bit, Nat.pow_one]
    exact ⟨rfl, rfl⟩
  by_cases fits : d * 2 ^ i ≤ state.n.toNat
  · have taken : atLeast signed state.n state.d = true := by
      rw [atLeast_of_lt_limit small divisor, decide_eq_true_iff, doubled.divisor]
      exact fits
    refine ⟨⟨state.n - state.d, shiftRight signed state.d 1, shiftRight signed state.x 1, state.answer ||| state.x⟩,
      ?_, halves.1, halves.2, ?_, ?_⟩
    · rw [subtractStep, if_pos running, if_pos taken]
      rfl
    · rw [if_pos fits, ← doubled.divisor]
      exact BitVec.toNat_sub_of_le (by rw [BitVec.le_def, doubled.divisor]; exact fits)
    · rw [if_pos fits, BitVec.toNat_or, doubled.bit]
      exact or_bit multiple
  · have left : ¬ atLeast signed state.n state.d = true := by
      rw [atLeast_of_lt_limit small divisor, decide_eq_true_iff, doubled.divisor]
      exact fits
    refine ⟨⟨state.n, shiftRight signed state.d 1, shiftRight signed state.x 1, state.answer⟩,
      ?_, halves.1, halves.2, ?_, ?_⟩
    · rw [subtractStep, if_pos running, if_neg left]
      rfl
    · rw [if_neg fits]
    · rw [if_neg fits, Nat.add_zero]

theorem subtract_done {after : Division w} (bit : after.x.toNat = 0) :
    subtractStep signed after = .ok (.exit after) := by
  have zero : after.x = 0 := BitVec.eq_of_toNat_eq (bit.trans BitVec.toNat_zero.symm)
  rw [subtractStep, if_neg (not_not_intro zero)]
  rfl

theorem subtract_runs {state : Division w} {d i fuel : Nat} (doubled : Doubled state d i) (positive : 0 < d)
    (bounded : d * 2 ^ i < limit signed w) (small : state.n.toNat < limit signed w)
    (multiple : 2 ^ (i + 1) ∣ state.answer.toNat) (enough : i + 1 < fuel) :
    ∃ after, loop (subtractStep signed) fuel state = .ok after ∧
      after.answer.toNat = state.answer.toNat + (restore d (i + 1) state.n.toNat).1 ∧
      after.n.toNat = (restore d (i + 1) state.n.toNat).2 := by
  induction i generalizing state fuel with
  | zero =>
    obtain ⟨fuel, rfl⟩ := Nat.exists_eq_add_of_le' (by omega : 2 ≤ fuel)
    obtain ⟨after, moves, _, bit, dividend, answer⟩ := subtract_pass doubled positive bounded small multiple
    refine ⟨after, (loop_next moves (fuel + 1)).trans (loop_exit (subtract_done bit) fuel), ?_, ?_⟩
    · rw [answer, restore]
      split <;> simp [restore]
    · rw [dividend, restore]
      split <;> simp [restore]
  | succ i ih =>
    obtain ⟨fuel, rfl⟩ := Nat.exists_eq_add_of_le' (by omega : 1 ≤ fuel)
    obtain ⟨after, moves, divisor, bit, dividend, answer⟩ := subtract_pass doubled positive bounded small multiple
    have twice := double d i
    have next : Doubled after d i := by
      constructor
      · omega
      · rw [bit, Nat.pow_succ, Nat.mul_div_cancel _ (by omega)]
    have lower : 2 ^ (i + 1) ∣ after.answer.toNat := by
      rw [answer]
      refine Nat.dvd_add ((Nat.pow_dvd_pow 2 (Nat.le_succ _)).trans multiple) ?_
      split
      · exact Nat.dvd_refl _
      · exact Nat.dvd_zero _
    have less : after.n.toNat < limit signed w := by
      rw [dividend]
      split <;> omega
    have passes : i + 1 < fuel := by omega
    obtain ⟨final, done, quotient, remainder⟩ := ih next (by omega) less lower passes
    refine ⟨final, (loop_next moves fuel).trans done, ?_, ?_⟩
    · rw [quotient, answer, dividend]
      conv_rhs => rw [restore]
      split
      · exact Nat.add_assoc _ _ _
      · rw [Nat.add_zero]
    · rw [remainder, dividend]
      conv_rhs => rw [restore]
      split <;> rfl

section
variable {Variable : Type} [DecidableEq Variable] {store : Variable → BitVec w}
  {numerator denominator quotient remainder : Variable} {fuel : Nat}

theorem div_of_runs {top final : Division w} (nonzero : store denominator ≠ 0)
    (up : loop (raiseStep signed) fuel ⟨store numerator, store denominator, 1, 0⟩ = .ok top)
    (down : loop (subtractStep signed) fuel top = .ok final) :
    div_ signed fuel store numerator denominator quotient remainder =
      .ok (Function.update (Function.update store quotient final.answer) remainder final.n) := by
  rw [div_, if_neg nonzero]
  change (loop (raiseStep signed) fuel _ >>= fun state => loop (subtractStep signed) fuel state >>= _) = _
  rw [up, ok_bind, down, ok_bind]
  rfl

theorem raise_start {n d : BitVec w} {last : Nat} (positive : 0 < d.toNat) (small : n.toNat < limit signed w)
    (raised : Raised n.toNat d.toNat (2 ^ (w - 1)) last) (enough : w < fuel) :
    ∃ top, loop (raiseStep signed) fuel ⟨n, d, 1, 0⟩ = .ok top ∧ top.n = n ∧ top.answer.toNat = 0 ∧
      Doubled top d.toNat last := by
  have wide := width_pos positive d.isLt
  have few := raised.le positive
  have one : Doubled ⟨n, d, 1, 0⟩ d.toNat 0 := by
    refine ⟨by simp, ?_⟩
    rw [toNat_one wide, Nat.pow_zero]
  obtain ⟨top, up, dividend, answer, reached⟩ :=
    raise_runs one positive d.isLt small raised (Nat.zero_le last) (by omega : last - 0 < fuel)
  refine ⟨top, up, dividend, ?_, reached⟩
  rw [answer]
  exact BitVec.toNat_zero

theorem div_of_raised {last : Nat} (positive : 0 < (store denominator).toNat)
    (small : (store numerator).toNat < limit signed w)
    (raised : Raised (store numerator).toNat (store denominator).toNat (2 ^ (w - 1)) last)
    (bounded : (store denominator).toNat * 2 ^ last < limit signed w)
    (passed : (store numerator).toNat < (store denominator).toNat * 2 ^ (last + 1)) (enough : w < fuel) :
    div_ signed fuel store numerator denominator quotient remainder =
      .ok (Function.update (Function.update store quotient (store numerator / store denominator)) remainder
        (store numerator % store denominator)) := by
  have wide := width_pos positive (store denominator).isLt
  have few := raised.le positive
  obtain ⟨top, up, dividend, zero, reached⟩ := raise_start positive small raised enough
  rw [← dividend] at small
  obtain ⟨final, down, value, left⟩ :=
    subtract_runs reached positive bounded small (zero ▸ Nat.dvd_zero _) (by omega : last + 1 < fuel)
  rw [dividend, restore_eq passed] at value left
  have first : final.answer = store numerator / store denominator := by
    apply BitVec.eq_of_toNat_eq
    rw [value, zero, Nat.zero_add]
    exact BitVec.toNat_udiv.symm
  have second : final.n = store numerator % store denominator := by
    apply BitVec.eq_of_toNat_eq
    rw [left]
    exact BitVec.toNat_umod.symm
  rw [div_of_runs (nonzero_of_pos positive) up down, first, second]

/-- At an unsigned type no shift loses a bit. -/
theorem div_unsigned (positive : 0 < (store denominator).toNat) (enough : w < fuel) :
    div_ false fuel store numerator denominator quotient remainder =
      .ok (Function.update (Function.update store quotient (store numerator / store denominator)) remainder
        (store numerator % store denominator)) := by
  have start := (store denominator).isLt
  have small := (store numerator).isLt
  have room := twice_top (width_pos positive start)
  obtain ⟨last, raised⟩ := exists_raised (store numerator).toNat positive (w - 1)
  have bounded : (store denominator).toNat * 2 ^ last < 2 ^ w := room ▸ raised.lt (room ▸ start)
  refine div_of_raised positive small raised bounded ?_ enough
  rw [double]
  rcases raised.stops with passed | reached <;> omega

/-- At a signed type this needs the dividend to stop the shifts before the sign bit does. -/
theorem div_signed (positive : 0 < (store denominator).toNat) (start : (store denominator).toNat < 2 ^ (w - 1))
    (small : (store numerator).toNat < largest (store denominator).toNat (2 ^ (w - 1))) (enough : w < fuel) :
    div_ true fuel store numerator denominator quotient remainder =
      .ok (Function.update (Function.update store quotient (store numerator / store denominator)) remainder
        (store numerator % store denominator)) := by
  obtain ⟨last, raised⟩ := exists_raised (store numerator).toNat positive (w - 1)
  obtain ⟨passed, bounded⟩ := raised.of_lt positive start small
  refine div_of_raised positive (small.trans (largest_lt positive start)) raised bounded ?_ enough
  rw [double]
  omega

/-- Quotient and remainder, whichever variables they go to. -/
theorem div_divides (distinct : quotient ≠ remainder) (nonzero : store denominator ≠ 0) (enough : w < fuel) :
    ∃ after, div_ false fuel store numerator denominator quotient remainder = .ok after ∧
      (after quotient).toNat = (store numerator).toNat / (store denominator).toNat ∧
      (after remainder).toNat = (store numerator).toNat % (store denominator).toNat ∧
      ∀ other, other ≠ quotient → other ≠ remainder → after other = store other := by
  have positive : 0 < (store denominator).toNat := by
    apply Nat.pos_of_ne_zero
    intro zero
    exact nonzero (BitVec.eq_of_toNat_eq (zero.trans (BitVec.toNat_zero).symm))
  refine ⟨_, div_unsigned positive enough, ?_, ?_, ?_⟩
  · rw [Function.update_of_ne distinct, Function.update_self]
    exact BitVec.toNat_udiv
  · rw [Function.update_self]
    exact BitVec.toNat_umod
  · intro other first second
    rw [Function.update_of_ne second, Function.update_of_ne first]

theorem div_divides_in_place :
    Operand.res ≠ .remainder ∧ operands (200#8) (7#8) .base ≠ 0 ∧ 8 < 9 ∧
      ∃ after, div_ false 9 (operands (200#8) (7#8)) .res .base .res .remainder = .ok after ∧
        (after .res).toNat = 28 ∧ (after .remainder).toNat = 4 ∧ after .base = 7#8 := by
  refine ⟨by decide, by decide, by decide, ?_⟩
  obtain ⟨after, done, quotient, remainder, others⟩ :=
    @div_divides 8 Operand _ (operands (200#8) (7#8)) .res .base .res .remainder 9 (by decide) (by decide) (by decide)
  exact ⟨after, done, quotient, remainder, others .base (by decide) (by decide)⟩

end

end LibWebserver.Conversions
