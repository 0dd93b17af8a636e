import Mathlib.Algebra.Order.Ring.Nat
import Mathlib.Data.Nat.Log
import Mathlib.Data.Nat.Find

/-! Division by shifts and subtractions, on natural numbers. The divisor is doubled until
it passes the dividend or reaches a bound; then one multiple after the other is
taken from the dividend, the largest first, wherever it fits. -/

namespace LibWebserver.ShiftSubtract

variable {n d top k : Nat}

theorem double (d k : Nat) : d * 2 ^ (k + 1) = 2 * (d * 2 ^ k) := by
  rw [Nat.pow_succ, Nat.mul_comm _ 2, Nat.mul_left_comm]

/-- The doubling stops. -/
def Stops (n d top k : Nat) : Prop := n < d * 2 ^ k ∨ top ≤ d * 2 ^ k

instance (n d top k : Nat) : Decidable (Stops n d top k) := inferInstanceAs (Decidable (_ ∨ _))

/-- The doubling stops here, and not before. -/
structure Raised (n d top k : Nat) : Prop where
  stops : Stops n d top k
  earlier : ∀ j < k, ¬ Stops n d top j

theorem exists_raised (n : Nat) (positive : 0 < d) (bits : Nat) : ∃ k, Raised n d (2 ^ bits) k := by
  have some : ∃ k, Stops n d (2 ^ bits) k := ⟨bits, .inr (Nat.le_mul_of_pos_left _ positive)⟩
  refine ⟨Nat.find some, Nat.find_spec some, ?_⟩
  intro j earlier
  exact Nat.find_min some earlier

/-- There are as many doublings as the bound has bits, at most. -/
theorem Raised.le {bits : Nat} (raised : Raised n d (2 ^ bits) k) (positive : 0 < d) : k ≤ bits := by
  by_contra late
  exact raised.earlier bits (Nat.lt_of_not_le late) (.inr (Nat.le_mul_of_pos_left _ positive))

/-- Where the doubling starts below the bound it goes past it by less than one doubling. -/
theorem Raised.lt (raised : Raised n d top k) (start : d < 2 * top) : d * 2 ^ k < 2 * top := by
  cases k with
  | zero => omega
  | succ k =>
    have below := raised.earlier k (Nat.lt_succ_self k)
    rw [Stops, not_or, Nat.not_le] at below
    rw [double]
    omega

/-- The largest of the doubled divisors below the bound. -/
def largest (d top : Nat) : Nat := d * 2 ^ Nat.log 2 ((top - 1) / d)

theorem largest_lt (positive : 0 < d) (start : d < top) : largest d top < top := by
  have some : (top - 1) / d ≠ 0 := by
    have := Nat.div_pos (by omega : d ≤ top - 1) positive
    omega
  have power : 2 ^ Nat.log 2 ((top - 1) / d) ≤ (top - 1) / d := Nat.pow_log_le_self 2 some
  have product : d * 2 ^ Nat.log 2 ((top - 1) / d) ≤ top - 1 :=
    (Nat.mul_le_mul_left d power).trans (Nat.mul_div_le (top - 1) d)
  unfold largest
  omega

theorem top_le_double (positive : 0 < d) : top ≤ 2 * largest d top := by
  have power : (top - 1) / d < 2 ^ (Nat.log 2 ((top - 1) / d) + 1) := Nat.lt_pow_succ_log_self (by omega) _
  rw [Nat.div_lt_iff_lt_mul positive, Nat.pow_succ, Nat.mul_comm, ← Nat.mul_assoc] at power
  unfold largest
  omega

theorem Raised.of_lt (raised : Raised n d top k) (positive : 0 < d) (start : d < top) (small : n < largest d top) :
    n < d * 2 ^ k ∧ d * 2 ^ k < top := by
  have below := largest_lt positive start
  have early : k ≤ Nat.log 2 ((top - 1) / d) := by
    by_contra late
    exact raised.earlier _ (Nat.lt_of_not_le late) (.inl small)
  have less : d * 2 ^ k ≤ largest d top := Nat.mul_le_mul_left d (Nat.pow_le_pow_right (by omega) early)
  rcases raised.stops with passed | reached
  · exact ⟨passed, by omega⟩
  · omega

theorem Raised.of_le (raised : Raised n d top k) (positive : 0 < d) (start : d < top) (large : largest d top ≤ n) :
    top ≤ d * 2 ^ k ∧ d * 2 ^ k = 2 * largest d top ∧ 0 < k := by
  have below := largest_lt positive start
  have above := @top_le_double d top positive
  have late : k = Nat.log 2 ((top - 1) / d) + 1 := by
    apply Nat.le_antisymm
    · by_contra later
      refine raised.earlier _ (Nat.lt_of_not_le later) (.inr ?_)
      rw [double]
      exact above
    · by_contra earlier
      have less : d * 2 ^ k ≤ largest d top := Nat.mul_le_mul_left d (Nat.pow_le_pow_right (by omega) (by omega))
      rcases raised.stops with passed | reached <;> omega
  have same : d * 2 ^ k = 2 * largest d top := by rw [late, double, largest]
  omega

/-- One pass for each multiple, from the largest down. -/
def restore (d : Nat) : Nat → Nat → Nat × Nat
  | 0, n => (0, n)
  | i + 1, n =>
    if d * 2 ^ i ≤ n then
      let (quotient, remainder) := restore d i (n - d * 2 ^ i)
      (2 ^ i + quotient, remainder)
    else restore d i n

theorem restore_eq {i : Nat} (bound : n < d * 2 ^ i) : restore d i n = (n / d, n % d) := by
  induction i generalizing n with
  | zero =>
    have small : n < d := by simpa using bound
    rw [restore, Nat.div_eq_of_lt small, Nat.mod_eq_of_lt small]
  | succ i ih =>
    have twice := double d i
    rw [restore]
    split
    next fits =>
      have positive : 0 < d := by
        rcases Nat.eq_zero_or_pos d with zero | positive
        · simp [zero] at bound
        · exact positive
      have split : n = n - d * 2 ^ i + d * 2 ^ i := by omega
      rw [ih (by omega)]
      ext
      · change 2 ^ i + (n - d * 2 ^ i) / d = n / d
        conv_rhs => rw [split]
        rw [Nat.add_mul_div_left _ _ positive, Nat.add_comm]
      · change (n - d * 2 ^ i) % d = n % d
        conv_rhs => rw [split]
        rw [Nat.add_mul_mod_self_left]
    next => exact ih (by omega)

end LibWebserver.ShiftSubtract
