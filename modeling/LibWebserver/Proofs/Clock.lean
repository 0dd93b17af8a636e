import LibWebserver.Clock

/-! What the routines of the clocks compute. A sum is exact with or without a carry,
and so is the difference a timer reports; the difference of two clocks takes the
borrowed second off the subtrahend and then counts it once more. -/

namespace LibWebserver

/-- What a 64-bit signed number can hold. -/
def Fits (x : Int) : Prop := -2 ^ 63 ≤ x ∧ x < 2 ^ 63

instance (x : Int) : Decidable (Fits x) := inferInstanceAs (Decidable (_ ∧ _))

theorem signed_of_fits {x : Int} (fits : Fits x) : signed x = some x := if_pos fits

theorem signed_eq_some {x y : Int} : signed x = some y ↔ Fits x ∧ y = x := by
  simp only [signed, Fits, Option.ite_none_right_eq_some, Option.some.injEq, eq_comm]

namespace HiResClock

/-- The nanoseconds a clock stands for. -/
def total (t : HiResClock) : Int := t.sec * nanoclock.second + t.nsec

structure Normalised (t : HiResClock) : Prop where
  nonneg : 0 ≤ t.nsec
  lt : t.nsec < nanoclock.second

/-- A clock as the system reports it. -/
structure Valid (t : HiResClock) : Prop extends Normalised t where
  fits : Fits t.sec

variable {a b c : HiResClock}

theorem Normalised.add_nonneg (ha : a.Normalised) (hb : b.Normalised) : 0 ≤ a.nsec + b.nsec := by
  have := ha.nonneg
  have := hb.nonneg
  omega

theorem carried_exact {sec nsec : Int} (nonneg : 0 ≤ a.nsec + nsec) (done : a.carried sec nsec = some c) :
    c.total = a.total + (sec * nanoclock.second + nsec) ∧ c.Normalised := by
  simp only [carried, Option.bind_eq_bind, Option.bind_eq_some_iff, Option.pure_def, Option.some.injEq,
    signed_eq_some] at done
  obtain ⟨_, ⟨_, rfl⟩, _, ⟨_, rfl⟩, _, ⟨_, rfl⟩, rfl⟩ := done
  have quotient := Int.tdiv_eq_ediv_of_nonneg (b := nanoclock.second) nonneg
  have rest := Int.tmod_eq_emod_of_nonneg (b := nanoclock.second) nonneg
  unfold nanoclock.second at quotient rest
  constructor
  · simp only [total, nanoclock.second]
    omega
  · constructor <;> simp only [nanoclock.second] <;> omega

theorem add_exact (ha : a.Normalised) (hb : b.Normalised) (done : a.add b = some c) :
    c.total = a.total + b.total ∧ c.Normalised :=
  carried_exact (ha.add_nonneg hb) done

/-- Advancing the clock adds to what it reads. -/
theorem advance_exact {sec nsec : Int} (hb : b.Normalised) (done : advance b sec nsec = .ok (some c)) :
    c.total = b.total + (sec * nanoclock.second + nsec) ∧ c.Normalised := by
  unfold advance at done
  split at done
  · cases done
  · have := hb.nonneg
    exact carried_exact (by omega) (Except.ok.inj done)

theorem add_of_lt (ha : a.Normalised) (hb : b.Valid) (lt : a.nsec + b.nsec < nanoclock.second) :
    a.add b = (signed (a.sec + b.sec)).map fun sec => { sec, nsec := a.nsec + b.nsec } := by
  have nonneg := ha.add_nonneg hb.toNormalised
  have small : Fits (a.nsec + b.nsec) := by
    unfold Fits nanoclock.second at *
    omega
  have quotient : (a.nsec + b.nsec).tdiv nanoclock.second = 0 := Int.tdiv_eq_zero_of_lt nonneg lt
  have rest : (a.nsec + b.nsec).tmod nanoclock.second = a.nsec + b.nsec := Int.tmod_eq_of_lt nonneg lt
  simp only [add, carried, signed_of_fits small, Option.bind_eq_bind, Option.bind_some, quotient, rest, Int.add_zero,
    signed_of_fits hb.fits]
  cases signed (a.sec + b.sec) <;> rfl

theorem Normalised.fits_sub (ha : a.Normalised) (hb : b.Normalised) : Fits (a.nsec - b.nsec) := by
  have := ha.nonneg
  have := ha.lt
  have := hb.nonneg
  have := hb.lt
  unfold Fits nanoclock.second at *
  omega

theorem sub_of_le (ha : a.Normalised) (hb : b.Normalised) (le : b.nsec ≤ a.nsec) :
    a.sub b = (signed (a.sec - b.sec)).map fun sec => { sec, nsec := a.nsec - b.nsec } := by
  have nonneg : ¬ a.nsec - b.nsec < 0 := by omega
  simp only [sub, signed_of_fits (ha.fits_sub hb), Option.bind_eq_bind, Option.bind_some, if_neg nonneg]
  cases signed (a.sec - b.sec) <;> rfl

/-- The subtrahend loses the borrowed second, and so the difference gains it. -/
theorem sub_of_lt (ha : a.Normalised) (hb : b.Normalised) (lt : a.nsec < b.nsec) (done : a.sub b = some c) :
    c = { sec := a.sec - b.sec + 1, nsec := nanoclock.second + (a.nsec - b.nsec) } := by
  have negative : a.nsec - b.nsec < 0 := by omega
  simp only [sub, signed_of_fits (ha.fits_sub hb), Option.bind_eq_bind, Option.bind_some, if_pos negative,
    Option.bind_eq_some_iff, Option.pure_def, Option.some.injEq, signed_eq_some] at done
  obtain ⟨_, ⟨_, rfl⟩, _, ⟨_, rfl⟩, _, ⟨_, rfl⟩, rfl⟩ := done
  rw [mk.injEq]
  exact ⟨by omega, rfl⟩

theorem sub_total_of_lt (ha : a.Normalised) (hb : b.Normalised) (lt : a.nsec < b.nsec) (done : a.sub b = some c) :
    c.total = a.total - b.total + 2 * nanoclock.second := by
  rw [sub_of_lt ha hb lt done]
  simp only [total, nanoclock.second]
  omega

end HiResClock

namespace HiResTimer
open HiResClock

variable {start mark : HiResClock}

/-- What a timer started at `start` and marked at `mark` measures. -/
def between (start mark : HiResClock) : HiResTimer := (HiResTimer.start start.toTimespec).mark mark.toTimespec

theorem difference_of_le (hs : start.Normalised) (hm : mark.Normalised) (le : start.nsec ≤ mark.nsec) :
    (between start mark).difference = (mark.sub start).map toTimespec := by
  have nonneg : ¬ mark.nsec - start.nsec < 0 := by omega
  simp only [difference, between, HiResTimer.mark, HiResTimer.start, reset, toTimespec, sub_of_le hm hs le,
    signed_of_fits (hm.fits_sub hs), Option.bind_eq_bind, Option.bind_some, if_neg nonneg]
  cases signed (mark.sec - start.sec) <;> rfl

theorem difference_exact (hs : start.Normalised) (hm : mark.Normalised) {t : Timespec}
    (done : (between start mark).difference = some t) :
    t.sec * nanoclock.second + t.nsec = mark.total - start.total ∧ 0 ≤ t.nsec ∧ t.nsec < nanoclock.second := by
  have := hs.nonneg
  have := hs.lt
  have := hm.nonneg
  have := hm.lt
  simp only [difference, between, HiResTimer.mark, HiResTimer.start, reset, toTimespec,
    signed_of_fits (hm.fits_sub hs), Option.bind_eq_bind, Option.bind_some] at done
  split at done
  case isTrue borrowed =>
    simp only [Option.bind_eq_some_iff, Option.pure_def, Option.some.injEq, signed_eq_some] at done
    obtain ⟨_, ⟨_, rfl⟩, _, ⟨_, rfl⟩, _, ⟨_, rfl⟩, rfl⟩ := done
    simp only [total, nanoclock.second] at *
    omega
  case isFalse =>
    simp only [Option.bind_eq_some_iff, Option.pure_def, Option.some.injEq, signed_eq_some] at done
    obtain ⟨_, ⟨_, rfl⟩, rfl⟩ := done
    simp only [total, nanoclock.second] at *
    omega

end HiResTimer

namespace HiResClock

/-- A result that is normalised and stands for `nanoseconds`. -/
def Gives (result : Option HiResClock) (nanoseconds : Int) : Prop :=
  ∃ c, result = some c ∧ c.total = nanoseconds ∧ c.Normalised

/-- The clocks compute with `a` and `b` as with integers, and the timer agrees. -/
structure Exact (a b : HiResClock) : Prop where
  sum : Gives (a.add b) (a.total + b.total)
  difference : Gives (a.sub b) (a.total - b.total)
  back : (a.add b).bind (·.sub b) = some a
  timer : (HiResTimer.between b a).difference = (a.sub b).map toTimespec

variable {a b c : HiResClock}

theorem Exact.le (exact : Exact a b) (ha : a.Normalised) (hb : b.Normalised) : b.nsec ≤ a.nsec := by
  obtain ⟨c, done, total, _⟩ := exact.difference
  apply Int.not_lt.mp
  intro lt
  have borrowed := sub_total_of_lt ha hb lt done
  unfold nanoclock.second at borrowed
  omega

/-- A carry leaves fewer nanoseconds than were added, so that taking them away again borrows. -/
theorem Exact.lt (exact : Exact a b) (ha : a.Normalised) (hb : b.Normalised) :
    a.nsec + b.nsec < nanoclock.second := by
  obtain ⟨c, done, sum, normalised⟩ := exact.sum
  have back := exact.back
  simp only [done, Option.bind_some] at back
  apply Int.not_le.mp
  intro carry
  have small : c.nsec < b.nsec := by
    have := ha.lt
    have := normalised.nonneg
    have := normalised.lt
    simp only [total, nanoclock.second] at *
    omega
  have wrong := sub_total_of_lt normalised hb small back
  unfold nanoclock.second at wrong
  omega

/-- The clocks are exact unless a second is carried or borrowed, or the seconds overflow. -/
theorem exact_iff (a b : HiResClock) (ha : a.Valid) (hb : b.Valid) :
    Exact a b ↔
      b.nsec ≤ a.nsec ∧ a.nsec + b.nsec < nanoclock.second ∧ Fits (a.sec + b.sec) ∧ Fits (a.sec - b.sec) := by
  constructor
  · intro exact
    have le := exact.le ha.toNormalised hb.toNormalised
    have lt := exact.lt ha.toNormalised hb.toNormalised
    obtain ⟨c, sum, _⟩ := exact.sum
    obtain ⟨d, difference, _⟩ := exact.difference
    rw [add_of_lt ha.toNormalised hb lt, Option.map_eq_some_iff] at sum
    rw [sub_of_le ha.toNormalised hb.toNormalised le, Option.map_eq_some_iff] at difference
    obtain ⟨_, sum, _⟩ := sum
    obtain ⟨_, difference, _⟩ := difference
    exact ⟨le, lt, (signed_eq_some.mp sum).1, (signed_eq_some.mp difference).1⟩
  · rintro ⟨le, lt, sum, difference⟩
    have added := add_of_lt ha.toNormalised hb lt
    have taken := sub_of_le ha.toNormalised hb.toNormalised le
    rw [signed_of_fits sum, Option.map_some] at added
    rw [signed_of_fits difference, Option.map_some] at taken
    have normalised := (add_exact ha.toNormalised hb.toNormalised added).2
    constructor
    · exact ⟨_, added, add_exact ha.toNormalised hb.toNormalised added⟩
    · refine ⟨_, taken, ?_, ⟨by simpa using le, ?_⟩⟩
      · simp only [total, nanoclock.second]
        omega
      · have := ha.lt
        have := hb.nonneg
        simp only
        omega
    · have more : b.nsec ≤ a.nsec + b.nsec := by
        have := ha.nonneg
        omega
      have seconds : a.sec + b.sec - b.sec = a.sec := by omega
      have nanoseconds : a.nsec + b.nsec - b.nsec = a.nsec := by omega
      rw [added, Option.bind_some, sub_of_le normalised hb.toNormalised more]
      simp only [seconds, nanoseconds, signed_of_fits ha.fits, Option.map_some]
    · exact HiResTimer.difference_of_le hb.toNormalised ha.toNormalised le

theorem exact_iff_seconds : Exact ⟨7, 500⟩ ⟨3, 200⟩ ↔
    (200 : Int) ≤ 500 ∧ (500 + 200 : Int) < nanoclock.second ∧ Fits (7 + 3) ∧ Fits (7 - 3) :=
  exact_iff ⟨7, 500⟩ ⟨3, 200⟩ ⟨⟨by decide, by decide⟩, by decide⟩ ⟨⟨by decide, by decide⟩, by decide⟩

/-- Half a second before two seconds is one and a half, not three and a half. -/
theorem borrow_not_exact : ¬ ∀ a b : HiResClock, a.Valid → b.Valid → Exact a b := by
  intro always
  obtain ⟨c, done, total, _⟩ := (always ⟨2, 0⟩ ⟨0, 500000000⟩ ⟨⟨by decide, by decide⟩, by decide⟩
    ⟨⟨by decide, by decide⟩, by decide⟩).difference
  have computed : HiResClock.sub ⟨2, 0⟩ ⟨0, 500000000⟩ = some ⟨3, 500000000⟩ := by decide
  rw [computed, Option.some.injEq] at done
  rw [← done] at total
  exact absurd total (by decide)

end HiResClock
end LibWebserver
