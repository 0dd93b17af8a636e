import LibWebserver.Proofs.Checked
import LibWebserver.Proofs.Strings

/-! The functions that take a region of a string, for any arguments. Their guards add
before they compare, and the sum wraps around, so that a region is refused only where
its end, taken modulo 2^64, lies behind the string. -/

namespace LibWebserver.Checked
open CStr CString

variable {s : CString} {start len : Nat}

/-- `Erase` throws, or erases a region that lies in the string. -/
def EraseInRange (s : CString) (start len : Nat) : Prop :=
  (∃ why, s.erase start len = .error (.internalError why)) ∧ Strings.erase start len s = some s ∨
  start + len ≤ s.length ∧ ∃ after, Strings.erase start len s = some after ∧
    after.content = s.content.take start ++ s.content.drop (start + len) ∧ after.length = s.length - len

/-- `Substring` throws, or returns a region that lies in the string. -/
def SubstringInRange (allocates : Nat → Bool) (s : CString) (start len : Nat) : Prop :=
  (∃ why, allocatedSubstring allocates s start len = .ok (.error (.internalError why))) ∨
  start + len ≤ s.length ∧ allocatedSubstring allocates s start len = .ok (.ok ((s.content.drop start).take len))

/-- `Compare` with any `len` bytes stays inside the string. -/
def CompareInRange (s : CString) (start len : Nat) : Prop :=
  ∀ str, len ≤ str.length → ∃ ordering, compare s str start len = .ok ordering

theorem eraseInRange_iff (stored : CString.Stored s s.content) :
    EraseInRange s start len ↔ s.length < addSize start len ∨ start + len ≤ s.length ∧ s.string ≠ [] := by
  by_cases refused : s.length < addSize start len
  · have thrown : s.erase start len = .error (.internalError "CString size overflow") := if_pos refused
    refine iff_of_true (.inl ⟨⟨_, thrown⟩, ?_⟩) (.inl refused)
    rw [Strings.erase, thrown]
  · have passes : ∃ after, s.erase start len = .ok after := by
      rw [CString.erase, if_neg refused]
      split <;> exact ⟨_, rfl⟩
    obtain ⟨result, passes⟩ := passes
    constructor
    · rintro (⟨⟨_, thrown⟩, _⟩ | ⟨inside, after, done, _⟩)
      · rw [passes] at thrown
        cases thrown
      · refine .inr ⟨inside, fun null => ?_⟩
        rw [Strings.erase, passes] at done
        dsimp only at done
        rw [if_pos null] at done
        cases done
    · rintro (late | ⟨inside, block⟩)
      · exact absurd late refused
      · obtain ⟨after, done, refines⟩ := stored.erase inside block
        refine .inr ⟨inside, after, ?_, refines.content, ?_⟩
        · rw [Strings.erase, done]
          exact if_neg block
        · have kept := stored.length
          rw [refines.length, List.length_append, List.length_take, List.length_drop]
          omega

theorem substringInRange_iff (allocates : Nat → Bool) :
    SubstringInRange allocates s start len ↔
      s.length < addSize start len ∨ start + len ≤ s.length ∨ allocates (addSize len 1) = false := by
  rw [SubstringInRange, allocatedSubstring]
  by_cases refused : s.length < addSize start len
  · rw [if_pos refused]
    exact iff_of_true (.inl ⟨_, rfl⟩) (.inl refused)
  · rw [if_neg refused]
    cases granted : allocates (addSize len 1) with
    | false => exact iff_of_true (.inl ⟨_, rfl⟩) (.inr (.inr rfl))
    | true =>
      rw [if_pos rfl, substring, if_neg refused]
      by_cases inside : start + len ≤ s.length
      · have readable : ((textOf s).readable.drop start).take len = (s.content.drop start).take len := by
          change ((s.string.take (s.length + 1)).drop start).take len = ((s.string.take s.length).drop start).take len
          rw [List.drop_take, List.take_take, List.drop_take, List.take_take, Nat.min_eq_left (by omega),
            Nat.min_eq_left (by omega)]
        rw [if_pos inside, readable]
        exact iff_of_true (.inr ⟨inside, rfl⟩) (.inr (.inl inside))
      · rw [if_neg inside]
        refine iff_of_false ?_ ?_
        · rintro (⟨_, thrown⟩ | ⟨within, _⟩)
          · cases thrown
          · exact inside within
        · rintro (late | within | none)
          · exact refused late
          · exact inside within
          · cases none

theorem memcmp_reads_iff {str : Bytes} {count : Nat} (enough : count ≤ str.length) :
    (∃ ordering, (textOf s).memcmp str start count = .ok ordering) ↔ start + count ≤ s.length := by
  rw [Text.memcmp]
  by_cases inside : start + count ≤ s.length
  · rw [if_pos ⟨inside, enough⟩]
    exact iff_of_true ⟨_, rfl⟩ inside
  · rw [if_neg fun both => inside both.1]
    refine iff_of_false ?_ inside
    rintro ⟨_, read⟩
    cases read

theorem memcmp_outside {str : Bytes} {count : Nat} (outside : s.length < start + count) :
    ¬ ∃ ordering, (textOf s).memcmp str start count = .ok ordering := by
  rintro ⟨_, read⟩
  rw [Text.memcmp, if_neg fun both => absurd both.1 (Nat.not_le.mpr outside)] at read
  cases read

/-- The branch for a region that ends behind the string subtracts without asking where it starts. -/
theorem compareInRange_iff (stored : CString.Stored s s.content) (hs : start < 2 ^ 64) (hl : len < 2 ^ 64) :
    CompareInRange s start len ↔
      start ≤ s.length ∧ (start + len ≤ s.length ∨ s.length < addSize start len) := by
  have small := stored.small
  by_cases passes : addSize start len ≤ s.length
  · have compared (str : Bytes) : compare s str start len = (textOf s).memcmp str start len := if_pos passes
    by_cases inside : start + len ≤ s.length
    · refine iff_of_true (fun str enough => ?_) ⟨by omega, .inl inside⟩
      rw [compared]
      exact (memcmp_reads_iff enough).mpr inside
    · refine iff_of_false (fun inRange => ?_) (by omega)
      have read := inRange (List.replicate len 0) (by rw [List.length_replicate])
      rw [compared] at read
      exact memcmp_outside (by omega) read
  · have compared (str : Bytes) : compare s str start len = (textOf s).memcmp str start (subSize s.length start) :=
      if_neg passes
    by_cases inside : start ≤ s.length
    · have count : subSize s.length start = s.length - start := by
        rw [subSize]
        omega
      refine iff_of_true (fun str enough => ?_) ⟨inside, .inr (by omega)⟩
      have behind : s.length < start + len := by
        rw [addSize] at passes
        omega
      rw [compared, count]
      exact (memcmp_reads_iff (by omega)).mpr (by omega)
    · refine iff_of_false (fun inRange => ?_) (by omega)
      have count : s.length < start + subSize s.length start := by
        rw [subSize]
        omega
      have read := inRange (List.replicate len 0) (by rw [List.length_replicate])
      rw [compared] at read
      exact memcmp_outside count read

structure InRange (allocates : Nat → Bool) (s : CString) (start position len : Nat) : Prop where
  erase : EraseInRange s start len
  substring : SubstringInRange allocates s position len
  compare : CompareInRange s position len

theorem inRange_iff (allocates : Nat → Bool) (s : CString) (stored : CString.Stored s s.content)
    (start position len : Nat) (hp : position < 2 ^ 64) (hl : len < 2 ^ 64) :
    InRange allocates s start position len ↔
      (s.length < addSize start len ∨ start + len ≤ s.length ∧ s.string ≠ []) ∧
      (s.length < addSize position len ∨ position + len ≤ s.length ∨ allocates (addSize len 1) = false) ∧
      position ≤ s.length ∧ (position + len ≤ s.length ∨ s.length < addSize position len) := by
  rw [← eraseInRange_iff stored, ← substringInRange_iff allocates, ← compareInRange_iff stored hp hl]
  exact ⟨fun ⟨erase, substring, compare⟩ => ⟨erase, substring, compare⟩,
    fun ⟨erase, substring, compare⟩ => ⟨erase, substring, compare⟩⟩

theorem inRange_iff_middle :
    InRange (fun _ => true) ⟨[97, 98, 99, 0], 3, 0⟩ 1 1 2 ↔
      (3 < addSize 1 2 ∨ 1 + 2 ≤ 3 ∧ [97, 98, 99, 0] ≠ ([] : Bytes)) ∧
      (3 < addSize 1 2 ∨ 1 + 2 ≤ 3 ∨ true = false) ∧ 1 ≤ 3 ∧ (1 + 2 ≤ 3 ∨ 3 < addSize 1 2) :=
  inRange_iff (fun _ => true) ⟨[97, 98, 99, 0], 3, 0⟩ ⟨.inl (by decide), by decide, rfl⟩ 1 1 2 (by decide) (by decide)

/-- From the last byte of `abc` up to `npos` nothing is refused. -/
theorem npos_not_inRange :
    ¬ ∀ (allocates : Nat → Bool) (s : CString) (start position len : Nat), CString.Stored s s.content →
      start < 2 ^ 64 → position < 2 ^ 64 → len < 2 ^ 64 → InRange allocates s start position len := by
  intro always
  have stored : CString.Stored ⟨[97, 98, 99, 0], 3, 0⟩ [97, 98, 99] := ⟨.inl (by decide), by decide, rfl⟩
  have erased := (always (fun _ => true) ⟨[97, 98, 99, 0], 3, 0⟩ 2 0 (2 ^ 64 - 1) stored (by decide) (by decide)
    (by decide)).erase
  exact absurd ((eraseInRange_iff stored).mp erased) (by decide)

end LibWebserver.Checked
