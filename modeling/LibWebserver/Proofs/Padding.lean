import LibWebserver.Proofs.Numerals
import LibWebserver.Proofs.Strings

/-! Integers appended to a string: zeros up to a width and the digits behind them, as long
as the digits and their terminator fit in the block they are written to. -/

namespace LibWebserver.Conversions
open Numeral

/-- A numeral with zeros in front of it up to a width. -/
def padded (alphabet : Bytes) (base n width : Nat) : Bytes :=
  List.replicate (width - (numeral base n).length) 48 ++ text alphabet base n

/-- What an append does once the digits are there. -/
def appendDigits (s : CString) (digits : Bytes) (width : Nat) : Result CString := do
  let s ← if digits.length < width then appendZeros (width - digits.length) s else pure s
  ofString (s.append digits)

variable {s : CString} {bytes digits rest alphabet : Bytes} {base : Int} {width : Nat}
  {render : Bytes → Int → Bytes → Result (Nat × Bytes)}

theorem appendInteger_rendered (rendered : render scratch base alphabet = .ok (digits.length, digits ++ rest)) :
    appendInteger render alphabet s base width = appendDigits s digits width := by
  rw [appendInteger, rendered, ok_bind, appendDigits]
  simp only [List.take_left]

theorem appendInteger_fault {fault : Fault} (fails : render scratch base alphabet = .error fault) :
    appendInteger render alphabet s base width = .error fault := by
  rw [appendInteger, fails, error_bind]

theorem appendZeros_refines {count : Nat} (refines : s.Refines bytes) (fits : bytes.length + count + 1 < 2 ^ 64) :
    ∃ after, appendZeros count s = .ok after ∧ after.Refines (bytes ++ List.replicate count 48) := by
  induction count generalizing s bytes with
  | zero => exact ⟨s, rfl, by simpa using refines⟩
  | succ count ih =>
    have length := refines.length
    obtain ⟨next, put, more⟩ := @CString.Refines.appendChar s bytes refines 48 (by omega)
    obtain ⟨after, done, all⟩ := ih more (by rw [List.length_append, List.length_singleton]; omega)
    refine ⟨after, ?_, ?_⟩
    · rw [appendZeros, put]
      exact done
    · rw [List.replicate_succ, List.append_cons]
      exact all

theorem appendDigits_refines (refines : s.Refines bytes) (fits : bytes.length + max width digits.length + 1 < 2 ^ 64) :
    ∃ after, appendDigits s digits width = .ok after ∧
      after.Refines (bytes ++ (List.replicate (width - digits.length) 48 ++ digits)) := by
  obtain ⟨middle, done, zeros⟩ := @appendZeros_refines s bytes (width - digits.length) refines (by omega)
  have length := zeros.length
  rw [List.length_append, List.length_replicate] at length
  obtain ⟨after, put, all⟩ := @CString.Refines.append middle _ zeros digits (by omega)
  refine ⟨after, ?_, by rw [← List.append_assoc]; exact all⟩
  unfold appendDigits
  split
  · rw [done]
    exact congrArg ofString put
  next wide =>
    rw [Nat.sub_eq_zero_of_le (Nat.le_of_not_lt wide)] at done
    cases done
    exact congrArg ofString put

variable {value : BitVec 64}

theorem length_numeral_lt_iff (low : 2 ≤ base) (n : Nat) :
    (numeral base.toNat n).length < scratch.length ↔ n < base.toNat ^ 20 := by
  rw [length_numeral, scratch, List.length_replicate, Nat.lt_succ_iff]
  exact length_lowFirst_le_iff (by omega) (by omega)

theorem appendUint64_refines (low : 2 ≤ base) (high : base ≤ 35) (letters : base ≤ alphabet.length)
    (refines : s.Refines bytes)
    (fits : bytes.length + max width (numeral base.toNat value.toNat).length + 1 < 2 ^ 64)
    (room : value.toNat < base.toNat ^ 20) :
    ∃ after, Returns (fun fuel => appendInteger (intToAlphaUint64 fuel value) alphabet s base width) after ∧
      after.Refines (bytes ++ padded alphabet base.toNat value.toNat width) := by
  have count : (text alphabet base.toNat value.toNat).length = (numeral base.toNat value.toNat).length := List.length_map _
  obtain ⟨after, done, all⟩ := @appendDigits_refines s bytes (text alphabet base.toNat value.toNat) width refines
    (by rw [count]; exact fits)
  rw [count] at all
  refine ⟨after, ⟨65, fun fuel enough => ?_⟩, all⟩
  have rendered := @intToAlphaUint64_digits alphabet fuel value base scratch low high letters (by omega)
  rw [if_pos ((length_numeral_lt_iff low _).mpr room), ← count] at rendered
  exact (appendInteger_rendered rendered).trans done

theorem appendUint64_overruns (low : 2 ≤ base) (high : base ≤ 35) (letters : base ≤ alphabet.length)
    (long : base.toNat ^ 20 ≤ value.toNat) {fuel : Nat} (enough : 64 < fuel) :
    appendInteger (intToAlphaUint64 fuel value) alphabet s base width = .error (.buffer 21) := by
  have rendered := @intToAlphaUint64_digits alphabet fuel value base scratch low high letters enough
  rw [if_neg (by rw [length_numeral_lt_iff low]; omega)] at rendered
  exact appendInteger_fault rendered

theorem not_returns_of_fault {α : Type} {call : Nat → Result α} {bound : Nat}
    (faults : ∀ fuel, bound ≤ fuel → ∃ fault, call fuel = .error fault) (result : α) : ¬ Returns call result := by
  intro ⟨least, returns⟩
  obtain ⟨fault, fails⟩ := faults (max bound least) (Nat.le_max_left _ _)
  rw [returns (max bound least) (Nat.le_max_right _ _)] at fails
  cases fails

theorem appendUint64_iff (low : 2 ≤ base) (high : base ≤ 35) (letters : base ≤ alphabet.length) (refines : s.Refines bytes)
    (fits : bytes.length + max width (numeral base.toNat value.toNat).length + 1 < 2 ^ 64) :
    (∃ after, Returns (fun fuel => appendInteger (intToAlphaUint64 fuel value) alphabet s base width) after ∧
      after.Refines (bytes ++ padded alphabet base.toNat value.toNat width)) ↔ value.toNat < base.toNat ^ 20 := by
  refine ⟨fun ⟨after, returns, _⟩ => ?_, appendUint64_refines low high letters refines fits⟩
  by_contra long
  refine @not_returns_of_fault _ _ 65 (fun fuel enough => ?_) after returns
  exact ⟨_, appendUint64_overruns low high letters (Nat.le_of_not_lt long) enough⟩

/-- A string and the padded numeral behind it, exactly when the numeral has at most the
20 digits of the largest value in base 10. Any other runs past the block. -/
theorem appendInteger_padded_iff {s : CString} {bytes : Bytes} (refines : s.Refines bytes) (value : BitVec 64) {base : Int}
    (low : 2 ≤ base) (high : base ≤ 35) {width : Nat}
    (fits : bytes.length + max width (numeral base.toNat value.toNat).length + 1 < 2 ^ 64) :
    ((∃ after, Returns (fun fuel => appendLowercaseUint64 fuel s value base width) after ∧
        after.Refines (bytes ++ padded lowercase base.toNat value.toNat width)) ↔ value.toNat < base.toNat ^ 20) ∧
      ((∃ after, Returns (fun fuel => appendUppercaseUint64 fuel s value base width) after ∧
        after.Refines (bytes ++ padded uppercase base.toNat value.toNat width)) ↔ value.toNat < base.toNat ^ 20) := by
  have lower : base ≤ (lowercase.length : Int) := high.trans (by decide)
  have upper : base ≤ (uppercase.length : Int) := high.trans (by decide)
  exact ⟨appendUint64_iff low high lower refines fits, appendUint64_iff low high upper refines fits⟩

/-- A number of twelve digits behind what a string holds already. -/
theorem appendInteger_padded_hexadecimal :
    ∃ named : CString, CString.empty.append (ascii "id 0x") = some named ∧ named.Refines (ascii "id 0x") ∧
      ∃ after, Returns (fun fuel => appendUppercaseUint64 fuel named (3735928559#64) 16 12) after ∧
        after.Refines (ascii "id 0x0000DEADBEEF") := by
  obtain ⟨named, made, refines⟩ := CString.refines_empty.append (by decide : CString.empty.length + (ascii "id 0x").length + 1 < 2 ^ 64)
  have both := appendInteger_padded_iff refines (3735928559#64) (by decide : 2 ≤ (16 : Int)) (by decide)
    (by decide +kernel : (ascii "id 0x").length + max 12 (numeral 16 3735928559).length + 1 < 2 ^ 64)
  have digits : ascii "id 0x" ++ padded uppercase 16 3735928559 12 = ascii "id 0x0000DEADBEEF" := by decide +kernel
  refine ⟨named, made, refines, ?_⟩
  rw [← digits]
  exact both.2.mpr (by decide)

theorem appendInteger_binary_overruns :
    ¬ ∃ after, Returns (fun fuel => appendLowercaseUint64 fuel .empty (18446744073709551615#64) 2 0) after ∧
      after.Refines ([] ++ padded lowercase 2 18446744073709551615 0) := by
  intro ⟨after, returns, _⟩
  refine @not_returns_of_fault _ _ 65 (fun fuel enough => ?_) after returns
  exact ⟨_, appendUint64_overruns (by decide) (by decide) (by decide) (by decide +kernel) enough⟩

/-- The block is made for base 10: from there on every value fits. -/
theorem lt_pow_of_ten_le (large : 10 ≤ base) (value : BitVec 64) : value.toNat < base.toNat ^ 20 := by
  calc value.toNat < 2 ^ 64 := value.isLt
    _ ≤ 10 ^ 20 := by norm_num
    _ ≤ base.toNat ^ 20 := Nat.pow_le_pow_left (by omega) 20

end LibWebserver.Conversions
