import LibWebserver.Library.CStr
import Mathlib.Data.Nat.Digits.Lemmas

/-! Positional numerals in any base, and the C functions that read them back. -/

namespace LibWebserver

namespace Numeral

/-- The digits of a number, the last one first. Zero has one digit. -/
def lowFirst (base n : Nat) : List Nat := if n = 0 then [0] else Nat.digits base n

/-- The digits of a number as they are written. -/
def numeral (base n : Nat) : List Nat := (lowFirst base n).reverse

/-- Positional value of written digits. -/
def value (base : Nat) (digits : List Nat) : Nat := digits.foldl (fun n d => n * base + d) 0

variable {base n : Nat}

theorem lowFirst_of_lt (small : n < base) : lowFirst base n = [n] := by
  unfold lowFirst
  split
  next zero => rw [zero]
  next positive => exact Nat.digits_of_lt base n positive small

theorem lowFirst_of_le (low : 2 ≤ base) (large : base ≤ n) :
    lowFirst base n = n % base :: lowFirst base (n / base) := by
  have positive : n ≠ 0 := by omega
  have more : n / base ≠ 0 := by
    have := Nat.div_pos large (by omega)
    omega
  rw [lowFirst, if_neg positive, lowFirst, if_neg more]
  exact Nat.digits_eq_cons_digits_div (by omega) positive

theorem lowFirst_ne_nil (base n : Nat) : lowFirst base n ≠ [] := by
  unfold lowFirst
  split
  · exact List.cons_ne_nil 0 []
  next positive => exact Nat.digits_ne_nil_iff_ne_zero.mpr positive

theorem lt_of_mem_lowFirst (low : 2 ≤ base) {d : Nat} (member : d ∈ lowFirst base n) : d < base := by
  unfold lowFirst at member
  split at member
  · rw [List.mem_singleton] at member
    omega
  · exact Nat.digits_lt_base (by omega) member

theorem length_lowFirst_le_iff (low : 2 ≤ base) {k : Nat} (some : 0 < k) :
    (lowFirst base n).length ≤ k ↔ n < base ^ k := by
  unfold lowFirst
  split
  next zero =>
    refine iff_of_true some ?_
    rw [zero]
    exact Nat.pow_pos (by omega)
  · exact Nat.digits_length_le_iff (by omega) n

theorem lt_of_mem_numeral (low : 2 ≤ base) {d : Nat} (member : d ∈ numeral base n) : d < base :=
  lt_of_mem_lowFirst low (List.mem_reverse.mp member)

@[simp] theorem length_numeral (base n : Nat) : (numeral base n).length = (lowFirst base n).length :=
  List.length_reverse

theorem numeral_ne_nil (base n : Nat) : numeral base n ≠ [] := by
  simpa [numeral] using lowFirst_ne_nil base n

theorem value_numeral (base n : Nat) : value base (numeral base n) = n := by
  have digits : Nat.ofDigits base (lowFirst base n) = n := by
    unfold lowFirst
    split
    next zero => simp [zero]
    · exact Nat.ofDigits_digits base n
  have order : (fun d n => n * base + d) = fun d n => d + base * n := by
    funext d n
    rw [Nat.mul_comm, Nat.add_comm]
  rw [Nat.ofDigits_eq_foldr] at digits
  rw [value, numeral, List.foldl_reverse, order]
  exact digits

theorem numeral_head {base n : Nat} (zero : (numeral base n).head? = some 0) : n = 0 := by
  by_contra positive
  have same : numeral base n = (Nat.digits base n).reverse := by rw [numeral, lowFirst, if_neg positive]
  have some : Nat.digits base n ≠ [] := Nat.digits_ne_nil_iff_ne_zero.mpr positive
  rw [same, List.head?_reverse, List.getLast?_eq_getLast_of_ne_nil some] at zero
  exact Nat.getLast_digit_ne_zero base positive (Option.some.inj zero)

theorem numeral_zero (base : Nat) : numeral base 0 = [0] := rfl

end Numeral

namespace CStr
open Numeral

/-- Value of a digit or a letter as a digit. -/
def digit (c : UInt8) : Option Nat :=
  if 48 ≤ c ∧ c ≤ 57 then some (c.toNat - 48)
  else if 65 ≤ c ∧ c ≤ 90 then some (c.toNat - 55)
  else if 97 ≤ c ∧ c ≤ 122 then some (c.toNat - 87)
  else none

/-- Value of the digits of a base a string begins with, behind digits of value `n`. -/
def valueFrom (base : Nat) : Bytes → Nat → Nat
  | [], n => n
  | c :: s, n => match digit c with
    | some d => if d < base then valueFrom base s (n * base + d) else n
    | none => n

/-- What `strtol` and `strtoull` read digits from: behind blanks, one sign and, in
base 16, a `0x` before a digit. -/
def digitsOf (s : Bytes) (base : Nat) : Bytes :=
  let s := s.dropWhile isspace
  let s := if peek s = 45 ∨ peek s = 43 then s.tail else s
  if base = 16 ∧ peek s = 48 ∧ (peek s.tail = 120 ∨ peek s.tail = 88) ∧ (xdigit (peek s.tail.tail)).isSome then s.tail.tail
  else s

def isNegative (s : Bytes) : Bool := peek (s.dropWhile isspace) = 45

/-- `strtoull(s, 0, base)`. -/
def strtoull (s : Bytes) (base : Nat) : Nat :=
  let value := valueFrom base (digitsOf s base) 0
  if ULONG_MAX < value then ULONG_MAX
  else if isNegative s then (ULONG_MAX + 1 - value) % (ULONG_MAX + 1) else value

/-- `strtol(s, 0, base)`. -/
def strtol (s : Bytes) (base : Nat) : Int :=
  let value := valueFrom base (digitsOf s base) 0
  if isNegative s then -(min value (LONG_MAX + 1)) else min value LONG_MAX

theorem digit_ge {c : UInt8} {d : Nat} (read : digit c = some d) : 48 ≤ c.toNat := by
  unfold digit at read
  split_ifs at read with number upper lower
  · exact number.1
  · have low : 65 ≤ c.toNat := upper.1
    omega
  · have low : 97 ≤ c.toNat := lower.1
    omega

theorem isspace_of_digit {c : UInt8} {d : Nat} (read : digit c = some d) : isspace c = false := by
  have low := digit_ge read
  simp only [isspace, decide_eq_false_iff_not, not_or, not_and]
  constructor
  · rintro rfl
    exact absurd low (by decide)
  · intro _ high
    have high : c.toNat ≤ 13 := high
    omega

section
variable {base n : Nat} {glyph : Nat → UInt8}

theorem valueFrom_digits (glyphs : ∀ d < base, digit (glyph d) = some d) {digits : List Nat} (inside : ∀ d ∈ digits, d < base)
    (rest : Bytes) : valueFrom base (digits.map glyph ++ 0 :: rest) n = digits.foldl (fun n d => n * base + d) n := by
  induction digits generalizing n with
  | nil => rfl
  | cons d digits ih =>
    have small : d < base := inside d List.mem_cons_self
    rw [List.map_cons, List.cons_append, valueFrom, glyphs d small]
    simp only [small, if_true]
    exact ih fun e member => inside e (List.mem_cons_of_mem d member)

theorem valueFrom_numeral (low : 2 ≤ base) (glyphs : ∀ d < base, digit (glyph d) = some d) (rest : Bytes) :
    valueFrom base ((numeral base n).map glyph ++ 0 :: rest) 0 = n :=
  (valueFrom_digits glyphs (fun _ member => lt_of_mem_numeral low member) rest).trans (value_numeral base n)

theorem ne_sign_of_digit {c : UInt8} {d : Nat} (read : digit c = some d) : c ≠ 45 ∧ c ≠ 43 := by
  have first := digit_ge read
  constructor
  · rintro rfl
    exact absurd first (by decide)
  · rintro rfl
    exact absurd first (by decide)

/-- Neither blank nor sign nor `0x` stands in front of a numeral. -/
theorem digitsOf_numeral (low : 2 ≤ base) (glyphs : ∀ d < base, digit (glyph d) = some d) (rest : Bytes) :
    digitsOf ((numeral base n).map glyph ++ 0 :: rest) base = (numeral base n).map glyph ++ 0 :: rest ∧
      isNegative ((numeral base n).map glyph ++ 0 :: rest) = false := by
  obtain ⟨d, digits, same⟩ := List.exists_cons_of_ne_nil (numeral_ne_nil base n)
  have small : d < base := lt_of_mem_numeral low (same ▸ List.mem_cons_self)
  have read := glyphs d small
  obtain ⟨minus, plus⟩ := ne_sign_of_digit read
  have start : ((numeral base n).map glyph ++ 0 :: rest).dropWhile isspace = (numeral base n).map glyph ++ 0 :: rest := by
    rw [same, List.map_cons, List.cons_append, List.dropWhile_cons_of_neg (by simp [isspace_of_digit read])]
  have head : peek ((numeral base n).map glyph ++ 0 :: rest) = glyph d := by
    rw [same]
    rfl
  refine ⟨?_, by simp [isNegative, start, head, minus]⟩
  simp only [digitsOf, start, head, minus, plus, or_self, if_false]
  refine if_neg ?_
  rintro ⟨_, zero, mark, _⟩
  -- A numeral that begins with a zero is that zero, and the terminator is behind it.
  have nothing : d = 0 := by
    rw [zero] at read
    exact (Option.some.inj read).symm
  have none : n = 0 := numeral_head (by rw [same, nothing]; rfl)
  rw [none, numeral_zero] at mark
  exact absurd mark (by simp)

theorem strtoull_numeral (low : 2 ≤ base) (glyphs : ∀ d < base, digit (glyph d) = some d) (fits : n ≤ ULONG_MAX)
    (rest : Bytes) : strtoull ((numeral base n).map glyph ++ 0 :: rest) base = n := by
  obtain ⟨whole, positive⟩ := @digitsOf_numeral base n glyph low glyphs rest
  have read := @valueFrom_numeral base n glyph low glyphs rest
  simp only [strtoull, whole, positive, read, if_neg (Nat.not_lt.mpr fits), Bool.false_eq_true, if_false]

theorem strtol_numeral (low : 2 ≤ base) (glyphs : ∀ d < base, digit (glyph d) = some d) (fits : n ≤ LONG_MAX)
    (rest : Bytes) : strtol ((numeral base n).map glyph ++ 0 :: rest) base = n := by
  obtain ⟨whole, positive⟩ := @digitsOf_numeral base n glyph low glyphs rest
  have read := @valueFrom_numeral base n glyph low glyphs rest
  simp only [strtol, whole, positive, read, Bool.false_eq_true, if_false]
  omega

end
end CStr
end LibWebserver
