import Mathlib.Data.List.Infix
import Mathlib.Data.List.TakeWhile
import Mathlib.Data.UInt
import Mathlib.Tactic.IntervalCases

/-! Byte strings and the C string functions. A pointer into a string is the list
of bytes from there to the end of the buffer; the terminating NUL is implicit,
so reading at or past the end gives 0. -/

namespace LibWebserver

abbrev Bytes := List UInt8

def ascii (text : String) : Bytes := text.toList.map fun c => c.toNat.toUInt8

abbrev cr : UInt8 := 13
abbrev lf : UInt8 := 10
abbrev crlf : Bytes := [13, 10]

namespace CStr

/-- The byte a pointer points at. -/
def peek (p : Bytes) : UInt8 := p.headD 0

@[simp] theorem peek_nil : peek [] = 0 := rfl
@[simp] theorem peek_cons (c : UInt8) (p : Bytes) : peek (c :: p) = c := rfl

/-- The string a pointer denotes: everything before the first NUL. -/
def cstr (s : Bytes) : Bytes := s.takeWhile (· ≠ 0)

/-- Offset of the first occurrence of a needle before the terminating NUL. -/
def strstr (needle : Bytes) : Bytes → Option Nat
  | [] => if needle = [] then some 0 else none
  | c :: s => if needle <+: c :: s then some 0
    else if c = 0 then none else (strstr needle s).map (· + 1)

/-- Sign of the comparison of at most `n` bytes. -/
def memcmp : Bytes → Bytes → Nat → Ordering
  | a :: s, b :: t, n + 1 => (compare a b).then (memcmp s t n)
  | _, _, _ => .eq

def tolower (c : UInt8) : UInt8 := if 65 ≤ c ∧ c ≤ 90 then c + 32 else c

def strcmp : Bytes → Bytes → Ordering
  | [], [] => .eq
  | [], _ :: _ => .lt
  | _ :: _, [] => .gt
  | a :: s, b :: t => (compare a b).then (strcmp s t)

def strcasecmp (s t : Bytes) : Ordering := strcmp ((cstr s).map tolower) ((cstr t).map tolower)

def isspace (c : UInt8) : Bool := c = 32 ∨ 9 ≤ c ∧ c ≤ 13

def isdigit (c : UInt8) : Bool := 48 ≤ c ∧ c ≤ 57

def ULONG_MAX : Nat := 2 ^ 64 - 1

/-- Value of a run of decimal digits. -/
def digitsValue (digits : Bytes) : Nat := digits.foldl (fun n c => n * 10 + (c.toNat - 48)) 0

/-- `strtoul(s, 0, 10)`: blanks and one sign are skipped, a value out of range
is `ULONG_MAX`, and a minus sign negates modulo 2^64. -/
def strtoul (s : Bytes) : Nat :=
  let s := s.dropWhile isspace
  let negative := peek s = 45
  let s := if peek s = 45 ∨ peek s = 43 then s.tail else s
  let value := digitsValue (s.takeWhile isdigit)
  if ULONG_MAX < value then ULONG_MAX
  else if negative then (ULONG_MAX + 1 - value) % (ULONG_MAX + 1) else value

/-- Value of a hexadecimal digit. -/
def xdigit (c : UInt8) : Option Nat :=
  if 48 ≤ c ∧ c ≤ 57 then some (c.toNat - 48)
  else if 65 ≤ c ∧ c ≤ 70 then some (c.toNat - 55)
  else if 97 ≤ c ∧ c ≤ 102 then some (c.toNat - 87)
  else none

/-- Value of the hexadecimal digits a string begins with, behind digits of value `n`. -/
def xdigitsValue : Bytes → Nat → Nat
  | [], n => n
  | c :: s, n => match xdigit c with
    | some d => xdigitsValue s (n * 16 + d)
    | none => n

def LONG_MAX : Nat := 2 ^ 63 - 1

/-- `strtol(s, 0, 16)`: blanks, one sign and a `0x` before a digit are skipped, and a
value out of range is the limit on its side. -/
def strtol16 (s : Bytes) : Int :=
  let s := s.dropWhile isspace
  let negative := peek s = 45
  let s := if peek s = 45 ∨ peek s = 43 then s.tail else s
  let s :=
    if peek s = 48 ∧ (peek s.tail = 120 ∨ peek s.tail = 88) ∧ (xdigit (peek s.tail.tail)).isSome then s.tail.tail else s
  let value := xdigitsValue s 0
  if negative then -(min value (LONG_MAX + 1)) else min value LONG_MAX

/-- Decimal numeral of an unsigned integer, as a stream inserter prints it. -/
def decimal (n : Nat) : Bytes := (Nat.toDigits 10 n).map fun c => c.toNat.toUInt8

theorem not_mem_cstr (s : Bytes) : 0 ∉ cstr s := by
  intro member
  simpa using List.mem_takeWhile_imp member

theorem cstr_of_not_mem {s : Bytes} (absent : 0 ∉ s) : cstr s = s := by
  rw [cstr, List.takeWhile_eq_self_iff]
  intro c member
  simpa using fun same : c = 0 => absent (same ▸ member)

theorem cstr_append {s : Bytes} (absent : 0 ∉ s) (t : Bytes) : cstr (s ++ t) = s ++ cstr t := by
  rw [cstr, List.takeWhile_append_of_pos, ← cstr]
  intro c member
  simpa using fun same : c = 0 => absent (same ▸ member)

theorem cstr_nul (s rest : Bytes) : cstr (s ++ 0 :: rest) = cstr s := by
  induction s with
  | nil => rfl
  | cons c s ih =>
    rw [cstr, cstr] at ih
    rw [cstr, cstr, List.cons_append, List.takeWhile_cons, List.takeWhile_cons, ih]

/-- What follows the C string in its buffer is nothing or starts with the NUL. -/
theorem cstr_split (s : Bytes) : ∃ rest, s = cstr s ++ rest ∧ peek rest = 0 := by
  induction s with
  | nil => exact ⟨[], rfl, rfl⟩
  | cons c s ih =>
    by_cases nul : c = 0
    · exact ⟨c :: s, by simp [cstr, nul], nul⟩
    · obtain ⟨rest, same, stops⟩ := ih
      refine ⟨rest, ?_, stops⟩
      have whole : cstr (c :: s) = c :: cstr s := by simp [cstr, nul]
      rw [whole, List.cons_append, ← same]

/-- A needle whose first byte does not come back in it, so that two occurrences
never overlap. -/
def Marker : Bytes → Prop
  | [] => False
  | c :: t => c ∉ t ∧ (0 : UInt8) ∉ c :: t

instance (needle : Bytes) : Decidable (Marker needle) := by
  cases needle <;> unfold Marker <;> infer_instance

/-- No NUL and no occurrence of the needle. -/
structure Free (needle l : Bytes) : Prop where
  nul : 0 ∉ l
  absent : ¬ needle <:+: l

theorem Free.of_infix {needle l part : Bytes} (free : Free needle l) (inside : part <:+: l) : Free needle part :=
  ⟨fun member => free.nul (inside.subset member), fun found => free.absent (found.trans inside)⟩

theorem Free.of_head {c : UInt8} {t l : Bytes} (nul : 0 ∉ l) (head : c ∉ l) : Free (c :: t) l :=
  ⟨nul, fun found => head (found.subset (List.mem_cons_self))⟩

theorem prefix_of_prefix_append {t l r : Bytes} {c : UInt8}
    (inside : t <+: l ++ c :: r) (absent : c ∉ t) : t <+: l := by
  rcases List.prefix_or_prefix_of_prefix inside (List.prefix_append l (c :: r)) with short | ⟨u, rfl⟩
  · exact short
  · cases u with
    | nil => simp
    | cons d u =>
      have same : d :: u <+: c :: r := (List.prefix_append_right_inj l).mp inside
      rw [List.cons_prefix_cons] at same
      exact absurd (by simp [same.1]) absent

theorem infix_of_infix_append {t l r : Bytes} {c : UInt8} (inside : t <:+: l ++ c :: r) (absent : c ∉ t) :
    t <:+: l ∨ t <:+: r := by
  induction l with
  | nil =>
    rcases List.infix_cons_iff.mp inside with starts | later
    · exact .inl (@prefix_of_prefix_append t [] r c starts absent).isInfix
    · exact .inr later
  | cons d l ih =>
    rcases List.infix_cons_iff.mp inside with starts | later
    · exact .inl (@prefix_of_prefix_append t (d :: l) r c starts absent).isInfix
    · exact (ih later).imp List.infix_cons id

theorem not_prefix_of_free {needle l : Bytes} (marker : Marker needle) (free : Free needle l) (nonempty : l ≠ [])
    (q : Bytes) : ¬ needle <+: l ++ (needle ++ q) := by
  intro found
  cases needle with
  | nil => exact marker
  | cons c t =>
    cases l with
    | nil => exact nonempty rfl
    | cons a l =>
      rw [List.cons_append, List.cons_prefix_cons] at found
      have inside : t <+: l := prefix_of_prefix_append found.2 marker.1
      exact free.absent (List.IsPrefix.isInfix (List.cons_prefix_cons.mpr ⟨found.1, inside⟩))

/-- The first occurrence of a marker is where the text before it ends. -/
theorem strstr_free {needle l : Bytes} (marker : Marker needle) (free : Free needle l) (q : Bytes) :
    strstr needle (l ++ (needle ++ q)) = some l.length := by
  induction l with
  | nil =>
    cases needle with
    | nil => exact marker.elim
    | cons c t => simp [strstr]
  | cons a l ih =>
    have missing := not_prefix_of_free marker free (by simp) q
    have nonzero : a ≠ 0 := fun same => free.nul (by simp [same])
    rw [List.cons_append] at missing ⊢
    rw [strstr, if_neg missing, if_neg nonzero,
      ih (free.of_infix (List.infix_cons (List.infix_refl l)))]
    rfl

theorem strstr_nul {needle : Bytes} (absent : 0 ∉ needle) (s rest : Bytes) :
    strstr needle (s ++ 0 :: rest) = strstr needle s := by
  induction s with
  | nil =>
    have start : needle <+: 0 :: rest ↔ needle = [] := by
      constructor
      · intro found
        exact List.prefix_nil.mp (@prefix_of_prefix_append needle [] rest 0 found absent)
      · rintro rfl
        exact List.nil_prefix
    simp [strstr, start]
  | cons c s ih =>
    have start : needle <+: c :: (s ++ 0 :: rest) ↔ needle <+: c :: s :=
      ⟨fun found => @prefix_of_prefix_append needle (c :: s) rest 0 found absent,
        fun found => found.trans (List.prefix_append (c :: s) (0 :: rest))⟩
    rw [List.cons_append, strstr, strstr, ih]
    simp only [start]

/-- A text is cut at its first marker in one way only. -/
theorem Free.cut_unique {needle one two p q : Bytes} (marker : Marker needle) (free : Free needle one)
    (other : Free needle two) (same : one ++ (needle ++ p) = two ++ (needle ++ q)) : one = two ∧ p = q := by
  have first := strstr_free marker free p
  rw [same, strstr_free marker other q] at first
  obtain ⟨rfl, rest⟩ := List.append_inj same (Option.some.inj first).symm
  exact ⟨rfl, List.append_cancel_left rest⟩

theorem strstr_some {needle s : Bytes} {i : Nat} (nonempty : needle ≠ [])
    (found : strstr needle s = some i) : ∃ l q, s = l ++ (needle ++ q) ∧ l.length = i ∧ Free needle l := by
  induction s generalizing i with
  | nil => simp [strstr, nonempty] at found
  | cons c s ih =>
    rw [strstr] at found
    split at found
    next starts =>
      cases found
      obtain ⟨q, same⟩ := starts
      exact ⟨[], q, same.symm, rfl, by simp, by simpa using nonempty⟩
    next missing =>
      split at found
      · cases found
      next nonzero =>
        obtain ⟨j, later, rfl⟩ := Option.map_eq_some_iff.mp found
        obtain ⟨l, q, rfl, rfl, free⟩ := ih later
        refine ⟨c :: l, q, rfl, rfl, by simp [free.nul, Ne.symm nonzero], ?_⟩
        intro inside
        rcases List.infix_cons_iff.mp inside with starts | later
        · exact missing (starts.trans (List.cons_prefix_cons.mpr ⟨rfl, List.prefix_append l (needle ++ q)⟩))
        · exact free.absent later

theorem strstr_none {needle s : Bytes} (nonempty : needle ≠ []) :
    strstr needle s = none → ¬ needle <:+: cstr s := by
  induction s with
  | nil => intro _ found; exact nonempty (by simpa [cstr] using found)
  | cons c s ih =>
    intro missing found
    rw [strstr] at missing
    split at missing
    · cases missing
    next here =>
      split at missing
      next nul => exact nonempty (by simpa [cstr, nul] using found)
      next nonzero =>
        have whole : cstr (c :: s) = c :: cstr s := by simp [cstr, nonzero]
        rw [whole, List.infix_cons_iff] at found
        rcases found with starts | later
        · obtain ⟨rest, same, _⟩ := cstr_split s
          refine here (starts.trans ?_)
          rw [List.cons_prefix_cons]
          exact ⟨rfl, rest, same.symm⟩
        · exact ih (by simpa using missing) later

theorem memcmp_eq_iff {s t : Bytes} {n : Nat} (left : n ≤ s.length) (right : n ≤ t.length) :
    memcmp s t n = .eq ↔ s.take n = t.take n := by
  induction n generalizing s t with
  | zero => simp [memcmp]
  | succ n ih =>
    obtain ⟨a, s, rfl⟩ := List.exists_cons_of_length_pos (by omega : 0 < s.length)
    obtain ⟨b, t, rfl⟩ := List.exists_cons_of_length_pos (by omega : 0 < t.length)
    simp only [List.length_cons, Nat.add_le_add_iff_right] at left right
    rw [memcmp, Ordering.then_eq_eq, ih left right, List.take_succ_cons, List.take_succ_cons, List.cons.injEq,
      Std.LawfulEqCmp.compare_eq_iff_eq]

/-- Cut where the shorter list ends, the comparison cannot tell a list from its prefixes. -/
theorem memcmp_eq_compare {s t : Bytes} {n : Nat} (enough : min s.length t.length ≤ n) :
    memcmp s t n = if s <+: t ∨ t <+: s then .eq else compare s t := by
  induction s generalizing t n with
  | nil => simp [memcmp]
  | cons a s ih =>
    cases t with
    | nil => simp [memcmp]
    | cons b t =>
      obtain ⟨n, rfl⟩ : ∃ m, n = m + 1 := ⟨n - 1, by simp only [List.length_cons] at enough; omega⟩
      have rest : min s.length t.length ≤ n := by
        simp only [List.length_cons] at enough
        omega
      simp only [memcmp, ih rest, List.compare_cons_cons, List.cons_prefix_cons]
      by_cases same : a = b
      · subst same
        simp
      · have differ : compare a b ≠ .eq := fun equal => same (Std.LawfulEqCmp.compare_eq_iff_eq.mp equal)
        have apart : ¬ (a = b ∧ s <+: t ∨ b = a ∧ t <+: s) := by
          rintro (⟨equal, _⟩ | ⟨equal, _⟩)
          · exact same equal
          · exact same equal.symm
        rw [if_neg apart]
        cases first : compare a b with
        | eq => exact absurd first differ
        | lt => rfl
        | gt => rfl

theorem memcmp_lt_trans {s t u : Bytes} {n m k : Nat} (first : memcmp s t n = .lt) (second : memcmp t u m = .lt)
    (enough : min s.length u.length ≤ k) : memcmp s u k = .lt := by
  induction s generalizing t u n m k with
  | nil => cases first
  | cons a s ih =>
    cases t with
    | nil => cases first
    | cons b t =>
      cases u with
      | nil => cases second
      | cons c u =>
        cases n with
        | zero => cases first
        | succ n =>
          cases m with
          | zero => cases second
          | succ m =>
            obtain ⟨k, rfl⟩ : ∃ l, k = l + 1 := ⟨k - 1, by simp only [List.length_cons] at enough; omega⟩
            have rest : min s.length u.length ≤ k := by
              simp only [List.length_cons] at enough
              omega
            rw [memcmp, Ordering.then_eq_lt] at first second ⊢
            rcases first with first | ⟨first, behind⟩
            · left
              rcases second with second | ⟨second, _⟩
              · exact Std.TransCmp.lt_trans first second
              · exact Std.LawfulEqCmp.compare_eq_iff_eq.mp second ▸ first
            · have same := Std.LawfulEqCmp.compare_eq_iff_eq.mp first
              rcases second with second | ⟨second, after⟩
              · exact .inl (same ▸ second)
              · exact .inr ⟨same ▸ second, ih behind after rest⟩

theorem strcmp_eq_iff {s t : Bytes} : strcmp s t = .eq ↔ s = t := by
  induction s generalizing t with
  | nil => cases t <;> simp [strcmp]
  | cons a s ih =>
    cases t with
    | nil => simp [strcmp]
    | cons b t => simp [strcmp, Ordering.then_eq_eq, ih, Std.LawfulEqCmp.compare_eq_iff_eq]

theorem strcasecmp_eq_iff {s t : Bytes} :
    strcasecmp s t = .eq ↔ (cstr s).map tolower = (cstr t).map tolower := strcmp_eq_iff

theorem strcasecmp_comm {s t : Bytes} : strcasecmp s t = .eq ↔ strcasecmp t s = .eq := by
  rw [strcasecmp_eq_iff, strcasecmp_eq_iff, eq_comm]

/-- Equal to two texts, ignoring case, only if these are equal. -/
theorem strcasecmp_trans {s t u : Bytes} (one : strcasecmp s t = .eq) (two : strcasecmp s u = .eq) :
    strcasecmp t u = .eq := by
  rw [strcasecmp_eq_iff] at *
  exact one.symm.trans two

private theorem digit_toNat {d : Nat} (small : d < 10) :
    (d.digitChar.toNat.toUInt8).toNat = d + 48 := by
  interval_cases d <;> decide

private theorem digitsValue_append (s t : Bytes) :
    digitsValue (s ++ t) = t.foldl (fun n c => n * 10 + (c.toNat - 48)) (digitsValue s) := by
  rw [digitsValue, List.foldl_append, ← digitsValue]

theorem decimal_of_lt {n : Nat} (small : n < 10) : decimal n = [n.digitChar.toNat.toUInt8] := by
  rw [decimal, Nat.toDigits_of_lt_base small, List.map_singleton]

theorem decimal_of_le {n : Nat} (large : 10 ≤ n) :
    decimal n = decimal (n / 10) ++ [(n % 10).digitChar.toNat.toUInt8] := by
  rw [decimal, Nat.toDigits_of_base_le (by omega) large, List.map_append, List.map_singleton, ← decimal]

theorem digitsValue_decimal (n : Nat) : digitsValue (decimal n) = n := by
  induction n using Nat.strongRecOn with
  | ind n ih =>
    by_cases small : n < 10
    · rw [decimal_of_lt small, digitsValue, List.foldl_cons, List.foldl_nil, digit_toNat small]
      omega
    · rw [decimal_of_le (by omega), digitsValue_append, ih (n / 10) (by omega), List.foldl_cons, List.foldl_nil,
        digit_toNat (by omega)]
      omega

theorem isdigit_decimal (n : Nat) : ∀ c ∈ decimal n, isdigit c := by
  induction n using Nat.strongRecOn with
  | ind n ih =>
    have digit : ∀ d < 10, isdigit d.digitChar.toNat.toUInt8 := by
      intro d small
      interval_cases d <;> decide
    intro c member
    by_cases small : n < 10
    · rw [decimal_of_lt small, List.mem_singleton] at member
      exact member ▸ digit n small
    · rw [decimal_of_le (by omega), List.mem_append, List.mem_singleton] at member
      rcases member with earlier | rfl
      · exact ih (n / 10) (by omega) c earlier
      · exact digit (n % 10) (by omega)

theorem decimal_ne_nil (n : Nat) : decimal n ≠ [] := by
  simp [decimal, Nat.toDigits_ne_nil]

theorem strtoul_lt (s : Bytes) : strtoul s < 2 ^ 64 := by
  have max : ULONG_MAX = 2 ^ 64 - 1 := rfl
  simp only [strtoul]
  generalize digitsValue _ = value
  split
  · omega
  · split
    · exact Nat.lt_of_lt_of_le (Nat.mod_lt _ (by omega)) (by omega)
    · omega

private theorem decimal_start (n : Nat) :
    ∃ c rest, decimal n = c :: rest ∧ isspace c = false ∧ c ≠ 45 ∧ c ≠ 43 := by
  obtain ⟨c, rest, same⟩ := List.exists_cons_of_ne_nil (decimal_ne_nil n)
  have head : isdigit c := isdigit_decimal n c (by simp [same])
  have bounds : 48 ≤ c ∧ c ≤ 57 := by simpa [isdigit] using head
  refine ⟨c, rest, same, ?_, ?_, ?_⟩
  · simp only [isspace, decide_eq_false_iff_not]
    intro space
    have low : 48 ≤ c.toNat := bounds.1
    rcases space with rfl | ⟨_, high⟩
    · exact absurd low (by decide)
    · have : c.toNat ≤ 13 := high
      omega
  · rintro rfl
    exact absurd bounds.1 (by decide)
  · rintro rfl
    exact absurd bounds.1 (by decide)

theorem dropWhile_isspace_decimal (n : Nat) : (decimal n).dropWhile isspace = decimal n := by
  obtain ⟨c, rest, same, blank, _⟩ := decimal_start n
  rw [same, List.dropWhile_cons_of_neg (by simp [blank])]

theorem strtoul_decimal {n : Nat} (fits : n ≤ ULONG_MAX) : strtoul (decimal n) = n := by
  obtain ⟨c, rest, same, _, minus, plus⟩ := decimal_start n
  have whole : (decimal n).takeWhile isdigit = decimal n := List.takeWhile_eq_self_iff.mpr (isdigit_decimal n)
  have first : peek (decimal n) = c := by rw [same, peek_cons]
  simp only [strtoul, dropWhile_isspace_decimal, first, minus, plus, or_self, if_false, whole, digitsValue_decimal,
    if_neg (Nat.not_lt.mpr fits)]

theorem xdigit_lt {c : UInt8} {d : Nat} (digit : xdigit c = some d) : d < 16 := by
  unfold xdigit at digit
  split_ifs at digit with number upper lower <;> cases digit
  · have high : c.toNat ≤ 57 := number.2
    omega
  · have high : c.toNat ≤ 70 := upper.2
    omega
  · have high : c.toNat ≤ 102 := lower.2
    omega

theorem xdigit_range {c : UInt8} {d : Nat} (digit : xdigit c = some d) : 48 ≤ c.toNat ∧ c.toNat ≤ 102 := by
  unfold xdigit at digit
  split_ifs at digit with number upper lower
  · have low : 48 ≤ c.toNat := number.1
    have high : c.toNat ≤ 57 := number.2
    omega
  · have low : 65 ≤ c.toNat := upper.1
    have high : c.toNat ≤ 70 := upper.2
    omega
  · have low : 97 ≤ c.toNat := lower.1
    have high : c.toNat ≤ 102 := lower.2
    omega

theorem isspace_of_xdigit {c : UInt8} {d : Nat} (digit : xdigit c = some d) : isspace c = false := by
  have low := (xdigit_range digit).1
  simp only [isspace, decide_eq_false_iff_not, not_or, not_and]
  constructor
  · rintro rfl
    exact absurd low (by decide)
  · intro _ high
    have high : c.toNat ≤ 13 := high
    omega

theorem xdigitsValue_single_le (c : UInt8) : xdigitsValue [c] 0 ≤ 15 := by
  cases digit : xdigit c with
  | none => simp [xdigitsValue, digit]
  | some d =>
    have small := xdigit_lt digit
    simp only [xdigitsValue, digit]
    omega

theorem xdigitsValue_pair_le {a b : UInt8} (malformed : xdigit a = none ∨ xdigit b = none) :
    xdigitsValue [a, b] 0 ≤ 15 := by
  cases first : xdigit a with
  | none => simp [xdigitsValue, first]
  | some d =>
    have small := xdigit_lt first
    rcases malformed with none | none
    · rw [first] at none
      cases none
    · simp only [xdigitsValue, first, none]
      omega

/-- In front of two bytes at most there is no `0x` to skip. -/
theorem strtol16_short {s : Bytes} (short : s.length ≤ 2) :
    ¬ (peek s = 48 ∧ (peek s.tail = 120 ∨ peek s.tail = 88) ∧ (xdigit (peek s.tail.tail)).isSome) := by
  rintro ⟨_, _, digit⟩
  have none : s.tail.tail = [] := List.length_eq_zero_iff.mp (by simp only [List.length_tail]; omega)
  rw [none] at digit
  exact absurd digit (by decide)

theorem strtol16_pair {a b : UInt8} {x y : Nat} (first : xdigit a = some x) (second : xdigit b = some y) :
    strtol16 [a, b] = (16 * x + y : Nat) := by
  have low := (xdigit_range first).1
  have blank : [a, b].dropWhile isspace = [a, b] := List.dropWhile_cons_of_neg (by simp [isspace_of_xdigit first])
  have minus : a ≠ 45 := by
    rintro rfl
    exact absurd low (by decide)
  have plus : a ≠ 43 := by
    rintro rfl
    exact absurd low (by decide)
  have small := xdigit_lt first
  have less := xdigit_lt second
  have value : xdigitsValue [a, b] 0 = 16 * x + y := by
    simp only [xdigitsValue, first, second]
    omega
  have whole : [a, b].length ≤ 2 := Nat.le_refl 2
  have signed : ¬ (peek [a, b] = 45 ∨ peek [a, b] = 43) := by
    rw [peek_cons]
    exact not_or.mpr ⟨minus, plus⟩
  have negative : ¬ peek [a, b] = 45 := fun sign => signed (.inl sign)
  simp only [strtol16, blank, if_neg signed, if_neg negative, if_neg (strtol16_short whole), value, LONG_MAX]
  omega

theorem strtol16_malformed {a b : UInt8} (malformed : xdigit a = none ∨ xdigit b = none) :
    -15 ≤ strtol16 [a, b] ∧ strtol16 [a, b] ≤ 15 := by
  have tails : ∀ s : Bytes, (s = [a, b] ∨ s = [b] ∨ s = []) → s.length ≤ 2 ∧ xdigitsValue s 0 ≤ 15 := by
    rintro s (rfl | rfl | rfl)
    · exact ⟨Nat.le_refl 2, xdigitsValue_pair_le malformed⟩
    · exact ⟨Nat.le_succ 1, xdigitsValue_single_le b⟩
    · exact ⟨by decide, by decide⟩
  have behind : ∀ s : Bytes, (s = [a, b] ∨ s = [b] ∨ s = []) →
      (let t := if peek s = 45 ∨ peek s = 43 then s.tail else s; t = [a, b] ∨ t = [b] ∨ t = []) := by
    intro s split
    dsimp only
    split_ifs
    · rcases split with rfl | rfl | rfl <;> simp
    · exact split
  have blank : [a, b].dropWhile isspace = [a, b] ∨ [a, b].dropWhile isspace = [b] ∨ [a, b].dropWhile isspace = [] := by
    simp only [List.dropWhile]
    cases isspace a <;> cases isspace b <;> simp
  obtain ⟨short, small⟩ := tails _ (behind _ blank)
  simp only [strtol16, if_neg (strtol16_short short), LONG_MAX]
  split_ifs at small ⊢ <;> omega

end CStr
end LibWebserver
