import LibWebserver.Proofs.Strings

/-! How strings compare. The comparison stops where the shorter string ends, so that
a string and its prefixes count as equal: what is smaller is so lexicographically, but
two strings that are not told apart need not be the same. -/

namespace LibWebserver.CString
open CStr

variable {a b c : CString}

theorem Stored.length_lt (stored : Stored a a.content) : a.content.length < 2 ^ 64 := by
  have := stored.length
  have := stored.small
  omega

theorem compareTo_eq_memcmp (ha : Stored a a.content) (hb : Stored b b.content) :
    a.compareTo b = memcmp a.content b.content (min a.content.length b.content.length) := by
  have left := ha.length_lt
  have right := hb.length_lt
  have sum : addSize 0 b.length = b.content.length := by
    rw [addSize, hb.length]
    omega
  have difference : subSize a.content.length 0 = a.content.length := by
    rw [subSize]
    omega
  rw [compareTo, CString.compare, sum, difference, hb.length, List.drop_zero]
  split
  next le => rw [Nat.min_eq_right le]
  next lt => rw [Nat.min_eq_left (by omega)]

theorem compareTo_eq (ha : Stored a a.content) (hb : Stored b b.content) :
    a.compareTo b =
      if a.content <+: b.content ∨ b.content <+: a.content then .eq else Ord.compare a.content b.content := by
  rw [compareTo_eq_memcmp ha hb, memcmp_eq_compare (Nat.le_refl _)]

/-- Strings are not told apart when one is a prefix of the other. -/
theorem compareTo_eq_iff (ha : Stored a a.content) (hb : Stored b b.content) :
    a.compareTo b = .eq ↔ a.content <+: b.content ∨ b.content <+: a.content := by
  rw [compareTo_eq ha hb]
  split
  next related => exact iff_of_true rfl related
  next apart =>
    refine iff_of_false (fun equal => apart (.inl ?_)) apart
    rw [Std.LawfulEqOrd.eq_of_compare equal]

theorem compareTo_swap (ha : Stored a a.content) (hb : Stored b b.content) :
    a.compareTo b = (b.compareTo a).swap := by
  rw [compareTo_eq ha hb, compareTo_eq hb ha]
  by_cases related : a.content <+: b.content ∨ b.content <+: a.content
  · rw [if_pos related, if_pos related.symm]
    rfl
  · rw [if_neg related, if_neg fun other => related other.symm]
    exact Std.OrientedCmp.eq_swap

theorem less_iff : a.less b ↔ a.compareTo b = .lt := by simp [less]

theorem less_swap_iff (ha : Stored a a.content) (hb : Stored b b.content) : b.less a ↔ a.compareTo b = .gt := by
  rw [less_iff, compareTo_swap hb ha, Ordering.swap_eq_lt]

theorem less_irrefl (ha : Stored a a.content) : ¬ a.less a := by
  rw [less_iff, (compareTo_eq_iff ha ha).mpr (.inl (List.prefix_refl _))]
  decide

theorem less_trans (ha : Stored a a.content) (hb : Stored b b.content) (hc : Stored c c.content)
    (first : a.less b) (second : b.less c) : a.less c := by
  rw [less_iff, compareTo_eq_memcmp ha hb] at first
  rw [less_iff, compareTo_eq_memcmp hb hc] at second
  rw [less_iff, compareTo_eq_memcmp ha hc]
  exact memcmp_lt_trans first second (Nat.le_refl _)

theorem incomparable_iff (ha : Stored a a.content) (hb : Stored b b.content) :
    ¬ a.less b ∧ ¬ b.less a ↔ a.compareTo b = .eq := by
  rw [less_iff, less_swap_iff ha hb]
  cases a.compareTo b <;> decide

theorem equal_iff (ha : Stored a a.content) (hb : Stored b b.content) : a.equal b ↔ a.content = b.content := by
  have compared := compareTo_eq_iff ha hb
  rw [equal, ha.length, hb.length]
  split
  next lengths => exact iff_of_false Bool.false_ne_true fun same => lengths (congrArg List.length same)
  next lengths =>
    have lengths := Decidable.not_not.mp lengths
    rw [decide_eq_true_iff, compared]
    constructor
    · rintro (short | short)
      · exact short.eq_of_length lengths
      · exact (short.eq_of_length lengths.symm).symm
    · intro same
      exact .inl (same ▸ List.prefix_refl _)

/-- `Equals` does not ask where the string ends. -/
theorem equals_iff (ha : Stored a a.content) {str : Bytes} (sized : str.length < 2 ^ 64) :
    a.equals str ↔ str <+: a.content := by
  have sum : addSize 0 str.length = str.length := by
    rw [addSize]
    omega
  rw [equals, ha.length]
  split
  next short => exact iff_of_false Bool.false_ne_true fun within => absurd within.length_le (by omega)
  next enough =>
    rw [decide_eq_true_iff, CString.compare, sum, if_pos (by omega), List.drop_zero,
      memcmp_eq_iff (by omega) (Nat.le_refl _), List.take_length, eq_comm]
    exact List.prefix_iff_eq_take.symm

/-- The strings are ordered by their bytes, a proper prefix first, and `str` equals
those it is the content of. -/
structure Ordered (strings : Set CString) (str : Bytes) : Prop where
  sign : ∀ a ∈ strings, ∀ b ∈ strings, a.compareTo b = Ord.compare a.content b.content
  irrefl : ∀ a ∈ strings, ¬ a.less a
  trans : ∀ a ∈ strings, ∀ b ∈ strings, ∀ c ∈ strings, a.less b → b.less c → a.less c
  total : ∀ a ∈ strings, ∀ b ∈ strings, a.less b ∨ a.content = b.content ∨ b.less a
  incomparable : ∀ a ∈ strings, ∀ b ∈ strings, ∀ c ∈ strings,
    ¬ a.less b ∧ ¬ b.less a → ¬ b.less c ∧ ¬ c.less b → ¬ a.less c ∧ ¬ c.less a
  equal : ∀ a ∈ strings, ∀ b ∈ strings, a.equal b ↔ ¬ a.less b ∧ ¬ b.less a
  equals : ∀ a ∈ strings, a.equals str ↔ a.content = str

/-- Strings are ordered unless one is a proper prefix of another, and `str` of none. -/
theorem ordered_iff (strings : Set CString) (str : Bytes) (stored : ∀ s ∈ strings, Stored s s.content)
    (sized : str.length < 2 ^ 64) :
    Ordered strings str ↔
      (∀ a ∈ strings, ∀ b ∈ strings, a.content <+: b.content → a.content = b.content) ∧
      ∀ a ∈ strings, str <+: a.content → str = a.content := by
  constructor
  · intro ordered
    refine ⟨fun a ma b mb within => ?_, fun a ma within => ?_⟩
    · have same := (compareTo_eq_iff (stored a ma) (stored b mb)).mpr (.inl within)
      rw [ordered.sign a ma b mb] at same
      exact Std.LawfulEqOrd.eq_of_compare same
    · exact ((ordered.equals a ma).mp ((equals_iff (stored a ma) sized).mpr within)).symm
  · rintro ⟨separate, apart⟩
    have same : ∀ a ∈ strings, ∀ b ∈ strings, a.compareTo b = .eq → a.content = b.content := by
      intro a ma b mb equal
      rcases (compareTo_eq_iff (stored a ma) (stored b mb)).mp equal with within | within
      · exact separate a ma b mb within
      · exact (separate b mb a ma within).symm
    have told : ∀ a ∈ strings, ∀ b ∈ strings, a.content = b.content → a.compareTo b = .eq := by
      intro a ma b mb equal
      exact (compareTo_eq_iff (stored a ma) (stored b mb)).mpr (.inl (equal ▸ List.prefix_refl _))
    constructor
    · intro a ma b mb
      rw [compareTo_eq (stored a ma) (stored b mb)]
      split
      next related =>
        have equal := same a ma b mb ((compareTo_eq_iff (stored a ma) (stored b mb)).mpr related)
        rw [equal, Std.ReflOrd.compare_self]
      next => rfl
    · exact fun a ma => less_irrefl (stored a ma)
    · exact fun a ma b mb c mc => less_trans (stored a ma) (stored b mb) (stored c mc)
    · intro a ma b mb
      rw [less_iff, less_swap_iff (stored a ma) (stored b mb)]
      cases compared : a.compareTo b with
      | lt => exact .inl rfl
      | eq => exact .inr (.inl (same a ma b mb compared))
      | gt => exact .inr (.inr rfl)
    · intro a ma b mb c mc first second
      rw [incomparable_iff (stored a ma) (stored b mb)] at first
      rw [incomparable_iff (stored b mb) (stored c mc)] at second
      rw [incomparable_iff (stored a ma) (stored c mc)]
      exact told a ma c mc ((same a ma b mb first).trans (same b mb c mc second))
    · intro a ma b mb
      rw [equal_iff (stored a ma) (stored b mb), incomparable_iff (stored a ma) (stored b mb)]
      exact ⟨told a ma b mb, same a ma b mb⟩
    · intro a ma
      rw [equals_iff (stored a ma) sized]
      exact ⟨fun within => (apart a ma within).symm, fun content => content ▸ List.prefix_refl _⟩

theorem ordered_iff_letters :
    Ordered {⟨[97, 0], 1, 0⟩, ⟨[98, 0], 1, 0⟩} [98, 98] ↔
      (∀ a ∈ ({⟨[97, 0], 1, 0⟩, ⟨[98, 0], 1, 0⟩} : Set CString),
        ∀ b ∈ ({⟨[97, 0], 1, 0⟩, ⟨[98, 0], 1, 0⟩} : Set CString), a.content <+: b.content → a.content = b.content) ∧
      ∀ a ∈ ({⟨[97, 0], 1, 0⟩, ⟨[98, 0], 1, 0⟩} : Set CString), [98, 98] <+: a.content → [98, 98] = a.content :=
  ordered_iff {⟨[97, 0], 1, 0⟩, ⟨[98, 0], 1, 0⟩} [98, 98]
    (by rintro s (rfl | rfl) <;> exact ⟨.inl (by decide), by decide, rfl⟩) (by decide)

/-- `ab` and `ac` are both equal to `a`, and one is less than the other. -/
theorem prefix_not_ordered :
    ¬ ∀ (strings : Set CString) (str : Bytes), (∀ s ∈ strings, Stored s s.content) → str.length < 2 ^ 64 →
      Ordered strings str := by
  intro always
  have ordered := always {⟨[97, 98, 0], 2, 0⟩, ⟨[97, 0], 1, 0⟩, ⟨[97, 99, 0], 2, 0⟩} []
    (by rintro s (rfl | rfl | rfl) <;> exact ⟨.inl (by decide), by decide, rfl⟩) (by decide)
  have transitive := ordered.incomparable _ (.inl rfl) _ (.inr (.inl rfl)) _ (.inr (.inr rfl))
    (by decide +kernel) (by decide +kernel)
  exact transitive.1 (by decide +kernel)

end LibWebserver.CString
