import LibWebserver.StringCopy
import LibWebserver.Proofs.Numerals

/-! `strlcpy` and `strlcat` fill a block with as much as fits, end it with a NUL, leave the
rest of the block alone and tell by what they return whether anything is missing. -/

namespace LibWebserver.StringCopy
open Conversions CStr

variable {fuel : Nat}

theorem skip_loop {before text behind : Bytes} (plain : 0 ∉ text) (enough : text.length < fuel) :
    loop (skipStep (before ++ (text ++ 0 :: behind))) fuel before.length = .ok (before.length + text.length + 1) := by
  induction text generalizing before fuel with
  | nil =>
    obtain ⟨fuel, rfl⟩ := Nat.exists_eq_add_of_lt enough
    refine loop_exit ?_ _
    simp only [skipStep, List.nil_append, read_at]
    rfl
  | cons c text ih =>
    obtain ⟨other, rest⟩ : c ≠ 0 ∧ 0 ∉ text := by simpa [eq_comm] using plain
    obtain ⟨fuel, rfl⟩ : ∃ less, fuel = less + 1 := ⟨fuel - 1, by omega⟩
    have moves : skipStep (before ++ (c :: text ++ 0 :: behind)) before.length = .ok (.next (before.length + 1)) := by
      simp only [skipStep, List.cons_append, read_at, ok_bind, if_pos other]
      rfl
    have later := @ih fuel (before ++ [c]) rest (by simpa using enough)
    rw [loop_next moves]
    simpa [Nat.add_assoc, Nat.add_comm, Nat.add_left_comm] using later

theorem copy_loop {before text behind done tail : Bytes} {n : Nat} (plain : 0 ∉ text) (some : 0 < n) (room : n ≤ tail.length)
    (enough : text.length < fuel) :
    loop (copyStep (before ++ (text ++ 0 :: behind))) fuel ⟨done ++ tail, done.length, before.length, n⟩ =
      .ok (if text.length < n then
          ⟨done ++ (text ++ 0 :: tail.drop (text.length + 1)), done.length + text.length + 1, before.length + text.length + 1,
            n - text.length⟩
        else ⟨done ++ (text.take n ++ tail.drop n), done.length + n, before.length + n, 0⟩) := by
  induction text generalizing before done tail n fuel with
  | nil =>
    obtain ⟨fuel, rfl⟩ := Nat.exists_eq_add_of_lt enough
    cases tail with
    | nil => exact absurd some (Nat.not_lt.mpr room)
    | cons t tail =>
      rw [if_pos (show ([] : Bytes).length < n from some)]
      refine loop_exit ?_ _
      simp only [copyStep, List.nil_append, read_at, ok_bind, write_at]
      rfl
  | cons c text ih =>
    obtain ⟨other, rest⟩ : c ≠ 0 ∧ 0 ∉ text := by simpa [eq_comm] using plain
    obtain ⟨fuel, rfl⟩ : ∃ less, fuel = less + 1 := ⟨fuel - 1, by omega⟩
    cases tail with
    | nil => exact absurd some (Nat.not_lt.mpr room)
    | cons t tail =>
      have pass : copyStep (before ++ (c :: text ++ 0 :: behind)) ⟨done ++ t :: tail, done.length, before.length, n⟩ =
          .ok (if n - 1 ≠ 0 then .next ⟨done ++ c :: tail, done.length + 1, before.length + 1, n - 1⟩
            else .exit ⟨done ++ c :: tail, done.length + 1, before.length + 1, n - 1⟩) := by
        simp only [copyStep, List.cons_append, read_at, ok_bind, write_at, if_neg other]
        rfl
      by_cases last : n - 1 = 0
      · obtain rfl : n = 1 := by omega
        rw [if_neg (by simp)]
        refine (loop_exit ?_ _)
        rw [pass, if_neg (by simp)]
        simp
      · rw [if_pos last] at pass
        have later := @ih fuel (before ++ [c]) (done ++ [c]) tail (n - 1) rest (by omega) (by simp at room; omega)
          (by simpa using enough)
        have blocks : before ++ [c] ++ (text ++ 0 :: behind) = before ++ (c :: text ++ 0 :: behind) := by simp
        have tails : done ++ [c] ++ tail = done ++ c :: tail := by simp
        rw [blocks, tails, List.length_append, List.length_append] at later
        refine (loop_next pass fuel).trans (later.trans (congrArg _ ?_))
        obtain ⟨m, rfl⟩ : ∃ m, n = m + 1 := ⟨n - 1, by omega⟩
        by_cases fits : text.length < m
        · rw [if_pos (show text.length < m + 1 - 1 from fits), if_pos (show (c :: text).length < m + 1 from Nat.succ_lt_succ fits)]
          simp
          omega
        · rw [if_neg (show ¬ text.length < m + 1 - 1 from fits),
            if_neg (show ¬ (c :: text).length < m + 1 from fun less => fits (Nat.lt_of_succ_lt_succ less))]
          simp
          omega

/-- A block of which a size holds as much of a text as fits. -/
def filled (dst : Bytes) (siz : Nat) (text : Bytes) : Bytes :=
  if siz = 0 then dst else text.take (siz - 1) ++ 0 :: dst.drop (min (siz - 1) text.length + 1)

theorem strlcpy_eq {dst text behind : Bytes} {siz : Nat} (plain : 0 ∉ text) (room : siz ≤ dst.length)
    (enough : text.length < fuel) :
    strlcpy fuel dst (text ++ 0 :: behind) siz = .ok (filled dst siz text, text.length) := by
  have skipped := @skip_loop fuel [] text behind plain enough
  rw [List.nil_append, List.length_nil, Nat.zero_add] at skipped
  by_cases small : siz - 1 = 0
  · cases siz with
    | zero => simp [strlcpy, skipped, filled]
    | succ n =>
      obtain rfl : n = 0 := small
      have first : write dst 0 0 = .ok (0 :: dst.drop 1) := by
        cases dst with
        | nil => exact absurd room (by simp)
        | cons t tail => exact write_at [] tail t 0
      simp [strlcpy, skipped, filled, first]
  · have copied := @copy_loop fuel [] text behind [] dst (siz - 1) plain (by omega) (by omega) enough
    simp only [List.nil_append, List.length_nil, Nat.zero_add] at copied
    by_cases fits : text.length < siz - 1
    · rw [if_pos fits] at copied
      have whole : text.take (siz - 1) = text := List.take_of_length_le fits.le
      have left : siz - 1 - text.length ≠ 0 := by omega
      simp only [strlcpy, if_pos small, copied, ok_bind, if_neg left, filled, if_neg (show siz ≠ 0 by omega), whole,
        Nat.min_eq_right fits.le, Nat.add_sub_cancel]
      rfl
    · rw [if_neg fits] at copied
      have long : siz - 1 ≤ text.length := Nat.not_lt.mp fits
      have inside : siz - 1 < dst.length := by omega
      have rest : dst.drop (siz - 1) = dst[siz - 1] :: dst.drop (siz - 1 + 1) := List.drop_eq_getElem_cons inside
      have ended := write_at (text.take (siz - 1)) (dst.drop (siz - 1 + 1)) dst[siz - 1] 0
      rw [← rest, List.length_take, Nat.min_eq_left long] at ended
      have passed := @skip_loop fuel (text.take (siz - 1)) (text.drop (siz - 1)) behind
        (fun member => plain (List.mem_of_mem_drop member)) (by rw [List.length_drop]; omega)
      rw [← List.append_assoc, List.take_append_drop, List.length_take, Nat.min_eq_left long, List.length_drop] at passed
      simp only [strlcpy, if_pos small, copied, ok_bind, if_pos, if_pos (show siz ≠ 0 by omega), ended, passed, filled,
        if_neg (show siz ≠ 0 by omega), Nat.min_eq_left long]
      refine congrArg (fun length => Except.ok (_, length)) ?_
      omega

theorem end_loop {before held tail : Bytes} {n : Nat} (plain : 0 ∉ held) (stops : n ≤ held.length ∨ ∃ rest, tail = 0 :: rest)
    (enough : held.length < fuel) :
    loop (endStep (before ++ (held ++ tail))) fuel (before.length, n) = .ok (before.length + min n held.length) := by
  induction held generalizing before n fuel with
  | nil =>
    obtain ⟨fuel, rfl⟩ := Nat.exists_eq_add_of_lt enough
    refine loop_exit ?_ _
    rw [List.length_nil, Nat.min_zero]
    by_cases none : n = 0
    · simp only [endStep, if_pos none]
      rfl
    · obtain ⟨rest, rfl⟩ := stops.resolve_left (by simpa using none)
      simp only [endStep, if_neg none, List.nil_append, read_at, ok_bind]
      rfl
  | cons c held ih =>
    obtain ⟨other, rest⟩ : c ≠ 0 ∧ 0 ∉ held := by simpa [eq_comm] using plain
    obtain ⟨fuel, rfl⟩ : ∃ less, fuel = less + 1 := ⟨fuel - 1, by omega⟩
    by_cases none : n = 0
    · subst none
      refine loop_exit ?_ _
      simp only [endStep]
      simp
      rfl
    · have moves : endStep (before ++ (c :: held ++ tail)) (before.length, n) = .ok (.next (before.length + 1, n - 1)) := by
        simp only [endStep, if_neg none, List.cons_append, read_at, ok_bind, if_pos other]
        rfl
      have later := @ih fuel (before ++ [c]) (n - 1) rest (stops.imp_left fun le => by simp at le; omega) (by simpa using enough)
      have blocks : before ++ [c] ++ (held ++ tail) = before ++ (c :: held ++ tail) := by simp
      rw [blocks, List.length_append] at later
      refine (loop_next moves fuel).trans (later.trans (congrArg _ ?_))
      simp
      omega

/-- Where the appending loop stops: at the NUL of the source, with room for one more. -/
theorem append_loop {before text behind done tail : Bytes} {n : Nat} (plain : 0 ∉ text) (some : 0 < n) (room : n ≤ tail.length)
    (enough : text.length < fuel) :
    loop (appendStep (before ++ (text ++ 0 :: behind))) fuel ⟨done ++ tail, done.length, before.length, n⟩ =
      .ok ⟨done ++ (text.take (n - 1) ++ tail.drop (min (n - 1) text.length)), done.length + min (n - 1) text.length,
        before.length + text.length, n - min (n - 1) text.length⟩ := by
  induction text generalizing before done tail n fuel with
  | nil =>
    obtain ⟨fuel, rfl⟩ := Nat.exists_eq_add_of_lt enough
    refine loop_exit ?_ _
    simp only [appendStep, List.nil_append, read_at, ok_bind]
    simp
    rfl
  | cons c text ih =>
    obtain ⟨other, rest⟩ : c ≠ 0 ∧ 0 ∉ text := by simpa [eq_comm] using plain
    obtain ⟨fuel, rfl⟩ : ∃ less, fuel = less + 1 := ⟨fuel - 1, by omega⟩
    have blocks : before ++ [c] ++ (text ++ 0 :: behind) = before ++ (c :: text ++ 0 :: behind) := by simp
    by_cases last : n = 1
    · subst last
      have moves : appendStep (before ++ (c :: text ++ 0 :: behind)) ⟨done ++ tail, done.length, before.length, 1⟩ =
          .ok (.next ⟨done ++ tail, done.length, before.length + 1, 1⟩) := by
        simp only [appendStep, List.cons_append, read_at, ok_bind, if_neg other]
        rfl
      have later := @ih fuel (before ++ [c]) done tail 1 rest some room (by simpa using enough)
      rw [blocks, List.length_append] at later
      refine (loop_next moves fuel).trans (later.trans (congrArg _ ?_))
      simp
      omega
    · cases tail with
      | nil => exact absurd some (Nat.not_lt.mpr room)
      | cons t tail =>
        have moves : appendStep (before ++ (c :: text ++ 0 :: behind)) ⟨done ++ t :: tail, done.length, before.length, n⟩ =
            .ok (.next ⟨done ++ c :: tail, done.length + 1, before.length + 1, n - 1⟩) := by
          simp only [appendStep, List.cons_append, read_at, ok_bind, if_neg other, if_pos (show n ≠ 1 from last), write_at]
          rfl
        have later := @ih fuel (before ++ [c]) (done ++ [c]) tail (n - 1) rest (by omega) (by simp at room; omega)
          (by simpa using enough)
        have tails : done ++ [c] ++ tail = done ++ c :: tail := by simp
        rw [blocks, tails, List.length_append, List.length_append] at later
        refine (loop_next moves fuel).trans (later.trans (congrArg _ ?_))
        obtain ⟨m, rfl⟩ : ∃ m, n = m + 2 := ⟨n - 2, by omega⟩
        simp
        omega

theorem strlcat_filled {dst all text behind : Bytes} {siz : Nat} (held : 0 ∉ all) (plain : 0 ∉ text) (room : siz ≤ dst.length)
    (enough : text.length < fuel) (passes : siz < fuel) :
    strlcat fuel (filled dst siz all) (text ++ 0 :: behind) siz =
      .ok (filled dst siz (all ++ text), min (siz - 1) all.length + text.length) := by
  by_cases none : siz = 0
  · subst none
    have skipped := @skip_loop fuel [] text behind plain enough
    have ended := @end_loop fuel [] [] dst 0 List.not_mem_nil (.inl (Nat.zero_le _)) (by simpa using passes)
    simp only [List.nil_append, List.length_nil, Nat.zero_add, Nat.min_zero] at skipped ended
    simp [strlcat, filled, ended, skipped]
  · have start : 0 ∉ all.take (siz - 1) := fun member => held (List.mem_of_mem_take member)
    have stored : (all.take (siz - 1)).length = min (siz - 1) all.length := List.length_take
    have ended := @end_loop fuel [] (all.take (siz - 1)) (0 :: dst.drop (min (siz - 1) all.length + 1)) siz start
      (.inr ⟨_, rfl⟩) (by omega)
    have short : min siz (min (siz - 1) all.length) = min (siz - 1) all.length := by omega
    simp only [List.nil_append, List.length_nil, Nat.zero_add, stored, short] at ended
    have some : 0 < siz - min (siz - 1) all.length := by omega
    have appended := @append_loop fuel [] text behind (all.take (siz - 1)) (0 :: dst.drop (min (siz - 1) all.length + 1))
      (siz - min (siz - 1) all.length) plain some (by simp; omega) enough
    simp only [List.nil_append, List.length_nil, Nat.zero_add, stored] at appended
    have inside : min (siz - min (siz - 1) all.length - 1) text.length <
        (0 :: dst.drop (min (siz - 1) all.length + 1)).length := by
      simp
      omega
    obtain ⟨last, cut⟩ : ∃ last, (0 :: dst.drop (min (siz - 1) all.length + 1)).drop
        (min (siz - min (siz - 1) all.length - 1) text.length) = last ::
          (0 :: dst.drop (min (siz - 1) all.length + 1)).drop (min (siz - min (siz - 1) all.length - 1) text.length + 1) :=
      ⟨_, List.drop_eq_getElem_cons inside⟩
    have closed := write_at (all.take (siz - 1) ++ text.take (siz - min (siz - 1) all.length - 1))
      ((0 :: dst.drop (min (siz - 1) all.length + 1)).drop (min (siz - min (siz - 1) all.length - 1) text.length + 1)) last 0
    rw [List.append_assoc, ← cut, List.length_append, List.length_take, List.length_take] at closed
    have ends : loop (endStep (filled dst siz all)) fuel (0, siz) = .ok (min (siz - 1) all.length) := by
      rw [filled, if_neg none]
      exact ended
    rw [← show filled dst siz all = _ from if_neg none] at appended
    simp only [strlcat, ends, ok_bind, if_neg some.ne', appended, closed]
    refine congrArg (fun block => Except.ok (block, _)) ?_
    rw [filled, if_neg none, List.take_append, List.append_assoc, List.drop_succ_cons, List.drop_drop]
    have shares : siz - min (siz - 1) all.length - 1 = siz - 1 - all.length := by omega
    have reaches : min (siz - 1) all.length + 1 + min (siz - 1 - all.length) text.length =
        min (siz - 1) (all ++ text).length + 1 := by
      rw [List.length_append]
      omega
    rw [shares, reaches, List.append_assoc]

/-- A string in the block it is read from. -/
structure Source where
  text : Bytes
  behind : Bytes
  plain : 0 ∉ text

def Source.block (self : Source) : Bytes := self.text ++ 0 :: self.behind

/-- The string that is to be made. -/
def texts (first : Source) (rest : List Source) : Bytes := first.text ++ rest.flatMap Source.text

/-- Appending keeps what there is, and a call returns the size at least when it is reached. -/
theorem append_all {dst all : Bytes} {siz : Nat} {returned : List Nat} (rest : List Source) (held : 0 ∉ all)
    (room : siz ≤ dst.length) (enough : (all ++ rest.flatMap Source.text).length + siz < fuel)
    (told : (∃ r ∈ returned, siz ≤ r) ↔ siz ≤ all.length) :
    ∃ more, (rest.map Source.block).foldlM (appendNext fuel siz) (filled dst siz all, returned) =
        .ok (filled dst siz (all ++ rest.flatMap Source.text), more) ∧
      ((∃ r ∈ more, siz ≤ r) ↔ siz ≤ (all ++ rest.flatMap Source.text).length) := by
  induction rest generalizing all returned with
  | nil => exact ⟨returned, by simp; rfl, by simpa using told⟩
  | cons source rest ih =>
    rw [List.flatMap_cons, ← List.append_assoc] at enough ⊢
    have longer : all.length + source.text.length ≤ (all ++ source.text ++ rest.flatMap Source.text).length := by simp
    have appended := @strlcat_filled fuel dst all source.text source.behind siz held source.plain room (by omega) (by omega)
    have tells : (∃ r ∈ returned ++ [min (siz - 1) all.length + source.text.length], siz ≤ r) ↔
        siz ≤ (all ++ source.text).length := by
      rw [List.length_append]
      constructor
      · rintro ⟨r, member, le⟩
        cases List.mem_append.mp member with
        | inl earlier => have := told.mp ⟨r, earlier, le⟩; omega
        | inr last => have := List.mem_singleton.mp last; omega
      · intro le
        by_cases reached : siz ≤ all.length
        · obtain ⟨r, earlier, least⟩ := told.mpr reached
          exact ⟨r, List.mem_append_left _ earlier, least⟩
        · exact ⟨_, List.mem_append_right _ (List.mem_singleton_self _), by omega⟩
    obtain ⟨more, run, tell⟩ := ih (by simp [held, source.plain]) enough tells
    refine ⟨more, ?_, tell⟩
    have called : appendNext fuel siz (filled dst siz all, returned) source.block =
        .ok (filled dst siz (all ++ source.text), returned ++ [min (siz - 1) all.length + source.text.length]) := by
      simp only [appendNext, Source.block, appended, ok_bind]
      rfl
    rw [List.map_cons, List.foldlM_cons, called]
    exact run

@[simp] theorem filled_length {dst text : Bytes} {siz : Nat} (room : siz ≤ dst.length) :
    (filled dst siz text).length = dst.length := by
  by_cases none : siz = 0
  · rw [filled, if_pos none]
  · rw [filled, if_neg none]
    simp
    omega

theorem filled_drop (dst text : Bytes) (siz : Nat) :
    (filled dst siz text).drop siz = dst.drop siz := by
  by_cases none : siz = 0
  · rw [filled, if_pos none]
  · rw [filled, if_neg none]
    have copied : (text.take (siz - 1)).length ≤ siz := by
      rw [List.length_take]
      omega
    have past : siz - (text.take (siz - 1)).length = siz - min (siz - 1) text.length - 1 + 1 := by
      rw [List.length_take]
      omega
    rw [List.drop_append, List.drop_of_length_le copied, past, List.drop_succ_cons, List.drop_drop, List.nil_append]
    refine congrArg (dst.drop ·) ?_
    omega

theorem cstr_filled {dst text : Bytes} {siz : Nat} (plain : 0 ∉ text) (some : siz ≠ 0) :
    cstr (filled dst siz text) = text.take (siz - 1) := by
  rw [filled, if_neg some, cstr_nul, cstr_of_not_mem fun member => plain (List.mem_of_mem_take member)]

/-- Whatever strings are put together in a block, none of the calls leaves the blocks; the
block holds as much as fits with a NUL, is as it was behind the size, and one of the calls
returns the size or more exactly if something is missing. -/
theorem fill_truncates (dst : Bytes) (siz : Nat) (first : Source) (rest : List Source) (room : siz ≤ dst.length)
    (enough : (texts first rest).length + siz < fuel) :
    ∃ block returned, fill fuel dst siz first.block (rest.map Source.block) = .ok (block, returned) ∧
      (siz ≠ 0 → cstr block = (texts first rest).take (siz - 1)) ∧
      block.length = dst.length ∧ block.drop siz = dst.drop siz ∧
      ((∃ r ∈ returned, siz ≤ r) ↔ siz ≤ (texts first rest).length) := by
  have longer : first.text.length ≤ (texts first rest).length := by simp [texts]
  have copied := @strlcpy_eq fuel dst first.text first.behind siz first.plain room (by omega)
  obtain ⟨returned, run, tells⟩ := @append_all fuel dst first.text siz [first.text.length] rest first.plain room enough (by simp)
  have clean : 0 ∉ texts first rest := by
    intro member
    cases List.mem_append.mp member with
    | inl inside => exact first.plain inside
    | inr inside =>
      obtain ⟨source, -, inside⟩ := List.mem_flatMap.mp inside
      exact source.plain inside
  refine ⟨_, returned, ?_, cstr_filled clean, filled_length room, filled_drop _ _ _, tells⟩
  rw [fill, Source.block, copied]
  exact run

/-- Three strings, of which the last does not fit. -/
theorem fill_truncates_three :
    ∃ block returned, fill 20 (List.replicate 8 170) 6 [97, 98, 0] [[99, 0, 99], [100, 101, 102, 0]] = .ok (block, returned) ∧
      ((6 : Nat) ≠ 0 → cstr block = [97, 98, 99, 100, 101]) ∧ block.length = 8 ∧ block.drop 6 = [170, 170] ∧
      ((∃ r ∈ returned, 6 ≤ r) ↔ 6 ≤ 6) :=
  fill_truncates (List.replicate 8 170) 6 ⟨[97, 98], [], by decide⟩ [⟨[99], [99], by decide⟩, ⟨[100, 101, 102], [], by decide⟩]
    (by decide) (by decide)

end LibWebserver.StringCopy
