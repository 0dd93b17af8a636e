import LibWebserver.StringHelpers
import Mathlib.Data.List.TakeWhile

/-! The tokens of a string. With a `find` that tells members of the set from other
characters they are the runs between delimiters; the one of the traits that ignore case
finds every character, and no token is left. -/

namespace LibWebserver.StringHelpers
open CStr

/-- The maximal runs of characters that are no delimiters, in order. -/
def runs (delimiter : UInt8 → Bool) (str : Bytes) : List Bytes := (str.splitOnP delimiter).filter (· ≠ [])

variable {delimiter : UInt8 → Bool}

theorem runs_delimiters {sep : Bytes} (all : ∀ c ∈ sep, delimiter c) (str : Bytes) :
    runs delimiter (sep ++ str) = runs delimiter str := by
  induction sep with
  | nil => rfl
  | cons c sep ih =>
    have rest := ih fun d member => all d (List.mem_cons_of_mem c member)
    rw [runs, List.cons_append, List.splitOnP_cons_eq_if_modifyHead, if_pos (all c List.mem_cons_self),
      List.filter_cons_of_neg (by simp)]
    exact rest

theorem runs_run {run : Bytes} (some : run ≠ []) (none : ∀ c ∈ run, delimiter c = false) {c : UInt8} (ends : delimiter c)
    (rest : Bytes) : runs delimiter (run ++ c :: rest) = run :: runs delimiter (c :: rest) := by
  have single : runs delimiter (c :: rest) = runs delimiter rest :=
    @runs_delimiters delimiter [c] (by simpa using ends) rest
  rw [single, runs, List.splitOnP_append_cons _ _ ends, List.splitOnP_eq_singleton none, List.singleton_append,
    List.filter_cons_of_pos (by simpa using some)]
  rfl

theorem runs_last {run : Bytes} (some : run ≠ []) (none : ∀ c ∈ run, delimiter c = false) : runs delimiter run = [run] := by
  rw [runs, List.splitOnP_eq_singleton none, List.filter_cons_of_pos (by simpa using some), List.filter_nil]

theorem takeWhile_dropWhile_ne_nil (test : UInt8 → Bool) {str : Bytes} (some : str.dropWhile test ≠ []) :
    (str.dropWhile test).takeWhile (fun c => !test c) ≠ [] := by
  have head := @List.head?_dropWhile_not UInt8 test str
  cases same : str.dropWhile test with
  | nil => exact absurd same some
  | cons c rest =>
    rw [same] at head
    have first : test c = false := by simpa using head
    simp [first]

/-- The first run is behind the delimiters in front, up to the next delimiter. -/
theorem runs_eq (str : Bytes) :
    runs delimiter str =
      if str.dropWhile delimiter = [] then []
      else (str.dropWhile delimiter).takeWhile (fun c => !delimiter c) ::
        runs delimiter ((str.dropWhile delimiter).dropWhile fun c => !delimiter c) := by
  have front : ∀ c ∈ str.takeWhile delimiter, delimiter c := fun c member => List.mem_takeWhile_imp member
  have behind : runs delimiter str = runs delimiter (str.dropWhile delimiter) := by
    conv_lhs => rw [← @List.takeWhile_append_dropWhile UInt8 delimiter str]
    exact runs_delimiters front _
  rw [behind]
  by_cases empty : str.dropWhile delimiter = []
  · rw [if_pos empty, empty]
    rfl
  · have some := takeWhile_dropWhile_ne_nil delimiter empty
    rw [if_neg empty]
    generalize str.dropWhile delimiter = t at some
    have none : ∀ d ∈ t.takeWhile (fun c => !delimiter c), delimiter d = false := by
      intro d member
      simpa using List.mem_takeWhile_imp member
    have whole := @List.takeWhile_append_dropWhile UInt8 (fun c => !delimiter c) t
    generalize rest : t.dropWhile (fun c => !delimiter c) = r at whole
    cases r with
    | nil =>
      rw [List.append_nil] at whole
      rw [whole] at some none ⊢
      exact runs_last some none
    | cons d r =>
      have ends : delimiter d := by
        have head := @List.head?_dropWhile_not UInt8 (fun c => !delimiter c) t
        rw [rest] at head
        simpa using head
      conv_lhs => rw [← whole]
      exact runs_run some none ends r

theorem runs_eq_nil_iff (str : Bytes) : runs delimiter str = [] ↔ ∀ c ∈ str, delimiter c := by
  rw [runs_eq, ← List.dropWhile_eq_nil_iff]
  split
  next none => exact iff_of_true rfl none
  next some => exact iff_of_false (List.cons_ne_nil _ _) some

theorem take_length_takeWhile (test : UInt8 → Bool) (str : Bytes) :
    str.take (str.takeWhile test).length = str.takeWhile test :=
  (List.prefix_iff_eq_take.mp (List.takeWhile_prefix test)).symm

theorem drop_length_takeWhile (test : UInt8 → Bool) (str : Bytes) :
    str.drop (str.takeWhile test).length = str.dropWhile test := by
  have halves := List.take_append_drop (str.takeWhile test).length str
  have parts := @List.takeWhile_append_dropWhile UInt8 test str
  rw [take_length_takeWhile] at halves
  exact List.append_cancel_left (halves.trans parts.symm)

/-- Characters that fail the test, up to one that passes it or the end. -/
theorem firstFrom_eq (test : UInt8 → Bool) (str : Bytes) {pos : Nat} (inside : pos ≤ str.length) :
    firstFrom test str pos =
      if (str.drop pos).dropWhile (fun c => !test c) = [] then npos
      else pos + ((str.drop pos).takeWhile fun c => !test c).length := by
  have whole := congrArg List.length (@List.takeWhile_append_dropWhile UInt8 (fun c => !test c) (str.drop pos))
  rw [List.length_append, List.length_drop] at whole
  unfold firstFrom
  dsimp only
  generalize (str.drop pos).dropWhile (fun c => !test c) = rest at whole
  cases rest with
  | nil => rw [if_pos rfl, if_neg (by simp only [List.length_nil] at whole; omega)]
  | cons c rest => rw [if_neg (List.cons_ne_nil c rest), if_pos (by simp only [List.length_cons] at whole; omega)]

theorem firstFrom_end {test : UInt8 → Bool} {str : Bytes} {pos : Nat} (inside : pos ≤ str.length)
    (none : (str.drop pos).dropWhile (fun c => !test c) = []) : firstFrom test str pos = npos := by
  rw [firstFrom_eq test str inside, if_pos none]

theorem firstFrom_found {test : UInt8 → Bool} {str : Bytes} {pos : Nat} (inside : pos ≤ str.length)
    (some : (str.drop pos).dropWhile (fun c => !test c) ≠ []) :
    ∃ found, firstFrom test str pos = pos + found ∧ pos + found < str.length ∧
      (str.drop pos).take found = (str.drop pos).takeWhile (fun c => !test c) ∧
      str.drop (pos + found) = (str.drop pos).dropWhile fun c => !test c := by
  have whole := congrArg List.length (@List.takeWhile_append_dropWhile UInt8 (fun c => !test c) (str.drop pos))
  rw [List.length_append, List.length_drop] at whole
  have behind := List.length_pos_of_ne_nil some
  refine ⟨((str.drop pos).takeWhile fun c => !test c).length, ?_, ?_, take_length_takeWhile _ _, ?_⟩
  · rw [firstFrom_eq test str inside, if_neg some]
  · omega
  · rw [← List.drop_drop, drop_length_takeWhile]

theorem firstFrom_npos (test : UInt8 → Bool) {str : Bytes} (sized : str.length < npos) : firstFrom test str npos = npos := by
  have outside : ¬ npos + ((str.drop npos).takeWhile fun c => !test c).length < str.length := by omega
  exact if_neg outside

/-- With the position past the end the size asked for is larger than what is left. -/
theorem take_subSize_npos {str : Bytes} {last : Nat} (inside : last < str.length) (sized : str.length < npos) :
    (str.drop last).take (subSize npos last) = str.drop last := by
  have size : subSize npos last = npos - last := by
    unfold subSize npos at *
    omega
  apply List.take_of_length_le
  rw [List.length_drop, size]
  omega

theorem subSize_add {last size : Nat} (small : last + size < npos) : subSize (last + size) last = size := by
  unfold subSize
  unfold npos at small
  omega

section
variable {find : Find} {str delimiters : Bytes}

/-- The traits find a character in the set exactly when it is a delimiter. -/
def Tells (find : Find) (delimiters : Bytes) (delimiter : UInt8 → Bool) : Prop :=
  ∀ c, (find delimiters delimiters.length c).isSome = delimiter c

theorem findFirstOf_eq (tells : Tells find delimiters delimiter) (pos : Nat) :
    findFirstOf find str delimiters pos = firstFrom delimiter str pos :=
  congrArg (fun test => firstFrom test str pos) (funext tells)

theorem findFirstNotOf_eq (tells : Tells find delimiters delimiter) (pos : Nat) :
    findFirstNotOf find str delimiters pos = firstFrom (fun c => !delimiter c) str pos := by
  refine congrArg (fun test => firstFrom test str pos) (funext fun c => ?_)
  rw [← Option.not_isSome, tells c]

theorem tokenizeStep_next (tells : Tells find delimiters delimiter) {last pos : Nat} (inside : last ≤ str.length)
    (sized : str.length < npos) (tokens : List Bytes) :
    Loop.failing (tokenizeStep find str delimiters) ⟨last, pos, tokens⟩ =
      .next ⟨firstFrom (fun c => !delimiter c) str pos,
        firstFrom delimiter str (firstFrom (fun c => !delimiter c) str pos),
        tokens ++ [(str.drop last).take (subSize pos last)]⟩ := by
  apply Loop.failing_next
  have token : substr str last (subSize pos last) = .ok ((str.drop last).take (subSize pos last)) :=
    if_neg (Nat.not_lt.mpr inside)
  rw [tokenizeStep, if_pos (.inr (by dsimp only; omega)), token, findFirstNotOf_eq tells]
  change Except.ok _ = _
  rw [findFirstOf_eq tells]

theorem tokenizeStep_exit (find : Find) (str delimiters : Bytes) (tokens : List Bytes) :
    Loop.failing (tokenizeStep find str delimiters) ⟨npos, npos, tokens⟩ = .exit (.ok tokens) := by
  apply Loop.failing_exit
  rw [tokenizeStep, if_neg (by simp)]
  rfl

theorem tokenize_last (tells : Tells find delimiters delimiter) (sized : str.length < npos) {last fuel : Nat}
    (inside : last < str.length) (final : (str.drop last).dropWhile (fun c => !delimiter c) = []) (enough : 1 < fuel)
    (tokens : List Bytes) :
    Loop.run (Loop.failing (tokenizeStep find str delimiters)) fuel ⟨last, firstFrom delimiter str last, tokens⟩ =
      some (.ok (tokens ++ [(str.drop last).takeWhile fun c => !delimiter c])) := by
  obtain ⟨fuel, rfl⟩ := Nat.exists_eq_add_of_le' (by omega : 2 ≤ fuel)
  have all : (str.drop last).takeWhile (fun c => !delimiter c) = str.drop last := by
    have parts := @List.takeWhile_append_dropWhile UInt8 (fun c => !delimiter c) (str.drop last)
    rw [final, List.append_nil] at parts
    exact parts
  have step := @tokenizeStep_next delimiter find str delimiters tells last npos (Nat.le_of_lt inside) sized tokens
  rw [firstFrom_npos _ sized, firstFrom_npos _ sized, take_subSize_npos inside sized] at step
  rw [firstFrom_end (Nat.le_of_lt inside) final, Loop.run_next (fuel + 1) step, Loop.run_exit fuel (tokenizeStep_exit ..), all]

/-- From any position on, the loop stores the runs of the rest of the string. -/
theorem tokenize_from (tells : Tells find delimiters delimiter) (sized : str.length < npos) {k fuel : Nat}
    (inside : k ≤ str.length) (enough : str.length - k < fuel) (tokens : List Bytes) :
    Loop.run (Loop.failing (tokenizeStep find str delimiters)) fuel
      ⟨firstFrom (fun c => !delimiter c) str k, firstFrom delimiter str (firstFrom (fun c => !delimiter c) str k), tokens⟩ =
      some (.ok (tokens ++ runs delimiter (str.drop k))) := by
  induction fuel generalizing k tokens with
  | zero => omega
  | succ fuel ih =>
    have twice : (fun c => !!delimiter c) = delimiter := funext fun c => Bool.not_not _
    rw [runs_eq]
    by_cases done : (str.drop k).dropWhile delimiter = []
    · -- Delimiters to the end: both positions are past it.
      have start : firstFrom (fun c => !delimiter c) str k = npos := firstFrom_end inside (by rw [twice]; exact done)
      rw [if_pos done, start, firstFrom_npos _ sized, List.append_nil]
      exact Loop.run_exit fuel (tokenizeStep_exit ..)
    · obtain ⟨skipped, start, behind, _, place⟩ :=
        @firstFrom_found (fun c => !delimiter c) str k inside (by rw [twice]; exact done)
      rw [twice] at place
      have apart := takeWhile_dropWhile_ne_nil delimiter done
      rw [if_neg done, start, ← place]
      rw [← place] at apart
      have later := Nat.le_add_right k skipped
      generalize k + skipped = last at *
      by_cases final : (str.drop last).dropWhile (fun c => !delimiter c) = []
      · have last := tokenize_last tells sized behind final (by omega : 1 < fuel + 1) tokens
        rw [last, final]
        rfl
      · obtain ⟨size, stop, further, run, rest⟩ := firstFrom_found (Nat.le_of_lt behind) final
        have some := List.length_pos_of_ne_nil (run ▸ apart)
        rw [List.length_take] at some
        rw [stop, Loop.run_next fuel (tokenizeStep_next tells (Nat.le_of_lt behind) sized tokens), subSize_add (by omega), run,
          ih (Nat.le_of_lt further) (by omega), List.append_assoc, rest]
        rfl

theorem tokenize_runs (tells : Tells find delimiters delimiter) (sized : str.length < npos) {fuel : Nat}
    (enough : str.length < fuel) (tokens : List Bytes) :
    tokenize find fuel str tokens delimiters = some (.ok (tokens ++ runs delimiter str)) := by
  have whole := tokenize_from tells sized (Nat.zero_le _) enough tokens
  rw [List.drop_zero] at whole
  rw [tokenize, findFirstNotOf_eq tells, findFirstOf_eq tells]
  exact whole

end

theorem tells_charTraits (delimiters : Bytes) : Tells charTraitsFind delimiters (fun c => c ∈ delimiters) := by
  intro c
  rw [charTraitsFind, List.take_length, List.findIdx?_isSome, Bool.eq_iff_iff, List.any_eq_true]
  simp

/-- The traits that ignore case find every character in every set. -/
theorem tells_iCharTraits (delimiters : Bytes) : Tells iCharTraitsFind delimiters (fun _ => true) := fun _ => rfl

/-- A delimiter in another case. -/
def isDelimiter (delimiters : Bytes) (c : UInt8) : Bool := tolower c ∈ delimiters.map tolower

/-- The tokens of a `std::string` are its runs; those of an `istring` are only where it has none. -/
theorem tokenize_iff {str : Bytes} (sized : str.length < npos) (delimiters : Bytes) (tokens : List Bytes) :
    (∀ fuel, str.length < fuel →
      tokenizeString fuel str tokens delimiters = some (.ok (tokens ++ runs (fun c => c ∈ delimiters) str))) ∧
    ((∃ fuel, tokenizeIstring fuel str tokens delimiters = some (.ok (tokens ++ runs (isDelimiter delimiters) str))) ↔
      ∀ c ∈ str, isDelimiter delimiters c) := by
  refine ⟨fun fuel enough => tokenize_runs (tells_charTraits delimiters) sized enough tokens, ?_⟩
  have none : runs (fun _ => true) str = [] := (runs_eq_nil_iff str).mpr fun _ _ => rfl
  have returns := tokenize_runs (tells_iCharTraits delimiters) sized (Nat.lt_succ_self _) tokens
  rw [none, List.append_nil] at returns
  rw [← runs_eq_nil_iff]
  constructor
  · rintro ⟨fuel, done⟩
    have same := Loop.Exits.unique ⟨_, done⟩ ⟨_, returns⟩
    exact List.append_right_eq_self.mp (Except.ok.inj same)
  · intro empty
    exact ⟨str.length + 1, by rw [empty, List.append_nil]; exact returns⟩

theorem tokenize_sample :
    (ascii "a b").length < npos ∧
      tokenizeString 4 (ascii "a b") [] (ascii " ") = some (.ok ([] ++ runs (fun c => c ∈ ascii " ") (ascii "a b"))) ∧
      ∃ fuel, tokenizeIstring fuel (ascii "xX") [] (ascii "x") = some (.ok ([] ++ runs (isDelimiter (ascii "x")) (ascii "xX"))) := by
  have words := tokenize_iff (by decide +kernel : (ascii "a b").length < npos) (ascii " ") []
  have letters := tokenize_iff (by decide +kernel : (ascii "xX").length < npos) (ascii "x") []
  exact ⟨by decide +kernel, words.1 4 (by decide), letters.2.mpr (by decide +kernel)⟩

theorem tokenizeIstring_loses_words :
    ¬ ∃ fuel, tokenizeIstring fuel (ascii "GET /") [] (ascii " ") =
      some (.ok ([] ++ runs (isDelimiter (ascii " ")) (ascii "GET /"))) := by
  rintro ⟨fuel, done⟩
  have returns := tokenize_runs (tells_iCharTraits (ascii " ")) (by decide +kernel : (ascii "GET /").length < npos)
    (by decide : (ascii "GET /").length < 6) []
  have same := Loop.Exits.unique ⟨fuel, done⟩ ⟨6, returns⟩
  exact absurd same (by decide +kernel)

end LibWebserver.StringHelpers
