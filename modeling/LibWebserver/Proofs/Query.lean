import LibWebserver.IncomingHttpMessage

/-! The query loop ends on every string, and what it extracts depends only on
the bytes before the NUL. -/

namespace LibWebserver.IncomingHttpMessage
open CStr

/-- The pairs one pass stores and the bytes it leaves. -/
def queryPass (p : Bytes) : List HttpPair × Bytes :=
  let p := p.dropWhile isSeparator
  let key := p.takeWhile inKey
  let p := (p.dropWhile inKey).dropWhile isEquals
  if key = [] then ([], p)
  else
    let value := p.takeWhile inValue
    (if value = [] then [] else [⟨key, value⟩], p.dropWhile inValue)

theorem queryStep_pass {state : QueryState} (running : peek state.p ≠ 0) :
    queryStep state = .next ⟨(queryPass state.p).2, state.queries ++ (queryPass state.p).1⟩ := by
  simp only [queryStep, if_neg running, queryPass]
  split
  · simp
  · simp only [Loop.Step.next.injEq, QueryState.mk.injEq, true_and]
    split <;> simp

private theorem dropWhile_le (test : UInt8 → Bool) (s : Bytes) : (s.dropWhile test).length ≤ s.length :=
  (List.dropWhile_suffix test).length_le

theorem queryPass_suffix (p : Bytes) : (queryPass p).2 <:+ p := by
  have keyed : ((p.dropWhile isSeparator).dropWhile inKey).dropWhile isEquals <:+ p :=
    (List.dropWhile_suffix _).trans ((List.dropWhile_suffix _).trans (List.dropWhile_suffix _))
  unfold queryPass
  dsimp only
  split
  · exact keyed
  · exact (List.dropWhile_suffix _).trans keyed

theorem queryPass_shorter {p : Bytes} (running : peek p ≠ 0) : (queryPass p).2.length < p.length := by
  obtain ⟨c, rest, rfl⟩ : ∃ c rest, p = c :: rest := by
    cases p with
    | nil => exact absurd rfl running
    | cons c rest => exact ⟨c, rest, rfl⟩
  have nonzero : c ≠ 0 := running
  have keyed : (queryPass (c :: rest)).2.length ≤
      ((((c :: rest).dropWhile isSeparator).dropWhile inKey).dropWhile isEquals).length := by
    unfold queryPass
    dsimp only
    split
    · exact Nat.le_refl _
    · exact dropWhile_le _ _
  apply Nat.lt_of_le_of_lt keyed
  apply Nat.lt_succ_of_le
  by_cases separator : isSeparator c
  · rw [List.dropWhile_cons_of_pos separator]
    exact Nat.le_trans (dropWhile_le _ _) (Nat.le_trans (dropWhile_le _ _) (dropWhile_le _ rest))
  · rw [List.dropWhile_cons_of_neg separator]
    by_cases equals : c = 61
    · rw [List.dropWhile_cons_of_neg (by simp [inKey, equals]),
        List.dropWhile_cons_of_pos (by simp [isEquals, equals])]
      exact dropWhile_le _ rest
    · rw [List.dropWhile_cons_of_pos (by simp [inKey, equals, nonzero])]
      exact Nat.le_trans (dropWhile_le _ _) (dropWhile_le _ rest)

/-- The pairs the query loop stores for a string. -/
def parseQueries (p : Bytes) : List HttpPair := (Loop.run queryStep (p.length + 1) ⟨p, []⟩).getD []

private theorem run_query_stop {p : Bytes} (stops : peek p = 0) (fuel : Nat) (queries : List HttpPair) :
    Loop.run queryStep (fuel + 1) ⟨p, queries⟩ = some queries := by
  apply Loop.run_exit
  simp [queryStep, stops]

/-- One bounded run describes them all: earlier pairs stay in front, and more
fuel changes nothing. -/
theorem run_query {fuel : Nat} {p : Bytes} (enough : p.length < fuel) (queries : List HttpPair) :
    Loop.run queryStep fuel ⟨p, queries⟩ = some (queries ++ parseQueries p) := by
  have general : ∀ size (p : Bytes), p.length = size → ∃ found, ∀ fuel, size < fuel → ∀ queries,
      Loop.run queryStep fuel ⟨p, queries⟩ = some (queries ++ found) := by
    intro size
    induction size using Nat.strongRecOn with
    | ind size ih =>
      intro p same
      by_cases stops : peek p = 0
      · refine ⟨[], fun fuel enough queries => ?_⟩
        obtain ⟨fuel, rfl⟩ := Nat.exists_eq_add_of_le' (Nat.succ_le_of_lt (Nat.zero_lt_of_lt enough))
        rw [run_query_stop stops, List.append_nil]
      · have shorter := queryPass_shorter stops
        obtain ⟨found, later⟩ := ih _ (same ▸ shorter) (queryPass p).2 rfl
        refine ⟨(queryPass p).1 ++ found, fun fuel enough queries => ?_⟩
        obtain ⟨fuel, rfl⟩ := Nat.exists_eq_add_of_le' (Nat.succ_le_of_lt (Nat.zero_lt_of_lt enough))
        rw [Loop.run_next fuel (queryStep_pass stops), later fuel (by omega), List.append_assoc]
  obtain ⟨found, all⟩ := general p.length p rfl
  rw [all fuel enough, parseQueries, all _ (Nat.lt_succ_self _), Option.getD_some, List.nil_append]

theorem parseQueries_stop {p : Bytes} (stops : peek p = 0) : parseQueries p = [] := by
  rw [parseQueries, run_query_stop stops, Option.getD_some]

theorem parseQueries_pass {p : Bytes} (running : peek p ≠ 0) :
    parseQueries p = (queryPass p).1 ++ parseQueries (queryPass p).2 := by
  have shorter := queryPass_shorter running
  rw [parseQueries, Loop.run_next _ (queryStep_pass running), run_query shorter, Option.getD_some, List.nil_append]

theorem pushQueries_eq {fuel : Nat} {p : Bytes} (enough : p.length < fuel) (self : IncomingHttpMessage) (eof : Nat) :
    self.pushQueries fuel p eof = some (.complete { self with queries := self.queries ++ parseQueries p } eof) := by
  rw [pushQueries, run_query enough, Option.map_some]

private theorem takeWhile_stop {test : UInt8 → Bool} {c : UInt8} (stops : test c = false) (s t : Bytes) :
    (s ++ c :: t).takeWhile test = s.takeWhile test := by
  induction s with
  | nil => simp [stops]
  | cons d s ih => simp [List.takeWhile_cons, ih]

private theorem dropWhile_stop {test : UInt8 → Bool} {c : UInt8} (stops : test c = false) (s t : Bytes) :
    (s ++ c :: t).dropWhile test = s.dropWhile test ++ c :: t := by
  induction s with
  | nil => simp [stops]
  | cons d s ih =>
    cases kept : test d with
    | true => simp [kept, ih]
    | false => simp [kept]

private theorem queryPass_nul (s t : Bytes) :
    queryPass (s ++ 0 :: t) = ((queryPass s).1, (queryPass s).2 ++ 0 :: t) := by
  have separator : isSeparator 0 = false := by decide
  have key : inKey 0 = false := by decide
  have equals : isEquals 0 = false := by decide
  have value : inValue 0 = false := by decide
  simp only [queryPass, dropWhile_stop separator, dropWhile_stop key, dropWhile_stop equals, dropWhile_stop value,
    takeWhile_stop key, takeWhile_stop value]
  split <;> rfl

theorem parseQueries_nul (s t : Bytes) : parseQueries (s ++ 0 :: t) = parseQueries s := by
  induction same : s.length using Nat.strongRecOn generalizing s with
  | ind size ih =>
    by_cases stops : peek s = 0
    · have starts : peek (s ++ 0 :: t) = 0 := by cases s <;> simp_all
      rw [parseQueries_stop stops, parseQueries_stop starts]
    · have starts : peek (s ++ 0 :: t) ≠ 0 := by cases s <;> simp_all
      rw [parseQueries_pass starts, queryPass_nul, parseQueries_pass stops,
        ih _ (same ▸ queryPass_shorter stops) (queryPass s).2 rfl]

theorem peek_ne_nul {text : Bytes} (absent : 0 ∉ text) (some : text ≠ []) (rest : Bytes) : peek (text ++ rest) ≠ 0 := by
  obtain ⟨c, text, rfl⟩ := List.exists_cons_of_ne_nil some
  intro nul
  exact absent (List.mem_cons.mpr (.inl nul.symm))

/-- A pass that starts in front of the terminator stops further on, and no further than there. -/
theorem queryStep_advances {text : Bytes} (absent : 0 ∉ text) (rest : Bytes) {i : Nat} (before : i < text.length)
    (queries : List HttpPair) :
    ∃ j more, i < j ∧ j ≤ text.length ∧
      queryStep ⟨(text ++ 0 :: rest).drop i, queries⟩ = .next ⟨(text ++ 0 :: rest).drop j, more⟩ := by
  have here : (text ++ 0 :: rest).drop i = text.drop i ++ 0 :: rest := List.drop_append_of_le_length (Nat.le_of_lt before)
  have some : text.drop i ≠ [] := List.ne_nil_of_length_pos (by rw [List.length_drop]; omega)
  have running := @peek_ne_nul (text.drop i) (mt List.mem_of_mem_drop absent) some
  have tail := running []
  rw [List.append_nil] at tail
  have shorter := queryPass_shorter tail
  have suffix := (queryPass_suffix (text.drop i)).trans (List.drop_suffix i text)
  have place := List.suffix_iff_eq_drop.mp suffix
  rw [List.length_drop] at shorter
  refine ⟨text.length - (queryPass (text.drop i)).2.length, queries ++ (queryPass (text.drop i)).1, by omega, by omega, ?_⟩
  rw [here, queryStep_pass (running _), queryPass_nul, List.drop_append_of_le_length (by omega), ← place]

/-- From any position in a string, every pass of the loop comes closer to the terminator, and
there are no more passes than bytes left. -/
theorem query_loop_terminates {text : Bytes} (absent : 0 ∉ text) (rest : Bytes) {i : Nat} (inside : i ≤ text.length)
    (queries : List HttpPair) :
    (i < text.length → ∃ j more, i < j ∧ j ≤ text.length ∧
      queryStep ⟨(text ++ 0 :: rest).drop i, queries⟩ = .next ⟨(text ++ 0 :: rest).drop j, more⟩) ∧
    (i = text.length → queryStep ⟨(text ++ 0 :: rest).drop i, queries⟩ = .exit queries) ∧
    ∃ found, Loop.run queryStep (text.length - i + 1) ⟨(text ++ 0 :: rest).drop i, queries⟩ = some found := by
  refine ⟨fun before => queryStep_advances absent rest before queries, ?_, ?_⟩
  · rintro rfl
    rw [List.drop_left]
    rfl
  · induction left : text.length - i using Nat.strongRecOn generalizing i queries with
    | ind size ih =>
      rcases Nat.eq_or_lt_of_le inside with rfl | before
      · rw [List.drop_left]
        exact ⟨queries, Loop.run_exit size rfl⟩
      · obtain ⟨j, more, further, within, moves⟩ := queryStep_advances absent rest before queries
        obtain ⟨found, done⟩ := ih (text.length - j) (by omega) within more rfl
        exact ⟨found, (Loop.run_next size moves).trans (Loop.run_more done (by omega))⟩

theorem query_loop_terminates_sample :
    0 ∉ ascii "?=&&a=" ∧ 1 ≤ (ascii "?=&&a=").length ∧
      ∃ found, Loop.run queryStep 6 ⟨(ascii "?=&&a=" ++ 0 :: ascii "=x").drop 1, []⟩ = some found := by
  have absent : 0 ∉ ascii "?=&&a=" := by decide
  exact ⟨absent, by decide, (query_loop_terminates absent (ascii "=x") (by decide : 1 ≤ (ascii "?=&&a=").length) []).2.2⟩

/-- A pair the query loop reads back from `key=value`. -/
structure Parameter (pair : HttpPair) : Prop where
  key : pair.key ≠ []
  keyEquals : 61 ∉ pair.key
  keyNul : 0 ∉ pair.key
  keyStart : peek pair.key ≠ 63 ∧ peek pair.key ≠ 38
  value : pair.value ≠ []
  valueAmpersand : 38 ∉ pair.value
  valueNul : 0 ∉ pair.value
  valueStart : peek pair.value ≠ 61

def parameterText (pair : HttpPair) : Bytes := pair.key ++ ascii "=" ++ pair.value

def joinParameters : List HttpPair → Bytes
  | [] => []
  | [pair] => parameterText pair
  | pair :: pairs => parameterText pair ++ (ascii "&" ++ joinParameters pairs)

theorem dropWhile_start {test : UInt8 → Bool} {s : Bytes} (nonempty : s ≠ []) (start : test (peek s) = false)
    (more : Bytes) : (s ++ more).dropWhile test = s ++ more := by
  obtain ⟨c, s, rfl⟩ := List.exists_cons_of_ne_nil nonempty
  rw [List.cons_append, List.dropWhile_cons_of_neg (by simpa using start)]

theorem inKey_of_absent {key : Bytes} (equals : 61 ∉ key) (nul : 0 ∉ key) : ∀ c ∈ key, inKey c := by
  intro c member
  simp only [inKey, decide_eq_true_eq]
  exact ⟨fun same => equals (same ▸ member), fun same => nul (same ▸ member)⟩

theorem inValue_of_absent {value : Bytes} (ampersand : 38 ∉ value) (nul : 0 ∉ value) : ∀ c ∈ value, inValue c := by
  intro c member
  simp only [inValue, decide_eq_true_eq]
  exact ⟨fun same => ampersand (same ▸ member), fun same => nul (same ▸ member)⟩

theorem value_ends {rest : Bytes} (ends : rest = [] ∨ peek rest = 38) :
    rest.dropWhile isEquals = rest ∧ rest.takeWhile inValue = [] ∧ rest.dropWhile inValue = rest := by
  rcases ends with rfl | ends
  · exact ⟨rfl, rfl, rfl⟩
  · cases rest with
    | nil => exact ⟨rfl, rfl, rfl⟩
    | cons c rest =>
      obtain rfl : c = 38 := ends
      exact ⟨rfl, rfl, rfl⟩

private theorem queryPass_parameter {seps : Bytes} (separators : ∀ c ∈ seps, isSeparator c) {pair : HttpPair}
    (valid : Parameter pair) {rest : Bytes} (ends : rest = [] ∨ peek rest = 38) :
    queryPass (seps ++ (parameterText pair ++ rest)) = ([pair], rest) := by
  obtain ⟨key, value⟩ := pair
  obtain ⟨keyed, keyEquals, keyNul, keyStart, valued, valueAmpersand, valueNul, valueStart⟩ := valid
  dsimp only at *
  have text : parameterText ⟨key, value⟩ ++ rest = key ++ (61 :: (value ++ rest)) := by
    simp [parameterText, ascii]
  have start : isSeparator (peek key) = false := by simp [isSeparator, keyStart]
  have inside := inKey_of_absent keyEquals keyNul
  have within := inValue_of_absent valueAmpersand valueNul
  have equals : (61 :: (value ++ rest)).dropWhile isEquals = value ++ rest := by
    rw [List.dropWhile_cons_of_pos (by decide), dropWhile_start valued (by simpa [isEquals] using valueStart)]
  have stops := (value_ends ends).2
  have keyEnd : ¬ inKey 61 := by decide
  simp only [queryPass, List.dropWhile_append_of_pos separators, text, dropWhile_start keyed start,
    List.takeWhile_append_of_pos inside, List.dropWhile_append_of_pos inside, List.takeWhile_cons_of_neg keyEnd,
    List.dropWhile_cons_of_neg keyEnd, equals, List.takeWhile_append_of_pos within, List.dropWhile_append_of_pos within,
    stops.1, stops.2, List.append_nil, if_neg keyed, if_neg valued]

/-- Every list of parameters is read back, behind any separators. -/
theorem parseQueries_join {seps : Bytes} (separators : ∀ c ∈ seps, isSeparator c) {pairs : List HttpPair}
    (valid : ∀ pair ∈ pairs, Parameter pair) : parseQueries (seps ++ joinParameters pairs) = pairs := by
  have running {seps : Bytes} (separators : ∀ c ∈ seps, isSeparator c) {pair : HttpPair} (valid : Parameter pair)
      (rest : Bytes) : peek (seps ++ (parameterText pair ++ rest)) ≠ 0 := by
    cases seps with
    | nil =>
      obtain ⟨c, key, same⟩ := List.exists_cons_of_ne_nil valid.key
      intro nul
      refine valid.keyNul ?_
      simp only [parameterText, same, List.nil_append, List.cons_append, peek_cons] at nul
      simp [same, nul]
    | cons c seps =>
      rintro rfl
      exact absurd (separators 0 (by simp)) (by decide)
  induction pairs generalizing seps with
  | nil =>
    have all : seps.dropWhile isSeparator = [] := List.dropWhile_eq_nil_iff.mpr separators
    rw [joinParameters, List.append_nil]
    by_cases stops : peek seps = 0
    · exact parseQueries_stop stops
    · have last : queryPass seps = ([], []) := by simp [queryPass, all]
      rw [parseQueries_pass stops, last]
      rfl
  | cons pair pairs ih =>
    have head := valid pair (by simp)
    cases pairs with
    | nil =>
      have pass := queryPass_parameter separators head (.inl rfl)
      have started := running separators head []
      rw [List.append_nil] at pass started
      rw [joinParameters, parseQueries_pass started, pass]
      rfl
    | cons other pairs =>
      have pass := queryPass_parameter separators head (.inr (show peek (ascii "&" ++ joinParameters (other :: pairs)) = 38 from rfl))
      rw [joinParameters, parseQueries_pass (running separators head _), pass,
        ih (by decide +kernel) (fun pair member => valid pair (by simp [member]))]
      · rfl
      · simp

/-- The start of a further query, as another request's body may go on with. -/
def furtherQuery : Bytes := ascii "&a=b"

private theorem queryPass_keep {body : Bytes}
    (ended : (body.dropWhile isSeparator).dropWhile inKey ≠ []) :
    queryPass (body ++ furtherQuery) = ((queryPass body).1, (queryPass body).2 ++ furtherQuery) := by
  have separators : (body ++ furtherQuery).dropWhile isSeparator = body.dropWhile isSeparator ++ furtherQuery := by
    rw [List.dropWhile_append, if_neg]
    intro empty
    rw [List.isEmpty_iff.mp empty] at ended
    exact ended rfl
  have stops : ((body.dropWhile isSeparator).takeWhile inKey).length ≠ (body.dropWhile isSeparator).length := by
    intro same
    have whole : (body.dropWhile isSeparator).takeWhile inKey ++ (body.dropWhile isSeparator).dropWhile inKey = _ :=
      List.takeWhile_append_dropWhile
    have sizes := congrArg List.length whole
    rw [List.length_append, same] at sizes
    exact ended (List.length_eq_zero_iff.mp (by omega))
  have key : (body.dropWhile isSeparator ++ furtherQuery).takeWhile inKey = (body.dropWhile isSeparator).takeWhile inKey := by
    rw [List.takeWhile_append, if_neg stops]
  have after : (body.dropWhile isSeparator ++ furtherQuery).dropWhile inKey =
      (body.dropWhile isSeparator).dropWhile inKey ++ furtherQuery := by
    rw [List.dropWhile_append, if_neg (by simpa using ended)]
  have equals : isEquals 38 = false := by decide
  have value : inValue 38 = false := by decide
  have tail : furtherQuery = 38 :: ascii "a=b" := rfl
  simp only [queryPass, separators, key, after]
  simp only [tail, dropWhile_stop equals, dropWhile_stop value, takeWhile_stop value]
  split <;> rfl

/-- A key that runs to the end of the text is completed by what follows. -/
private theorem queryPass_open {body : Bytes} (opened : (body.dropWhile isSeparator).dropWhile inKey = []) :
    queryPass body = ([], []) ∧ ∃ pair, queryPass (body ++ furtherQuery) = ([pair], []) := by
  have all : ∀ c ∈ body.dropWhile isSeparator, inKey c := List.dropWhile_eq_nil_iff.mp opened
  constructor
  · simp only [queryPass, opened, List.dropWhile_nil, List.takeWhile_nil, ite_self, if_true]
  · by_cases empty : body.dropWhile isSeparator = []
    · have separators : (body ++ furtherQuery).dropWhile isSeparator = ascii "a=b" := by
        rw [List.dropWhile_append, if_pos (by simp [empty])]
        rfl
      refine ⟨⟨ascii "a", ascii "b"⟩, ?_⟩
      simp only [queryPass, separators]
      rfl
    · have separators : (body ++ furtherQuery).dropWhile isSeparator = body.dropWhile isSeparator ++ furtherQuery := by
        rw [List.dropWhile_append, if_neg (by simpa using empty)]
      have key : (body.dropWhile isSeparator ++ furtherQuery).takeWhile inKey = body.dropWhile isSeparator ++ ascii "&a" := by
        rw [List.takeWhile_append_of_pos all]
        rfl
      have after : (body.dropWhile isSeparator ++ furtherQuery).dropWhile inKey = ascii "=b" := by
        rw [List.dropWhile_append_of_pos all]
        rfl
      refine ⟨⟨body.dropWhile isSeparator ++ ascii "&a", ascii "b"⟩, ?_⟩
      simp only [queryPass, separators, key, after, List.append_eq_nil_iff, empty, false_and, if_false]
      rfl

/-- Text without a NUL is not closed: the query that follows it is read as well. -/
theorem parseQueries_follow {body : Bytes} (absent : 0 ∉ body) :
    (parseQueries (body ++ furtherQuery)).length = (parseQueries body).length + 1 := by
  induction same : body.length using Nat.strongRecOn generalizing body with
  | ind size ih =>
    have running : peek (body ++ furtherQuery) ≠ 0 := by
      cases body with
      | nil => decide
      | cons c body => exact fun nul => absent (by simp [show c = 0 from nul])
    rw [parseQueries_pass running]
    by_cases opened : (body.dropWhile isSeparator).dropWhile inKey = []
    · obtain ⟨none, pair, one⟩ := queryPass_open opened
      have empty : parseQueries body = [] := by
        by_cases stops : peek body = 0
        · exact parseQueries_stop stops
        · rw [parseQueries_pass stops, none]
          rfl
      rw [one, empty]
      rfl
    · have started := @peek_ne_nul body absent (fun none => opened (by rw [none]; rfl)) []
      rw [List.append_nil] at started
      have inside : 0 ∉ (queryPass body).2 := fun member => absent ((queryPass_suffix body).subset member)
      rw [queryPass_keep opened, parseQueries_pass started, List.length_append, List.length_append,
        ih _ (same ▸ queryPass_shorter started) inside rfl, Nat.add_assoc]

end LibWebserver.IncomingHttpMessage
