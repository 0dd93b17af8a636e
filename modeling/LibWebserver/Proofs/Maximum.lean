import LibWebserver.Proofs.Sampling

/-! The maximum latency. A call compares its latency and stores it two steps later, so
that a greater maximum stored in between is overwritten. Without such a store the
maximum grows, and covers every call that began once a rate had been attained. -/

namespace LibWebserver.Sampling
open Refinement

variable {sampling : Sampling} {i : Nat} {request : ServedRequest} {move : Move}

/-- A step does not lower the maximum. -/
def Rising (sampling : Sampling) (move : Move) : Prop := sampling.maxLatency ≤ (sampling.step move).maxLatency

/-- A call that stores its latency finds no greater maximum. -/
def Current (sampling : Sampling) : Move → Prop
  | .advance i => ∀ request ∈ sampling.served[i]?, request.stage = .maximum →
      ∀ latency ∈ request.latency, sampling.maxLatency ≤ latency
  | _ => True

/-- A timed call is about to take a step. -/
def At (sampling : Sampling) (i : Nat) (stage : Serving) (latency : UInt32) : Prop :=
  ∃ request, sampling.served[i]? = some request ∧ request.stage = stage ∧ request.latency = some latency

/-- Once a rate has been attained, the maximum covers the calls that begin from then on
and have completed. -/
def Covers (before sampling : Sampling) : Prop :=
  before.maxAttainedRate ≠ 0 → ∀ i request latency, before.served.length ≤ i → sampling.served[i]? = some request →
    request.stage = .done → request.latency = some latency → latency ≤ sampling.maxLatency

theorem run_maxLatency (countFirst : Bool) : (sampling.run countFirst).maxLatency = sampling.maxLatency := by
  unfold Sampling.run
  split <;> rfl

theorem servedRequest_maxLatency (i : Nat) (request : ServedRequest) :
    (sampling.servedRequest i request).maxLatency =
      if request.stage = .maximum then request.latency.getD sampling.maxLatency else sampling.maxLatency := by
  obtain ⟨code, length, latency, stage⟩ := request
  cases stage <;> cases latency <;> rfl

theorem servedRequest_maxAttainedRate (i : Nat) (request : ServedRequest) :
    (sampling.servedRequest i request).maxAttainedRate = sampling.maxAttainedRate := by
  obtain ⟨code, length, latency, stage⟩ := request
  cases stage <;> cases latency <;> rfl

theorem rising_iff (sampling : Sampling) (move : Move) : Rising sampling move ↔ Current sampling move := by
  cases move with
  | serve code length latency => exact iff_of_true (UInt32.le_refl sampling.maxLatency) trivial
  | tick countFirst =>
    refine iff_of_true ?_ trivial
    rw [Rising, Sampling.step, run_maxLatency]
    exact UInt32.le_refl sampling.maxLatency
  | advance i =>
    cases found : sampling.served[i]? with
    | none => simp [Rising, Current, Sampling.step, found]
    | some request =>
      have same : Rising sampling (.advance i) ↔ sampling.maxLatency ≤ (sampling.servedRequest i request).maxLatency := by
        rw [Rising, Sampling.step, found]
      rw [same, servedRequest_maxLatency]
      by_cases stores : request.stage = .maximum
      · cases latency : request.latency with
        | none => simp [Current, found, stores, latency]
        | some latency' => simp [Current, found, stores, latency]
      · simp [Current, found, stores]

theorem step_maxAttainedRate (attained : sampling.maxAttainedRate ≠ 0) (move : Move) :
    (sampling.step move).maxAttainedRate ≠ 0 := by
  cases move with
  | serve code length latency => exact attained
  | advance i =>
    unfold Sampling.step
    dsimp only
    split
    · exact attained
    · rw [servedRequest_maxAttainedRate]
      exact attained
  | tick countFirst =>
    unfold Sampling.step Sampling.run
    dsimp only
    split
    case h_3 rate _ =>
      dsimp only
      split
      next lower =>
        rintro rfl
        exact UInt32.not_lt_zero lower
      next => exact attained
    all_goals exact attained

/-- A rate has been attained, and the maximum covers the completed calls from `start` on. -/
structure Covering (start : Nat) (sampling : Sampling) : Prop where
  attained : sampling.maxAttainedRate ≠ 0
  covers : ∀ i request latency, start ≤ i → sampling.served[i]? = some request → request.stage = .done →
    request.latency = some latency → latency ≤ sampling.maxLatency

theorem goOn_served (inside : i < sampling.served.length) (stage : Serving) :
    (sampling.goOn i request stage).served[i]? = some { request with stage } := by
  rw [goOn, List.getElem?_set_self inside]

/-- A timed call completes with its latency stored, or not greater than the maximum. -/
theorem servedRequest_done {latency : UInt32} {after : ServedRequest} (attained : sampling.maxAttainedRate ≠ 0)
    (inside : i < sampling.served.length) (timed : request.latency = some latency) (running : request.stage ≠ .done)
    (found : (sampling.servedRequest i request).served[i]? = some after) (completes : after.stage = .done) :
    latency ≤ (sampling.servedRequest i request).maxLatency := by
  obtain ⟨code, length, _, stage⟩ := request
  cases timed
  cases stage with
  | testLatency =>
    by_cases longer : latency > sampling.maxLatency
    · have goes : (sampling.servedRequest i ⟨code, length, some latency, .testLatency⟩).served[i]? =
          some ⟨code, length, some latency, .testRate⟩ := by
        rw [servedRequest]
        dsimp only
        rw [if_pos longer, goOn_served inside]
      rw [goes] at found
      cases found
      cases completes
    · exact UInt32.not_lt.mp longer
  | testRate =>
    have goes : (sampling.servedRequest i ⟨code, length, some latency, .testRate⟩).served[i]? =
        some ⟨code, length, some latency, .maximum⟩ := by
      rw [servedRequest]
      dsimp only
      rw [if_pos attained, goOn_served inside]
    rw [goes] at found
    cases found
    cases completes
  | maximum => exact UInt32.le_refl latency
  | done => exact absurd rfl running
  | load | store served | traffic | sum | count | rate =>
    have goes := (goOn_served inside _).symm.trans found
    cases goes
    cases completes

theorem run_served (countFirst : Bool) : (sampling.run countFirst).served = sampling.served := by
  unfold Sampling.run
  split <;> rfl

theorem servedRequest_served_ne {j : Nat} (found : sampling.served[j]? = some request) (other : j ≠ i) :
    (sampling.servedRequest j request).served[i]? = sampling.served[i]? := by
  obtain ⟨next, _, served⟩ := servedRequest_follows found
  rw [served, goOn, List.getElem?_set_ne other]

theorem Covering.step {start : Nat} (covering : Covering start sampling) (current : Current sampling move) :
    Covering start (sampling.step move) := by
  have rises := (rising_iff sampling move).mpr current
  refine ⟨step_maxAttainedRate covering.attained move, ?_⟩
  intro i request latency later found completes timed
  -- a call that had completed is covered as before
  have before (found : sampling.served[i]? = some request) : latency ≤ (sampling.step move).maxLatency :=
    UInt32.le_trans (covering.covers i request latency later found completes timed) rises
  cases move with
  | serve code length latency' =>
    rcases Nat.lt_or_ge i sampling.served.length with old | new
    · rw [Sampling.step, List.getElem?_append_left old] at found
      exact before found
    · rw [Sampling.step, List.getElem?_append_right new, List.getElem?_singleton] at found
      split at found
      · cases found
        cases completes
      · cases found
  | tick countFirst =>
    rw [Sampling.step, run_served] at found
    exact before found
  | advance j =>
    cases present : sampling.served[j]? with
    | none =>
      rw [Sampling.step, present] at found
      exact before found
    | some previous =>
      have step : sampling.step (.advance j) = sampling.servedRequest j previous := by
        rw [Sampling.step, present]
      rw [step] at found before ⊢
      by_cases other : j = i
      · subst other
        obtain ⟨inside, _⟩ := List.getElem?_eq_some_iff.mp present
        by_cases running : previous.stage = .done
        · have stays : sampling.servedRequest j previous = sampling := by
            rw [servedRequest, running]
          exact before (stays ▸ found)
        · obtain ⟨next, _, served⟩ := servedRequest_follows present
          have same : previous.latency = request.latency := by
            rw [served, goOn_served inside] at found
            rw [← Option.some.inj found]
          exact servedRequest_done covering.attained inside (same.trans timed) running found completes
      · rw [servedRequest_served_ne present other] at found
        exact before found

/-- What the maximum is for: along a run it never falls, and at every point of the run
from which on a rate has been attained, it will cover the calls that begin then. -/
structure Maximal (moves : List Move) : Prop where
  rising : Along (fun sampling move => some (sampling.step move)) Rising {} moves
  covers : ∀ first rest, moves = first ++ rest → Covers (reached first) (reached moves)

theorem along_append {condition : Sampling → Move → Prop} {sampling : Sampling} (first : List Move) {rest : List Move}
    (run : Along (fun sampling move => some (sampling.step move)) condition sampling (first ++ rest)) :
    Along (fun sampling move => some (sampling.step move)) condition (first.foldl step sampling) rest := by
  induction first generalizing sampling with
  | nil => exact run
  | cons move first ih => exact ih (run.2 _ rfl)

theorem reached_append (first rest : List Move) : reached (first ++ rest) = rest.foldl step (reached first) :=
  List.foldl_append

/-- Behind moves that end with it, a call has compared its latency, and another has stored a
greater one since. -/
def Passed (moves : List Move) (i : Nat) (latency : UInt32) : Prop :=
  ∃ first middle later j greater, moves = first ++ .advance i :: middle ++ .advance j :: later ∧
    At (reached first) i .testLatency latency ∧ At (reached (first ++ .advance i :: middle)) j .maximum greater ∧
    latency < greater

/-- Between the comparison of a call and its store another call stores a greater latency. -/
def Overtakes (moves : List Move) : Prop :=
  ∃ before i latency rest, moves = before ++ .advance i :: rest ∧ At (reached before) i .maximum latency ∧
    Passed before i latency

theorem reached_concat (moves : List Move) (move : Move) : reached (moves ++ [move]) = (reached moves).step move := by
  rw [reached_append]
  rfl

theorem step_maxLatency (sampling : Sampling) (move : Move) :
    (sampling.step move).maxLatency = sampling.maxLatency ∨
      ∃ j latency, move = .advance j ∧ At sampling j .maximum latency ∧ (sampling.step move).maxLatency = latency := by
  cases move with
  | serve code length latency => exact .inl rfl
  | tick countFirst => exact .inl (run_maxLatency countFirst)
  | advance j =>
    cases found : sampling.served[j]? with
    | none => exact .inl (by rw [Sampling.step, found])
    | some request =>
      have same : (sampling.step (.advance j)).maxLatency = (sampling.servedRequest j request).maxLatency := by
        rw [Sampling.step, found]
      rw [same, servedRequest_maxLatency]
      by_cases stores : request.stage = .maximum
      · rw [if_pos stores]
        cases timed : request.latency with
        | none => exact .inl rfl
        | some latency => exact .inr ⟨j, latency, rfl, ⟨request, found, stores, timed⟩, rfl⟩
      · exact .inl (if_neg stores)

/-- A call comes to the test of the rate by its comparison, and to the store by that test. -/
theorem at_step {stage : Serving} {latency : UInt32} (late : stage = .testRate ∨ stage = .maximum)
    (here : At (sampling.step move) i stage latency) :
    At sampling i stage latency ∨
      move = .advance i ∧ (At sampling i .testRate latency ∨
        At sampling i .testLatency latency ∧ sampling.maxLatency < latency ∧ (sampling.step move).maxLatency = sampling.maxLatency) := by
  obtain ⟨request, found, waits, timed⟩ := here
  cases move with
  | serve code length other =>
    left
    rcases Nat.lt_or_ge i sampling.served.length with old | new
    · rw [Sampling.step, List.getElem?_append_left old] at found
      exact ⟨request, found, waits, timed⟩
    · rw [Sampling.step, List.getElem?_append_right new, List.getElem?_singleton] at found
      split at found
      · cases found
        rcases late with rfl | rfl <;> cases waits
      · cases found
  | tick countFirst =>
    rw [Sampling.step, run_served] at found
    exact .inl ⟨request, found, waits, timed⟩
  | advance j =>
    cases present : sampling.served[j]? with
    | none =>
      rw [Sampling.step, present] at found
      exact .inl ⟨request, found, waits, timed⟩
    | some previous =>
      have step : sampling.step (.advance j) = sampling.servedRequest j previous := by
        rw [Sampling.step, present]
      rw [step] at found ⊢
      by_cases other : j = i
      · subst other
        obtain ⟨inside, _⟩ := List.getElem?_eq_some_iff.mp present
        have own : previous.latency = some latency := by
          obtain ⟨next, _, served⟩ := servedRequest_follows present
          rw [served, goOn_served inside] at found
          rw [← timed, ← Option.some.inj found]
        obtain ⟨code, length, _, now⟩ := previous
        cases own
        refine .inr ⟨rfl, ?_⟩
        cases now with
        | testRate => exact .inl ⟨_, present, rfl, rfl⟩
        | testLatency =>
          by_cases longer : latency > sampling.maxLatency
          · exact .inr ⟨⟨_, present, rfl, rfl⟩, longer, servedRequest_maxLatency j _⟩
          · rw [servedRequest] at found
            dsimp only at found
            rw [if_neg longer, goOn_served inside] at found
            cases found
            rcases late with rfl | rfl <;> cases waits
        | done =>
          cases present.symm.trans found
          rcases late with rfl | rfl <;> cases waits
        | load | store served | traffic | sum | count | rate | maximum =>
          have goes := (goOn_served inside _).symm.trans found
          cases goes
          rcases late with rfl | rfl <;> cases waits
      · rw [servedRequest_served_ne present other] at found
        exact .inl ⟨request, found, waits, timed⟩

/-- A call that has compared its latency finds a maximum that is not greater, unless another
has stored one since. -/
theorem maxLatency_le (moves : List Move) {stage : Serving} {latency : UInt32} (late : stage = .testRate ∨ stage = .maximum)
    (here : At (reached moves) i stage latency) : (reached moves).maxLatency ≤ latency ∨ Passed moves i latency := by
  suffices since : ∃ first middle, moves = first ++ .advance i :: middle ∧ At (reached first) i .testLatency latency ∧
      ((reached moves).maxLatency ≤ latency ∨ Passed moves i latency) by
    obtain ⟨_, _, _, _, found⟩ := since
    exact found
  induction moves using List.reverseRecOn generalizing stage with
  | nil =>
    obtain ⟨_, found, _⟩ := here
    cases found
  | append_singleton moves move ih =>
    rw [reached_concat] at here ⊢
    -- a later move lowers the maximum to the latency of another call, if it changes it
    have on (earlier : ∃ first middle, moves = first ++ .advance i :: middle ∧ At (reached first) i .testLatency latency ∧
        ((reached moves).maxLatency ≤ latency ∨ Passed moves i latency)) :
        ∃ first middle, moves ++ [move] = first ++ .advance i :: middle ∧ At (reached first) i .testLatency latency ∧
          (((reached moves).step move).maxLatency ≤ latency ∨ Passed (moves ++ [move]) i latency) := by
      obtain ⟨first, middle, rfl, compared, kept⟩ := earlier
      refine ⟨first, middle ++ [move], by simp, compared, ?_⟩
      rcases kept with low | ⟨first', mid, later, j, greater, split, compared', stores, less⟩
      · rcases step_maxLatency (reached (first ++ .advance i :: middle)) move with same | ⟨j, greater, rfl, stores, stored⟩
        · exact .inl (same.symm ▸ low)
        · rw [stored]
          by_cases less : latency < greater
          · exact .inr ⟨first, middle, [], j, greater, rfl, compared, stores, less⟩
          · exact .inl (UInt32.not_lt.mp less)
      · exact .inr ⟨first', mid, later ++ [move], j, greater, by rw [split]; simp, compared', stores, less⟩
    rcases at_step late here with before | ⟨rfl, tests | ⟨compares, less, same⟩⟩
    · exact on (ih late before)
    · exact on (ih (.inl rfl) tests)
    · exact ⟨moves, [], rfl, compares, .inl (same.symm ▸ UInt32.le_of_lt less)⟩

theorem along_of_reached {condition : Sampling → Move → Prop} {before rest : List Move}
    (each : ∀ first move later, rest = first ++ move :: later → condition (reached (before ++ first)) move) :
    Along (fun sampling move => some (sampling.step move)) condition (reached before) rest := by
  induction rest generalizing before with
  | nil => trivial
  | cons move rest ih =>
    refine ⟨by simpa using each [] move rest rfl, fun after taken => ?_⟩
    cases taken
    rw [← reached_concat]
    refine ih fun first other later split => ?_
    rw [List.append_assoc]
    exact each (move :: first) other later (by rw [split]; rfl)

theorem current_of_not_overtakes {moves : List Move} (alone : ¬ Overtakes moves) :
    Along (fun sampling move => some (sampling.step move)) Current {} moves := by
  refine @along_of_reached Current [] moves fun first move later split => ?_
  rw [List.nil_append]
  cases move with
  | serve | tick => trivial
  | advance i =>
    intro request found stores latency timed
    have here : At (reached first) i .maximum latency := ⟨request, found, stores, timed⟩
    exact (maxLatency_le first (.inr rfl) here).resolve_right fun passed => alone ⟨first, i, latency, later, split, here, passed⟩

theorem rising_reached {moves more rest : List Move}
    (rising : Along (fun sampling move => some (sampling.step move)) Rising (reached moves) (more ++ rest)) :
    (reached moves).maxLatency ≤ (reached (moves ++ more)).maxLatency := by
  induction more generalizing moves with
  | nil => exact (List.append_nil moves).symm ▸ UInt32.le_refl _
  | cons move more ih =>
    have later := rising.2 _ rfl
    rw [← reached_concat] at later
    have grows := ih later
    rw [reached_concat, List.append_assoc] at grows
    exact UInt32.le_trans rising.1 grows

/-- What stores the lesser latency lowers the maximum. -/
theorem not_rising_of_overtakes {moves : List Move} (overtakes : Overtakes moves) :
    ¬ Along (fun sampling move => some (sampling.step move)) Rising {} moves := by
  intro rising
  obtain ⟨before, i, latency, rest, rfl, ⟨request, found, waits, timed⟩, first, middle, later, j, greater, rfl, -, passes, less⟩ :=
    overtakes
  have last := along_append _ rising
  have high : (reached _).maxLatency ≤ latency := (rising_iff _ _).mp last.1 request found waits latency timed
  have stored : (reached (first ++ .advance i :: middle ++ [.advance j])).maxLatency = greater := by
    obtain ⟨other, present, stores, own⟩ := passes
    rw [reached_concat, Sampling.step, present]
    dsimp only
    rw [servedRequest_maxLatency, if_pos stores, own]
    rfl
  have split : first ++ .advance i :: middle ++ .advance j :: later ++ .advance i :: rest =
      first ++ .advance i :: middle ++ [.advance j] ++ (later ++ .advance i :: rest) := by simp
  rw [split] at rising
  have grows := rising_reached (along_append _ rising)
  rw [show first ++ .advance i :: middle ++ [.advance j] ++ later = first ++ .advance i :: middle ++ .advance j :: later by simp,
    stored] at grows
  exact UInt32.not_lt.mpr (UInt32.le_trans grows high) less

/-- The maximum never falls and covers what it should exactly if no call stores a greater
latency than another between the comparison and the store of that one. -/
theorem maximal_iff (moves : List Move) : Maximal moves ↔ ¬ Overtakes moves := by
  constructor
  · intro maximal overtakes
    exact not_rising_of_overtakes overtakes maximal.rising
  · intro alone
    have current := current_of_not_overtakes alone
    have same : Rising = Current := funext fun sampling => funext fun move => propext (rising_iff sampling move)
    refine ⟨same ▸ current, ?_⟩
    rintro first rest rfl attained
    have start : Covering (reached first).served.length (reached first) := by
      refine ⟨attained, fun i request latency later found => ?_⟩
      obtain ⟨inside, _⟩ := List.getElem?_eq_some_iff.mp found
      exact absurd inside (Nat.not_lt.mpr later)
    rw [reached_append]
    exact (invariant_along (fun _ _ covering current => covering.step current) start (along_append first current)).covers

/-- A first iteration attains a rate; then a latency of 9 is stored after both calls have
compared, and that of 5 over it. -/
def overtaken : List Move := List.flatten
  [[.serve .ok 0 (some 1)], List.replicate 8 (.advance 0), List.replicate 3 (.tick false),
    [.serve .ok 0 (some 9), .serve .ok 0 (some 5)], List.replicate 8 (.advance 1), List.replicate 8 (.advance 2),
    [.advance 1, .advance 2]]

theorem overtaken_not_maximal : ¬ ∀ moves, Maximal moves := by
  intro all
  have covers := (all overtaken).covers (overtaken.take 12) (overtaken.drop 12) (List.take_append_drop 12 overtaken).symm
  have covered := covers (by decide +kernel) 1 ⟨.ok, 0, some 9, .done⟩ 9 (by decide +kernel) (by decide +kernel) rfl rfl
  revert covered
  decide +kernel

end LibWebserver.Sampling
