import LibWebserver.Sampling
import LibWebserver.Proofs.SlidingWindows
import Mathlib.Data.List.Perm.Basic
import Mathlib.Tactic.Abel

/-! What becomes of the rates and latencies that the requests leave behind. The
rates are drained by subtraction, so none is lost. The latencies are drained by two resets
behind two reads, so one that is added in between is lost. -/

namespace LibWebserver.Sampling
open Refinement

/-- The latency, while the sum has it and the count does not. -/
def halfWay (request : ServedRequest) : Option UInt32 :=
  match request.stage with
  | .count => request.latency
  | _ => none

/-- The latency, from when both counters have it. -/
def counted (request : ServedRequest) : Option UInt32 :=
  match request.stage with
  | .rate | .testLatency | .testRate | .maximum | .done => request.latency
  | _ => none

/-- The latency, from when `outgoing_rate_` is incremented. -/
def rated (request : ServedRequest) : Option UInt32 :=
  match request.stage with
  | .testLatency | .testRate | .maximum | .done => request.latency
  | _ => none

/-- The sum and the count an average is taken of. -/
def averaged : WebserverStatus.Call → Option (UInt32 × UInt32)
  | .latency sum count => some (sum, count)
  | _ => none

/-- The average of a tick that has read both counters and not recorded it yet. -/
def reading : Tick → Option (UInt32 × UInt32)
  | .resetSum sum count | .resetCount sum count | .latency sum count => some (sum, count)
  | _ => none

/-- The rate of a tick that has taken it and not recorded it yet. -/
def taking : Tick → Option UInt32
  | .maximum rate | .sustained rate => some rate
  | _ => none

/-- What the tick has read of the sum and not reset yet. -/
def sumRead : Tick → Option UInt32
  | .count sum | .resetSum sum _ => some sum
  | _ => none

/-- What of it is in an average already. -/
def drainedSum : Tick → Nat
  | .resetSum sum _ => sum.toNat
  | _ => 0

def countRead : Tick → Option UInt32
  | .sum count | .resetSum _ count | .resetCount _ count => some count
  | _ => none

def drainedCount : Tick → Nat
  | .resetSum _ count | .resetCount _ count => count.toNat
  | _ => 0

/-- The sum is known not to be zero. -/
def pastTest : Tick → Bool
  | .testCount | .average | .count _ | .sum _ => true
  | _ => false

variable (sampling : Sampling)

/-- The averages the ticks have taken. -/
def averages : List (UInt32 × UInt32) :=
  sampling.calculations.filterMap averaged ++ (reading sampling.tick).toList

/-- The rates the ticks have taken. -/
def rates : List UInt32 :=
  sampling.calculations.filterMap WebserverStatus.Call.sustained ++ (taking sampling.tick).toList

/-- The completed increments of `outgoing_rate_`. -/
def increments : Nat :=
  (sampling.served.filterMap rated).length

/-- The rates taken and the one that is growing are all the increments. -/
def Taken : Prop :=
  sampling.rates.sum + sampling.outgoingRate = UInt32.ofNat sampling.increments

def total (latencies : List UInt32) : Nat :=
  (latencies.map UInt32.toNat).sum

/-- Every latency is in the group of one average or pending, and each average is the mean
of its group. The counters hold the pending ones, next to what a tick is about to reset
and what a call is half way through adding. -/
structure Accounted (groups : List (List UInt32)) (pending : List UInt32) : Prop where
  parts : (groups.flatten ++ pending).Perm (sampling.served.filterMap counted)
  averages : sampling.averages.map (fun average => (average.1.toNat, average.2.toNat)) =
    groups.map fun group => (total group, group.length)
  positive : ∀ group ∈ groups, 0 < total group
  sum : sampling.fastLatencySum.toNat = drainedSum sampling.tick + total pending + total (sampling.served.filterMap halfWay)
  count : sampling.fastLatencyCount.toNat = drainedCount sampling.tick + pending.length

/-- No sample is lost. -/
structure Conserved : Prop where
  rates : sampling.Taken
  latencies : ∃ groups pending, sampling.Accounted groups pending

/-- The next read of a tick is its second one. -/
def halfRead : Tick → Bool
  | .count _ | .sum _ => true
  | _ => false

/-- What is added to a counter is not about to be reset and stays within its 32 bits. A
latency of zero does not matter to the sum. -/
def Safe (stage : Serving) (latency : UInt32) : Prop :=
  (stage = .sum → (sumRead sampling.tick = none ∨ latency = 0) ∧
    sampling.fastLatencySum.toNat + latency.toNat < 2 ^ 32) ∧
  (stage = .count → countRead sampling.tick = none ∧ sampling.fastLatencyCount.toNat + 1 < 2 ^ 32)

instance (stage : Serving) (latency : UInt32) : Decidable (sampling.Safe stage latency) :=
  inferInstanceAs (Decidable (_ ∧ _))

/-- No latency is added to a counter between the read and the reset of it, and no tick
completes its reads while a call is half way. -/
def Undisturbed : Move → Prop
  | .serve _ _ _ => True
  | .advance i => ∀ request ∈ sampling.served[i]?, ∀ latency ∈ request.latency, sampling.Safe request.stage latency
  | .tick _ => halfRead sampling.tick = true → total (sampling.served.filterMap halfWay) = 0

instance : ∀ move, Decidable (sampling.Undisturbed move)
  | .serve _ _ _ => .isTrue trivial
  | .advance i =>
    -- a search would go through all the latencies there are
    have (request : ServedRequest) : Decidable (∀ latency ∈ request.latency, sampling.Safe request.stage latency) :=
      Option.decidableForallMem request.latency
    inferInstanceAs (Decidable (∀ request ∈ sampling.served[i]?, ∀ latency ∈ request.latency,
      sampling.Safe request.stage latency))
  | .tick _ => inferInstanceAs (Decidable (_ → _))

section served
variable {sampling} {i : Nat} {request : ServedRequest} (found : sampling.served[i]? = some request)
include found

theorem goOn_filterMap (stage : Serving) (sample : ServedRequest → Option UInt32) :
    ∃ rest, (sampling.served.filterMap sample).Perm ((sample request).toList ++ rest) ∧
      ((sampling.goOn i request stage).served.filterMap sample).Perm
        ((sample { request with stage }).toList ++ rest) := by
  obtain ⟨bound, rfl⟩ := List.getElem?_eq_some_iff.mp found
  have split (request : ServedRequest) (rest : List ServedRequest) :
      (request :: rest).filterMap sample = (sample request).toList ++ rest.filterMap sample := by
    rw [List.filterMap_cons]
    cases sample request <;> rfl
  refine ⟨(sampling.served.eraseIdx i).filterMap sample, ?_, ?_⟩
  · rw [← split]
    exact (List.getElem_cons_eraseIdx_perm bound).symm.filterMap sample
  · rw [← split]
    exact (List.set_perm_cons_eraseIdx bound _).filterMap sample

theorem goOn_same {stage : Serving} {sample : ServedRequest → Option UInt32}
    (same : sample { request with stage } = sample request) :
    ((sampling.goOn i request stage).served.filterMap sample).Perm (sampling.served.filterMap sample) := by
  obtain ⟨rest, before, after⟩ := goOn_filterMap found stage sample
  rw [same] at after
  exact after.trans before.symm

theorem goOn_enters {stage : Serving} {sample : ServedRequest → Option UInt32} {latency : UInt32}
    (out : sample request = none) (enters : sample { request with stage } = some latency) :
    ((sampling.goOn i request stage).served.filterMap sample).Perm (latency :: sampling.served.filterMap sample) := by
  obtain ⟨rest, before, after⟩ := goOn_filterMap found stage sample
  rw [out] at before
  rw [enters] at after
  exact after.trans (before.symm.cons latency)

theorem goOn_leaves {stage : Serving} {sample : ServedRequest → Option UInt32} {latency : UInt32}
    (present : sample request = some latency) (leaves : sample { request with stage } = none) :
    (sampling.served.filterMap sample).Perm (latency :: (sampling.goOn i request stage).served.filterMap sample) := by
  obtain ⟨rest, before, after⟩ := goOn_filterMap found stage sample
  rw [present] at before
  rw [leaves] at after
  exact before.trans (after.symm.cons latency)

end served

@[simp]
theorem servedRequest_tick (i : Nat) (request : ServedRequest) :
    (sampling.servedRequest i request).tick = sampling.tick := by
  obtain ⟨code, length, latency, stage⟩ := request
  cases stage <;> cases latency <;> rfl

@[simp]
theorem servedRequest_calculations (i : Nat) (request : ServedRequest) :
    (sampling.servedRequest i request).calculations = sampling.calculations := by
  obtain ⟨code, length, latency, stage⟩ := request
  cases stage <;> cases latency <;> rfl

variable {sampling} {i : Nat} {request : ServedRequest} {groups : List (List UInt32)} {pending : List UInt32}

/-- How a call goes on. -/
inductive Follows (latency : Option UInt32) : Serving → Serving → Prop
  | wait (stage : Serving) : Follows latency stage stage
  | load (served : UInt64) : Follows latency .load (.store served)
  | store (served : UInt64) : Follows latency (.store served) .traffic
  | untimed (none : latency = none) : Follows latency .traffic .done
  | timed : Follows latency .traffic .sum
  | sum : Follows latency .sum .count
  | count : Follows latency .count .rate
  | rate : Follows latency .rate .testLatency
  | longer : Follows latency .testLatency .testRate
  | shorter : Follows latency .testLatency .done
  | attained : Follows latency .testRate .maximum
  | unattained : Follows latency .testRate .done
  | maximum : Follows latency .maximum .done

theorem servedRequest_follows (found : sampling.served[i]? = some request) :
    ∃ next, Follows request.latency request.stage next ∧
      (sampling.servedRequest i request).served = (sampling.goOn i request next).served := by
  obtain ⟨code, length, latency, stage⟩ := request
  have wait (stay : sampling.servedRequest i ⟨code, length, latency, stage⟩ = sampling) :
      ∃ next, Follows latency stage next ∧ (sampling.servedRequest i ⟨code, length, latency, stage⟩).served =
        (sampling.goOn i ⟨code, length, latency, stage⟩ next).served := by
    obtain ⟨bound, same⟩ := List.getElem?_eq_some_iff.mp found
    refine ⟨stage, .wait stage, ?_⟩
    rw [stay, goOn, ← same, List.set_getElem_self]
  cases stage with
  | load => exact ⟨_, .load _, rfl⟩
  | store served => exact ⟨_, .store served, rfl⟩
  | traffic =>
    cases latency with
    | none => exact ⟨_, .untimed rfl, rfl⟩
    | some latency => exact ⟨_, .timed, rfl⟩
  | done => exact wait (by cases latency <;> rfl)
  | sum => cases latency with
    | none => exact wait rfl
    | some latency => exact ⟨_, .sum, rfl⟩
  | count => cases latency with
    | none => exact wait rfl
    | some latency => exact ⟨_, .count, rfl⟩
  | rate => cases latency with
    | none => exact wait rfl
    | some latency => exact ⟨_, .rate, rfl⟩
  | testLatency => cases latency with
    | none => exact wait rfl
    | some latency =>
      refine ⟨if latency > sampling.maxLatency then .testRate else .done, ?_, rfl⟩
      split
      · exact .longer
      · exact .shorter
  | testRate => cases latency with
    | none => exact wait rfl
    | some latency =>
      refine ⟨if sampling.maxAttainedRate ≠ 0 then .maximum else .done, ?_, rfl⟩
      split
      · exact .attained
      · exact .unattained
  | maximum => cases latency with
    | none => exact wait rfl
    | some latency => exact ⟨_, .maximum, rfl⟩

theorem servedRequest_same (found : sampling.served[i]? = some request) {sample : ServedRequest → Option UInt32}
    (same : ∀ next, Follows request.latency request.stage next →
      sample { request with stage := next } = sample request) :
    ((sampling.servedRequest i request).served.filterMap sample).Perm (sampling.served.filterMap sample) := by
  obtain ⟨next, follows, served⟩ := servedRequest_follows found
  rw [served]
  exact goOn_same found (same next follows)

theorem rated_same (other : request.stage ≠ .rate) (next : Serving)
    (follows : Follows request.latency request.stage next) : rated { request with stage := next } = rated request := by
  obtain ⟨code, length, latency, stage⟩ := request
  cases follows with
  | rate => exact absurd rfl other
  | untimed none => exact none
  | _ => rfl

theorem counted_same (other : request.stage ≠ .count) (next : Serving)
    (follows : Follows request.latency request.stage next) : counted { request with stage := next } = counted request := by
  obtain ⟨code, length, latency, stage⟩ := request
  cases follows with
  | count => exact absurd rfl other
  | untimed none => exact none
  | _ => rfl

theorem halfWay_same (sum : request.stage ≠ .sum) (count : request.stage ≠ .count) (next : Serving)
    (follows : Follows request.latency request.stage next) : halfWay { request with stage := next } = halfWay request := by
  obtain ⟨code, length, latency, stage⟩ := request
  cases follows with
  | sum => exact absurd rfl sum
  | count => exact absurd rfl count
  | _ => rfl

theorem servedRequest_outgoingRate (other : request.stage ≠ .rate) :
    (sampling.servedRequest i request).outgoingRate = sampling.outgoingRate := by
  obtain ⟨code, length, latency, stage⟩ := request
  cases stage with
  | rate => exact absurd rfl other
  | _ => cases latency <;> rfl

theorem servedRequest_fastLatencySum (other : request.stage ≠ .sum) :
    (sampling.servedRequest i request).fastLatencySum = sampling.fastLatencySum := by
  obtain ⟨code, length, latency, stage⟩ := request
  cases stage with
  | sum => exact absurd rfl other
  | _ => cases latency <;> rfl

theorem servedRequest_fastLatencyCount (other : request.stage ≠ .count) :
    (sampling.servedRequest i request).fastLatencyCount = sampling.fastLatencyCount := by
  obtain ⟨code, length, latency, stage⟩ := request
  cases stage with
  | count => exact absurd rfl other
  | _ => cases latency <;> rfl

theorem Taken.servedRequest (taken : sampling.Taken) (found : sampling.served[i]? = some request) :
    (sampling.servedRequest i request).Taken := by
  have rates : (sampling.servedRequest i request).rates = sampling.rates := by
    rw [Sampling.rates, servedRequest_calculations, servedRequest_tick]; rfl
  rw [Taken, rates]
  by_cases rate : request.stage = .rate
  · obtain ⟨code, length, latency, stage⟩ := request
    cases rate
    cases latency with
    | none => exact taken
    | some latency =>
      have grows : (sampling.servedRequest i ⟨code, length, some latency, .rate⟩).increments = sampling.increments + 1 :=
        (goOn_enters found rfl rfl).length_eq
      rw [grows, UInt32.ofNat_add, ← taken]
      exact (add_assoc _ _ _).symm
  · have same := (servedRequest_same found (rated_same rate)).length_eq
    rw [servedRequest_outgoingRate rate, increments, same]
    exact taken

/-- The rate is the one of a tick or recorded, never both. -/
theorem run_rates (countFirst : Bool) (other : ∀ rate, sampling.tick ≠ .subtract rate) :
    (sampling.run countFirst).rates = sampling.rates := by
  unfold rates Sampling.run
  split
  case h_2 rate tick => exact absurd tick (other rate)
  case h_6 tick | h_7 tick | h_8 tick =>
    rw [tick]
    dsimp only
    split <;> rfl
  all_goals simp_all [taking, WebserverStatus.Call.sustained]

theorem Taken.run (taken : sampling.Taken) (countFirst : Bool) : (sampling.run countFirst).Taken := by
  by_cases subtract : ∃ rate, sampling.tick = .subtract rate
  · obtain ⟨rate, tick⟩ := subtract
    have rates : (sampling.run countFirst).rates = sampling.rates ++ [rate] := by
      simp [Sampling.rates, Sampling.run, tick, taking]
    have left : (sampling.run countFirst).outgoingRate = sampling.outgoingRate - rate := by simp only [Sampling.run, tick]
    have same : (sampling.run countFirst).increments = sampling.increments := by simp only [increments, Sampling.run, tick]
    rw [Taken, rates, left, same, ← taken, List.sum_append, List.sum_singleton]
    abel
  · have rates := run_rates countFirst fun rate tick => subtract ⟨rate, tick⟩
    have left : (sampling.run countFirst).outgoingRate = sampling.outgoingRate := by
      unfold Sampling.run
      split
      case h_2 rate tick => exact absurd ⟨rate, tick⟩ subtract
      all_goals rfl
    have same : (sampling.run countFirst).increments = sampling.increments := by
      unfold Sampling.run increments
      split <;> rfl
    rw [Taken, rates, left, same]
    exact taken

theorem Taken.step (taken : sampling.Taken) (move : Move) : (sampling.step move).Taken := by
  cases move with
  | serve code length latency =>
    have same : (sampling.step (.serve code length latency)).increments = sampling.increments := by
      simp [increments, Sampling.step, rated]
    rw [Taken, same]
    exact taken
  | advance i =>
    rw [Sampling.step]
    split
    case h_1 => exact taken
    case h_2 request found => exact taken.servedRequest found
  | tick countFirst => exact taken.run countFirst

@[simp]
theorem total_cons (latency : UInt32) (latencies : List UInt32) :
    total (latency :: latencies) = latency.toNat + total latencies :=
  rfl

theorem total_append (left right : List UInt32) : total (left ++ right) = total left + total right := by
  rw [total, List.map_append, List.sum_append]
  rfl

theorem total_flatten (groups : List (List UInt32)) : total groups.flatten = (groups.map total).sum := by
  induction groups with
  | nil => rfl
  | cons group groups ih => rw [List.flatten_cons, total_append, ih, List.map_cons, List.sum_cons]

theorem total_perm {left right : List UInt32} (same : left.Perm right) : total left = total right :=
  (same.map UInt32.toNat).sum_nat

/-- What a tick has read and not reset is still what the counters hold. -/
structure Balanced (sampling : Sampling) : Prop where
  accounted : ∃ groups pending, sampling.Accounted groups pending
  sum : ∀ sum ∈ sumRead sampling.tick, sampling.fastLatencySum = sum
  count : ∀ count ∈ countRead sampling.tick, sampling.fastLatencyCount = count
  tested : pastTest sampling.tick = true → 0 < sampling.fastLatencySum.toNat

theorem Balanced.quiet (balanced : sampling.Balanced) {after : Sampling}
    (halfWays : (after.served.filterMap halfWay).Perm (sampling.served.filterMap halfWay))
    (counteds : (after.served.filterMap counted).Perm (sampling.served.filterMap counted))
    (averages : after.averages = sampling.averages)
    (fastLatencySum : after.fastLatencySum = sampling.fastLatencySum)
    (fastLatencyCount : after.fastLatencyCount = sampling.fastLatencyCount)
    (drained : drainedSum after.tick = drainedSum sampling.tick ∧ drainedCount after.tick = drainedCount sampling.tick)
    (sum : ∀ sum ∈ sumRead after.tick, sampling.fastLatencySum = sum)
    (count : ∀ count ∈ countRead after.tick, sampling.fastLatencyCount = count)
    (tested : pastTest after.tick = true → 0 < sampling.fastLatencySum.toNat) : after.Balanced := by
  obtain ⟨groups, pending, accounted⟩ := balanced.accounted
  rw [← fastLatencySum] at sum tested
  rw [← fastLatencyCount] at count
  refine ⟨⟨groups, pending, accounted.parts.trans counteds.symm, ?_, accounted.positive, ?_, ?_⟩, sum, count, tested⟩
  · rw [averages]
    exact accounted.averages
  · rw [fastLatencySum, drained.1, total_perm halfWays]
    exact accounted.sum
  · rw [fastLatencyCount, drained.2]
    exact accounted.count

/-- The latency is added to the sum, which no tick is about to reset. -/
theorem Balanced.addSum (balanced : sampling.Balanced) {code : HttpCode} {length : UInt64} {latency : UInt32}
    (found : sampling.served[i]? = some ⟨code, length, some latency, .sum⟩)
    (unread : sumRead sampling.tick = none ∨ latency = 0)
    (fits : sampling.fastLatencySum.toNat + latency.toNat < 2 ^ 32) :
    (sampling.servedRequest i ⟨code, length, some latency, .sum⟩).Balanced := by
  obtain ⟨groups, pending, accounted⟩ := balanced.accounted
  have grown : (sampling.servedRequest i ⟨code, length, some latency, .sum⟩).fastLatencySum.toNat =
      sampling.fastLatencySum.toNat + latency.toNat :=
    (UInt32.toNat_add _ _).trans (Nat.mod_eq_of_lt fits)
  have halfWays : total ((sampling.servedRequest i ⟨code, length, some latency, .sum⟩).served.filterMap halfWay) =
      latency.toNat + total (sampling.served.filterMap halfWay) :=
    total_perm (goOn_enters found rfl rfl)
  have counteds := servedRequest_same found (counted_same (by simp))
  have parts := accounted.parts.trans counteds.symm
  refine ⟨⟨groups, pending, parts, accounted.averages, accounted.positive, ?_, accounted.count⟩,
    fun sum read => ?_, balanced.count, fun past => ?_⟩
  · have sum := accounted.sum
    rw [grown, halfWays, servedRequest_tick]
    omega
  · rw [servedRequest_tick] at read
    obtain none | rfl := unread
    · rw [none] at read
      cases read
    · exact (add_zero _).trans (balanced.sum sum read)
  · rw [grown]
    exact Nat.add_pos_left (balanced.tested past) _

theorem Balanced.addCount (balanced : sampling.Balanced) {code : HttpCode} {length : UInt64} {latency : UInt32}
    (found : sampling.served[i]? = some ⟨code, length, some latency, .count⟩)
    (unread : countRead sampling.tick = none) (fits : sampling.fastLatencyCount.toNat + 1 < 2 ^ 32) :
    (sampling.servedRequest i ⟨code, length, some latency, .count⟩).Balanced := by
  obtain ⟨groups, pending, accounted⟩ := balanced.accounted
  have grown : (sampling.servedRequest i ⟨code, length, some latency, .count⟩).fastLatencyCount.toNat =
      sampling.fastLatencyCount.toNat + 1 :=
    (UInt32.toNat_add _ _).trans (Nat.mod_eq_of_lt fits)
  have halfWays : total (sampling.served.filterMap halfWay) =
      latency.toNat + total ((sampling.servedRequest i ⟨code, length, some latency, .count⟩).served.filterMap halfWay) :=
    total_perm (goOn_leaves found rfl rfl)
  have counteds : ((sampling.servedRequest i ⟨code, length, some latency, .count⟩).served.filterMap counted).Perm
      (latency :: sampling.served.filterMap counted) :=
    goOn_enters found rfl rfl
  have parts := (List.perm_middle.trans (accounted.parts.cons latency)).trans counteds.symm
  refine ⟨⟨groups, latency :: pending, parts, accounted.averages, accounted.positive, ?_, ?_⟩,
    balanced.sum, fun count read => ?_, balanced.tested⟩
  · have sum := accounted.sum
    rw [total_cons, servedRequest_tick, servedRequest_fastLatencySum (by simp)]
    omega
  · have count := accounted.count
    rw [grown, List.length_cons, servedRequest_tick]
    omega
  · rw [servedRequest_tick, unread] at read
    cases read

theorem Balanced.servedRequest (balanced : sampling.Balanced) (found : sampling.served[i]? = some request)
    (undisturbed : sampling.Undisturbed (.advance i)) : (sampling.servedRequest i request).Balanced := by
  by_cases other : request.stage ≠ .sum ∧ request.stage ≠ .count
  · refine balanced.quiet (servedRequest_same found (halfWay_same other.1 other.2))
      (servedRequest_same found (counted_same other.2)) ?_ (servedRequest_fastLatencySum other.1)
      (servedRequest_fastLatencyCount other.2) ?_ ?_ ?_ ?_
    · rw [averages, servedRequest_calculations, servedRequest_tick]
      rfl
    all_goals rw [servedRequest_tick]
    · exact ⟨rfl, rfl⟩
    · exact balanced.sum
    · exact balanced.count
    · exact balanced.tested
  · obtain ⟨code, length, latency, stage⟩ := request
    have condition := undisturbed _ found
    have adds : stage = .sum ∨ stage = .count := by
      by_contra neither
      exact other (not_or.mp neither)
    cases latency with
    | none => obtain rfl | rfl := adds <;> exact balanced
    | some latency =>
      obtain ⟨sum, count⟩ := condition latency rfl
      obtain rfl | rfl := adds
      · exact balanced.addSum found (sum rfl).1 (sum rfl).2
      · exact balanced.addCount found (count rfl).1 (count rfl).2

theorem pos_of_ne_zero {counter : UInt32} (other : counter ≠ 0) : 0 < counter.toNat :=
  Nat.pos_of_ne_zero fun zero => other (UInt32.toNat_inj.mp zero)

/-- A tick completes its reads, and the latencies that are pending are one average. -/
theorem Balanced.complete (balanced : sampling.Balanced) (half : halfRead sampling.tick = true)
    (whole : total (sampling.served.filterMap halfWay) = 0) :
    { sampling with tick := .resetSum sampling.fastLatencySum sampling.fastLatencyCount }.Balanced := by
  obtain ⟨groups, pending, accounted⟩ := balanced.accounted
  have past : pastTest sampling.tick = true ∧ drainedSum sampling.tick = 0 ∧ drainedCount sampling.tick = 0 ∧
      reading sampling.tick = none := by
    revert half
    cases sampling.tick <;> simp [halfRead, pastTest, drainedSum, drainedCount, reading]
  obtain ⟨past, drainedSum, drainedCount, unread⟩ := past
  have sum := accounted.sum
  have count := accounted.count
  rw [drainedSum, whole] at sum
  rw [drainedCount] at count
  have positive := balanced.tested past
  refine ⟨⟨groups ++ [pending], [], ?_, ?_, fun group member => ?_, ?_, ?_⟩, fun _ read => Option.some.inj read,
    fun _ read => Option.some.inj read, fun past => Bool.noConfusion past⟩
  · rw [List.flatten_append, List.flatten_singleton, List.append_nil]
    exact accounted.parts
  · have averages := accounted.averages
    rw [Sampling.averages, unread, Option.toList_none, List.append_nil] at averages
    have pair : (sampling.fastLatencySum.toNat, sampling.fastLatencyCount.toNat) = (total pending, pending.length) := by
      rw [sum, count, Nat.zero_add, Nat.zero_add, Nat.add_zero]
    rw [Sampling.averages, List.map_append, List.map_append, averages]
    exact congrArg (_ ++ [·]) pair
  · obtain member | last := List.mem_append.mp member
    · exact accounted.positive group member
    · rw [List.mem_singleton.mp last]
      omega
  · exact (congrArg (_ + 0 + ·) whole).symm
  · rfl

/-- The sum is reset, of which nothing is pending. -/
theorem Accounted.resetSum (accounted : sampling.Accounted groups pending) {sum count : UInt32}
    (tick : sampling.tick = .resetSum sum count) (same : sampling.fastLatencySum = sum) :
    { sampling with fastLatencySum := 0, tick := .resetCount sum count }.Accounted groups pending := by
  obtain ⟨parts, averages, positive, held, counts⟩ := accounted
  rw [Sampling.averages, tick] at averages
  rw [tick] at held counts
  refine ⟨parts, averages, positive, ?_, counts⟩
  change 0 = 0 + total pending + total (sampling.served.filterMap halfWay)
  change _ = sum.toNat + total pending + total (sampling.served.filterMap halfWay) at held
  rw [same] at held
  omega

theorem Accounted.resetCount (accounted : sampling.Accounted groups pending) {sum count : UInt32}
    (tick : sampling.tick = .resetCount sum count) (same : sampling.fastLatencyCount = count) :
    { sampling with fastLatencyCount := 0, tick := .latency sum count }.Accounted groups pending := by
  obtain ⟨parts, averages, positive, sums, held⟩ := accounted
  rw [Sampling.averages, tick] at averages
  rw [tick] at sums held
  refine ⟨parts, averages, positive, sums, ?_⟩
  change 0 = 0 + pending.length
  change _ = count.toNat + pending.length at held
  rw [same] at held
  omega

theorem Balanced.outside (balanced : sampling.Balanced) {after : Sampling} (served : after.served = sampling.served)
    (averages : after.averages = sampling.averages) (fastLatencySum : after.fastLatencySum = sampling.fastLatencySum)
    (fastLatencyCount : after.fastLatencyCount = sampling.fastLatencyCount)
    (drained : drainedSum after.tick = drainedSum sampling.tick ∧ drainedCount after.tick = drainedCount sampling.tick)
    (unread : sumRead after.tick = none ∧ countRead after.tick = none)
    (tested : pastTest after.tick = true → 0 < sampling.fastLatencySum.toNat) : after.Balanced := by
  refine balanced.quiet ?_ ?_ averages fastLatencySum fastLatencyCount drained ?_ ?_ tested
  · rw [served]
  · rw [served]
  · rw [unread.1]
    exact fun _ read => absurd read (Option.not_mem_none _)
  · rw [unread.2]
    exact fun _ read => absurd read (Option.not_mem_none _)

theorem Balanced.average (balanced : sampling.Balanced) (tick : sampling.tick = .average) {countFirst : Bool} :
    (sampling.run countFirst).Balanced := by
  have tested := balanced.tested (by rw [tick]; rfl)
  rw [Sampling.run, tick]
  cases countFirst with
  | false =>
    refine balanced.quiet (.refl _) (.refl _) ?_ rfl rfl ?_ ?_ ?_ fun _ => tested
    · rw [averages, averages, tick]; rfl
    · rw [tick]; exact ⟨rfl, rfl⟩
    · exact fun _ read => Option.some.inj read
    · exact fun _ read => absurd read (Option.not_mem_none _)
  | true =>
    refine balanced.quiet (.refl _) (.refl _) ?_ rfl rfl ?_ ?_ ?_ fun _ => tested
    · rw [averages, averages, tick]; rfl
    · rw [tick]; exact ⟨rfl, rfl⟩
    · exact fun _ read => absurd read (Option.not_mem_none _)
    · exact fun _ read => Option.some.inj read

theorem Balanced.testSum (balanced : sampling.Balanced) (tick : sampling.tick = .testSum) {countFirst : Bool} :
    (sampling.run countFirst).Balanced := by
  rw [Sampling.run, tick]
  refine balanced.outside rfl ?_ rfl rfl ?_ ?_ ?_
  · rw [averages, averages, tick]
    dsimp only
    split <;> rfl
  · rw [tick]
    dsimp only
    split <;> exact ⟨rfl, rfl⟩
  · dsimp only
    split <;> exact ⟨rfl, rfl⟩
  · dsimp only
    split
    case isTrue other => exact fun _ => pos_of_ne_zero other
    case isFalse => exact fun past => Bool.noConfusion past

theorem Balanced.testCount (balanced : sampling.Balanced) (tick : sampling.tick = .testCount) {countFirst : Bool} :
    (sampling.run countFirst).Balanced := by
  have tested := balanced.tested (by rw [tick]; rfl)
  rw [Sampling.run, tick]
  refine balanced.outside rfl ?_ rfl rfl ?_ ?_ fun _ => tested
  · rw [averages, averages, tick]
    dsimp only
    split <;> rfl
  · rw [tick]
    dsimp only
    split <;> exact ⟨rfl, rfl⟩
  · dsimp only
    split <;> exact ⟨rfl, rfl⟩

theorem Balanced.run (balanced : sampling.Balanced) {countFirst : Bool}
    (undisturbed : sampling.Undisturbed (.tick countFirst)) : (sampling.run countFirst).Balanced := by
  cases tick : sampling.tick with
  | count sum =>
    obtain rfl : sampling.fastLatencySum = sum := balanced.sum sum (by rw [tick]; rfl)
    have half : halfRead sampling.tick = true := by rw [tick]; rfl
    rw [Sampling.run, tick]
    exact balanced.complete half (undisturbed half)
  | sum count =>
    obtain rfl : sampling.fastLatencyCount = count := balanced.count count (by rw [tick]; rfl)
    have half : halfRead sampling.tick = true := by rw [tick]; rfl
    rw [Sampling.run, tick]
    exact balanced.complete half (undisturbed half)
  | resetSum sum count =>
    obtain ⟨groups, pending, accounted⟩ := balanced.accounted
    have reset := accounted.resetSum tick (balanced.sum sum (by rw [tick]; rfl))
    rw [Sampling.run, tick]
    exact ⟨⟨groups, pending, reset⟩, fun _ read => absurd read (Option.not_mem_none _),
      fun _ read => balanced.count _ (by rw [tick]; exact read), fun past => Bool.noConfusion past⟩
  | resetCount sum count =>
    obtain ⟨groups, pending, accounted⟩ := balanced.accounted
    have reset := accounted.resetCount tick (balanced.count count (by rw [tick]; rfl))
    rw [Sampling.run, tick]
    exact ⟨⟨groups, pending, reset⟩, fun _ read => absurd read (Option.not_mem_none _),
      fun _ read => absurd read (Option.not_mem_none _), fun past => Bool.noConfusion past⟩
  | average => exact balanced.average tick
  | testSum => exact balanced.testSum tick
  | testCount => exact balanced.testCount tick
  | requests rest =>
    rw [Sampling.run, tick]
    cases rest <;>
    · refine balanced.outside rfl ?_ rfl rfl ?_ ⟨rfl, rfl⟩ fun past => Bool.noConfusion past
      · rw [averages, averages, tick]; rfl
      · rw [tick]; exact ⟨rfl, rfl⟩
  | rate | subtract _ | maximum _ | sustained _ | attained _ | latency _ _ | clear =>
    rw [Sampling.run, tick]
    refine balanced.outside rfl ?_ rfl rfl ?_ ⟨rfl, rfl⟩ fun past => Bool.noConfusion past
    · simp [averages, tick, averaged, reading]
    · rw [tick]; exact ⟨rfl, rfl⟩

theorem Balanced.step (balanced : sampling.Balanced) {move : Move} (undisturbed : sampling.Undisturbed move) :
    (sampling.step move).Balanced := by
  cases move with
  | serve code length latency =>
    refine balanced.quiet ?_ ?_ rfl rfl rfl ⟨rfl, rfl⟩ balanced.sum balanced.count balanced.tested
    · simp only [Sampling.step, List.filterMap_append]
      exact .of_eq (List.append_nil _)
    · simp only [Sampling.step, List.filterMap_append]
      exact .of_eq (List.append_nil _)
  | advance i =>
    rw [Sampling.step]
    split
    case h_1 => exact balanced
    case h_2 request found => exact balanced.servedRequest found undisturbed
  | tick countFirst => exact balanced.run undisturbed

theorem balanced_initial : ({} : Sampling).Balanced where
  accounted := ⟨[], [], .nil, rfl, fun _ member => absurd member List.not_mem_nil, rfl, rfl⟩
  sum _ read := absurd read (Option.not_mem_none _)
  count _ read := absurd read (Option.not_mem_none _)
  tested past := Bool.noConfusion past

/-- The statistics after a run. -/
def reached (moves : List Move) : Sampling :=
  moves.foldl step {}

theorem taken_reached (moves : List Move) : (reached moves).Taken :=
  moves.foldlRecOn step rfl fun _ taken move _ => taken.step move

/-- In every run no rate is lost, and in a run that nothing disturbs no latency is. -/
theorem samples_conserved (moves : List Move) :
    (reached moves).Taken ∧
      (Along (fun sampling move => some (sampling.step move)) Undisturbed {} moves →
        ∃ groups pending, (reached moves).Accounted groups pending) := by
  refine ⟨taken_reached moves, fun undisturbed => ?_⟩
  have keeps : ∀ sampling move, Balanced sampling → Undisturbed sampling move → Balanced (sampling.step move) :=
    fun _ _ balanced => balanced.step
  exact (invariant_along keeps balanced_initial undisturbed).accounted

/-- What the averages and the counter have of the sum is all that was added to it. -/
theorem Accounted.sums (accounted : sampling.Accounted groups pending) :
    (sampling.averages.map fun average => average.1.toNat).sum + sampling.fastLatencySum.toNat =
      drainedSum sampling.tick + total (sampling.served.filterMap counted) + total (sampling.served.filterMap halfWay) := by
  have averages : (sampling.averages.map fun average => average.1.toNat) = groups.map total := by
    have first := congrArg (List.map Prod.fst) accounted.averages
    rw [List.map_map, List.map_map] at first
    exact first
  have parts := total_perm accounted.parts
  rw [total_append, total_flatten] at parts
  rw [averages, accounted.sum]
  omega

theorem Accounted.counts (accounted : sampling.Accounted groups pending) :
    (sampling.averages.map fun average => average.2.toNat).sum + sampling.fastLatencyCount.toNat =
      drainedCount sampling.tick + (sampling.served.filterMap counted).length := by
  have averages : (sampling.averages.map fun average => average.2.toNat) = groups.map List.length := by
    have second := congrArg (List.map Prod.snd) accounted.averages
    rw [List.map_map, List.map_map] at second
    exact second
  have parts := accounted.parts.length_eq
  rw [List.length_append, List.length_flatten] at parts
  rw [averages, accounted.count]
  omega

/-- A reset keeps the account exactly if the sum has not grown since it was read. -/
theorem resetSum_iff (accounted : sampling.Accounted groups pending) {sum count : UInt32}
    (tick : sampling.tick = .resetSum sum count) (countFirst : Bool) :
    (∃ groups pending, (sampling.run countFirst).Accounted groups pending) ↔ sampling.fastLatencySum = sum := by
  rw [Sampling.run, tick]
  constructor
  · rintro ⟨_, _, reset⟩
    have before := accounted.sums
    have after := reset.sums
    simp only [averages, tick, reading, drainedSum, UInt32.toNat_zero] at before after
    exact UInt32.toNat_inj.mp (by omega)
  · exact fun same => ⟨groups, pending, accounted.resetSum tick same⟩

theorem resetCount_iff (accounted : sampling.Accounted groups pending) {sum count : UInt32}
    (tick : sampling.tick = .resetCount sum count) (countFirst : Bool) :
    (∃ groups pending, (sampling.run countFirst).Accounted groups pending) ↔ sampling.fastLatencyCount = count := by
  rw [Sampling.run, tick]
  constructor
  · rintro ⟨_, _, reset⟩
    have before := accounted.counts
    have after := reset.counts
    simp only [averages, tick, reading, drainedCount, UInt32.toNat_zero] at before after
    exact UInt32.toNat_inj.mp (by omega)
  · exact fun same => ⟨groups, pending, accounted.resetCount tick same⟩

/-- The second latency is half way when the sum is read, and added to the count before the count is. -/
def undisturbed : List Move := List.flatten
  [[.serve .ok 0 (some 5)], List.replicate 8 (.advance 0), [.serve .ok 0 (some 7)], List.replicate 4 (.advance 1),
    List.replicate 8 (.tick false), [.advance 1], List.replicate 4 (.tick false),
    [.serve .ok 0 (some 9)], List.replicate 5 (.advance 2)]

theorem samples_conserved_undisturbed :
    (reached undisturbed).averages = [(12, 2)] ∧ (reached undisturbed).Taken ∧
      ∃ groups pending, (reached undisturbed).Accounted groups pending := by
  have ⟨taken, accounted⟩ := samples_conserved undisturbed
  exact ⟨by decide +kernel, taken, accounted (by decide +kernel)⟩

/-- The second latency is added between the read of the sum and the reset of it. -/
def disturbed : List Move := List.flatten
  [[.serve .ok 0 (some 5)], List.replicate 8 (.advance 0), List.replicate 9 (.tick false),
    [.serve .ok 0 (some 7)], List.replicate 4 (.advance 1), List.replicate 2 (.tick false), [.advance 1]]

theorem sample_lost : ¬ ∀ moves, (reached moves).Conserved := by
  intro all
  obtain ⟨groups, pending, accounted⟩ := (all disturbed).latencies
  have sums := accounted.sums
  revert sums
  decide +kernel

/-- The tick has something to average. -/
def drains (sampling : Sampling) : Prop :=
  sampling.fastLatencySum ≠ 0 ∧ sampling.fastLatencyCount ≠ 0

instance : Decidable (drains sampling) :=
  inferInstanceAs (Decidable (_ ∧ _))

/-- The calculations of one iteration of `Run`, with the counters as they are. -/
def calls (sampling : Sampling) : List WebserverStatus.Call :=
  [.sustainedRate sampling.outgoingRate, .attainedRate sampling.outgoingRate] ++
    if sampling.drains then [.latency sampling.fastLatencySum sampling.fastLatencyCount] else []

def iteration (sampling : Sampling) : Sampling :=
  { sampling with
    outgoingRate := 0
    maxAttainedRate :=
      if sampling.maxAttainedRate < sampling.outgoingRate then sampling.outgoingRate else sampling.maxAttainedRate
    fastLatencySum := if sampling.drains then 0 else sampling.fastLatencySum
    fastLatencyCount := if sampling.drains then 0 else sampling.fastLatencyCount
    totalServedRequests := HttpCode.all.foldl (fun total code => total + sampling.httpServed code) 0
    calculations := sampling.calculations ++ sampling.calls }

theorem run_alone (top : sampling.tick = .rate) (countFirst : Bool) :
    ∃ n, (List.replicate n (Move.tick countFirst)).foldl step sampling = sampling.iteration := by
  obtain ⟨httpServed, trafficOut, rate, maxLatency, maxRate, sum, count, total, served, tick, calculations⟩ := sampling
  cases top
  by_cases sum : sum = 0
  · refine ⟨16, ?_⟩
    simp [List.replicate, Sampling.step, Sampling.run, iteration, calls, drains, sum, HttpCode.all]
  · by_cases count : count = 0
    · refine ⟨17, ?_⟩
      simp [List.replicate, Sampling.step, Sampling.run, iteration, calls, drains, sum, count, HttpCode.all]
    · refine ⟨22, ?_⟩
      cases countFirst <;>
        simp [List.replicate, Sampling.step, Sampling.run, iteration, calls, drains, sum, count, HttpCode.all]

section status
variable {single double : Type} [Floating single double] {status after : WebserverStatus single} {rate : UInt32}

/-- The rates are calculated next to the latency counters. -/
theorem calculateSustainedRate_counters (calculated : status.calculateSustainedRate rate = some after) :
    after.fastLatencySum = status.fastLatencySum ∧ after.fastLatencyCount = status.fastLatencyCount := by
  obtain ⟨_, _, same⟩ := Option.bind_eq_some_iff.mp calculated
  obtain rfl := Option.some.inj same
  exact ⟨rfl, rfl⟩

theorem calculateAttainedRate_counters (calculated : status.calculateAttainedRate rate = some after) :
    after.fastLatencySum = status.fastLatencySum ∧ after.fastLatencyCount = status.fastLatencyCount := by
  rw [WebserverStatus.calculateAttainedRate] at calculated
  split at calculated
  · cases calculated
    exact ⟨rfl, rfl⟩
  · obtain ⟨_, _, same⟩ := Option.bind_eq_some_iff.mp calculated
    obtain rfl := Option.some.inj same
    exact ⟨rfl, rfl⟩

theorem calls_status (sum : status.fastLatencySum = sampling.fastLatencySum)
    (count : status.fastLatencyCount = sampling.fastLatencyCount) :
    sampling.calls.foldlM WebserverStatus.call status = (do
      let sustained ← status.calculateSustainedRate sampling.outgoingRate
      let attained ← sustained.calculateAttainedRate sampling.outgoingRate
      attained.calculateLatency) := by
  have latency (attained : WebserverStatus single) (sum : attained.fastLatencySum = sampling.fastLatencySum)
      (count : attained.fastLatencyCount = sampling.fastLatencyCount) :
      (if sampling.drains then [WebserverStatus.Call.latency sampling.fastLatencySum sampling.fastLatencyCount]
        else []).foldlM WebserverStatus.call attained = attained.calculateLatency := by
    by_cases drains : sampling.drains
    · rw [if_pos drains, ← sum, ← count]
      exact bind_pure _
    · rw [if_neg drains]
      rw [Sampling.drains, ← sum, ← count] at drains
      exact (if_neg drains).symm
  rw [calls, List.foldlM_append, List.foldlM_cons, bind_assoc]
  refine Option.bind_congr fun sustained first => ?_
  rw [List.foldlM_cons, bind_assoc]
  refine Option.bind_congr fun attained second => ?_
  have kept := calculateSustainedRate_counters first
  have both := calculateAttainedRate_counters second
  exact latency attained (both.1.trans (kept.1.trans sum)) (both.2.trans (kept.2.trans count))

end status

end LibWebserver.Sampling
