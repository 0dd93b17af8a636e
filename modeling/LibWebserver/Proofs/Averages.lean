import LibWebserver.Proofs.SlidingWindows
import Mathlib.Algebra.BigOperators.Group.List.Lemmas
import Mathlib.Algebra.Order.BigOperators.Group.List
import Mathlib.Algebra.Order.Floor.Semifield
import Mathlib.Data.Nat.Cast.Order.Basic
import Mathlib.Data.Rat.Floor
import Mathlib.Tactic.Linarith

/-! The averages in exact arithmetic. Each of them is the mean of its window, rounded
down, but for the attained rate of five minutes: that is the sum of its window over the
size of the window of fifteen. -/

namespace LibWebserver

instance : Floating ℚ ℚ where
  ofUnsigned n := n.toNat
  ofInt n := n.toInt
  ofSize n := n
  div := (· / ·)
  positive average := 0 < average
  toUnsigned average := UInt32.ofNat ⌊average⌋₊
  zero := 0
  add := (· + ·)
  divide := (· / ·)
  truncate average := UInt32.ofNat ⌊average⌋₊

theorem le_mean {values : List ℚ} (nonempty : values ≠ []) {low : ℚ} (bound : ∀ x ∈ values, low ≤ x) :
    low ≤ values.sum / values.length := by
  have size : (0 : ℚ) < values.length := by exact_mod_cast List.length_pos_iff.mpr nonempty
  rw [le_div_iff₀ size]
  calc
    low * values.length = values.length • low := by rw [nsmul_eq_mul, mul_comm]
    _ ≤ values.sum := List.card_nsmul_le_sum values low bound

theorem mean_le {values : List ℚ} (nonempty : values ≠ []) {high : ℚ} (bound : ∀ x ∈ values, x ≤ high) :
    values.sum / values.length ≤ high := by
  have size : (0 : ℚ) < values.length := by exact_mod_cast List.length_pos_iff.mpr nonempty
  rw [div_le_iff₀ size]
  calc
    values.sum ≤ values.length • high := List.sum_le_card_nsmul values high bound
    _ = high * values.length := by rw [nsmul_eq_mul, mul_comm]

theorem toNat_ofNat {n : Nat} (small : n < 2 ^ 32) : (UInt32.ofNat n).toNat = n := by
  rw [UInt32.toNat_ofNat']
  exact Nat.mod_eq_of_lt small

/-- The published average of a window: the mean, between the least and the greatest of
the last samples. -/
structure Average {α : Type} (value : α → ℚ) (capacity : Nat) (samples history : List α) (published : UInt32) :
    Prop where
  exact : published.toNat = ⌊(history.map value).sum / history.length⌋₊
  lower : ∀ low, samples ≠ [] → (∀ x ∈ Window.latest capacity samples, low ≤ value x) → ⌊low⌋₊ ≤ published.toNat
  upper : ∀ high, samples ≠ [] → (∀ x ∈ Window.latest capacity samples, value x ≤ high) → published.toNat ≤ ⌊high⌋₊

theorem Average.of_exact {α : Type} {value : α → ℚ} {capacity : Nat} {samples history : List α} {published : UInt32}
    (slides : Window.Slides capacity samples history) (positive : 0 < capacity)
    (exact : published.toNat = ⌊(history.map value).sum / history.length⌋₊) :
    Average value capacity samples history published := by
  have whole (some : samples ≠ []) : history.map value ≠ [] := by
    have size := slides.length
    have more := List.length_pos_iff.mpr some
    rw [← List.length_pos_iff, List.length_map]
    omega
  have size : ((history.map value).length : ℚ) = history.length := by rw [List.length_map]
  refine ⟨exact, fun low some bound => ?_, fun high some bound => ?_⟩
  · rw [exact, ← size]
    refine Nat.floor_mono (le_mean (whole some) fun x member => ?_)
    obtain ⟨y, inside, rfl⟩ := List.mem_map.mp member
    exact bound y (slides.perm.subset inside)
  · rw [exact, ← size]
    refine Nat.floor_mono (mean_le (whole some) fun x member => ?_)
    obtain ⟨y, inside, rfl⟩ := List.mem_map.mp member
    exact bound y (slides.perm.subset inside)

/-- The three averages of a calculation. -/
structure Windows.Published {α : Type} (value : α → ℚ) (samples : List α) (windows : Windows α) (averages : Averages) :
    Prop where
  minute1 : Average value 60 samples windows.history1 averages.minute1
  minute5 : Average value 300 samples windows.history5 averages.minute5
  minute15 : Average value 900 samples windows.history15 averages.minute15

namespace WebserverStatus

variable {calls : List Call} {call : Call} {status after : WebserverStatus ℚ}

private theorem accumulate_step {sum : Int32} {rate : UInt32} {total : Nat} (holds : sum.toInt = total)
    (fits : total + rate.toNat < 2 ^ 31) : (sum.toUInt32 + rate).toInt32.toInt = (total + rate.toNat : Nat) := by
  have unsigned : sum.toUInt32.toNat = total := by
    have signed : sum.toBitVec.toInt = total := holds
    have same : sum.toUInt32.toNat = sum.toBitVec.toNat := rfl
    rw [BitVec.toInt_eq_toNat_cond] at signed
    split at signed <;> omega
  have added : (sum.toUInt32 + rate).toNat = total + rate.toNat := by
    rw [UInt32.toNat_add, unsigned]
    omega
  have signed : (sum.toUInt32 + rate).toInt32.toInt = (sum.toUInt32 + rate).toBitVec.toInt := rfl
  rw [signed, BitVec.toInt_eq_toNat_of_lt]
  · exact congrArg Nat.cast added
  · change 2 * (sum.toUInt32 + rate).toNat < _
    omega

theorem accumulate_eq {history : List UInt32} (fits : (history.map UInt32.toNat).sum < 2 ^ 31) :
    (accumulate history).toInt = (history.map UInt32.toNat).sum := by
  have general : ∀ (rates : List UInt32) (sum : Int32) (total : Nat), sum.toInt = total →
      total + (rates.map UInt32.toNat).sum < 2 ^ 31 →
      (rates.foldl (fun sum rate => (sum.toUInt32 + rate).toInt32) sum).toInt = (total + (rates.map UInt32.toNat).sum : Nat) := by
    intro rates
    induction rates with
    | nil => intro sum total holds _; exact holds
    | cons rate rates ih =>
      intro sum total holds fits
      rw [List.map_cons, List.sum_cons] at fits
      rw [List.foldl_cons, ih _ (total + rate.toNat) (accumulate_step holds (by omega)) (by omega), List.map_cons,
        List.sum_cons, Nat.add_assoc]
  have all := general history 0 0 rfl (by rw [Nat.zero_add]; exact fits)
  rwa [Nat.zero_add] at all

def rateValue (rate : UInt32) : ℚ := rate.toNat

theorem sum_rateValue (history : List UInt32) :
    (history.map rateValue).sum = ((history.map UInt32.toNat).sum : Nat) := by
  induction history with
  | nil => rfl
  | cons rate history ih => rw [List.map_cons, List.sum_cons, ih, List.map_cons, List.sum_cons, Nat.cast_add]; rfl

theorem averageRate_eq {history : List UInt32} {size : Nat} (fits : (history.map UInt32.toNat).sum < 2 ^ 31) :
    (averageRate ℚ history size).toNat = (history.map UInt32.toNat).sum / size := by
  have quotient : ⌊(((accumulate history).toInt : ℤ) : ℚ) / size⌋₊ = (history.map UInt32.toNat).sum / size := by
    rw [accumulate_eq fits, Int.cast_natCast, Nat.floor_div_eq_div]
  have small := Nat.div_le_self (history.map UInt32.toNat).sum size
  change (UInt32.ofNat ⌊(((accumulate history).toInt : ℤ) : ℚ) / size⌋₊).toNat = _
  rw [quotient, toNat_ofNat (by omega)]

theorem averageLatency_eq {history : List ℚ} {size : Nat} (fits : history.sum < 2 ^ 31) :
    (averageLatency history size).toNat = ⌊history.sum / size⌋₊ := by
  have sum : history.foldl (fun sum average => sum + average) 0 = history.sum := List.sum_eq_foldl.symm
  have small : history.sum / size < 2 ^ 32 := by
    rcases Nat.eq_zero_or_pos size with none | some
    · rw [none, Nat.cast_zero, div_zero]
      norm_num
    · have size : (1 : ℚ) ≤ size := by exact_mod_cast some
      rw [div_lt_iff₀ (by linarith)]
      linarith
  change (UInt32.ofNat ⌊history.foldl (fun sum average => sum + average) 0 / (size : ℚ)⌋₊).toNat = _
  rw [sum, toNat_ofNat]
  exact Nat.floor_lt' (by decide) |>.mpr (by exact_mod_cast small)

theorem windowSize_eq {α : Type} {capacity : Nat} {samples history next : List α} {sample : α}
    (before : Window.Slides capacity samples history) (after : Window.Slides capacity (samples ++ [sample]) next) :
    windowSize capacity history = next.length := by
  rw [windowSize, before.length, after.length, List.length_append, List.length_singleton]
  split <;> omega

/-- The averages as computed from the histories; the sizes are those of the histories, but one. -/
structure Computed (status : WebserverStatus ℚ) : Prop where
  sustained : status.sustainedRate =
    { minute1 := averageRate ℚ status.sustainedRateHistory.history1 status.sustainedRateHistory.history1.length
      minute5 := averageRate ℚ status.sustainedRateHistory.history5 status.sustainedRateHistory.history5.length
      minute15 := averageRate ℚ status.sustainedRateHistory.history15 status.sustainedRateHistory.history15.length }
  attained : status.attainedRate =
    { minute1 := averageRate ℚ status.attainedRateHistory.history1 status.attainedRateHistory.history1.length
      minute5 := averageRate ℚ status.attainedRateHistory.history5 status.attainedRateHistory.history15.length
      minute15 := averageRate ℚ status.attainedRateHistory.history15 status.attainedRateHistory.history15.length }
  latency : status.latency =
    { minute1 := averageLatency status.latencyHistory.history1 status.latencyHistory.history1.length
      minute5 := averageLatency status.latencyHistory.history5 status.latencyHistory.history5.length
      minute15 := averageLatency status.latencyHistory.history15 status.latencyHistory.history15.length }

theorem computed_initial : Computed {} := by
  have none : averageRate ℚ [] 0 = 0 := by
    apply UInt32.toNat_inj.mp
    rw [averageRate_eq (by decide)]
    rfl
  have nothing : averageLatency ([] : List ℚ) 0 = 0 := by
    apply UInt32.toNat_inj.mp
    rw [averageLatency_eq (by norm_num)]
    simp
  constructor
  · simp only [List.length_nil, none]
  · simp only [List.length_nil, none]
  · simp only [List.length_nil, nothing]

theorem Computed.next (computed : Computed status) (slide : Slide calls status)
    (called : status.call call = some after) (slides : Slide (calls ++ [call]) after) : Computed after := by
  cases call with
  | sustainedRate rate =>
    have sustained := slides.sustained
    simp only [WebserverStatus.call, calculateSustainedRate, Option.bind_eq_bind, Option.bind_eq_some_iff, Option.some.injEq] at called
    obtain ⟨next, added, rfl⟩ := called
    have samples : (calls ++ [Call.sustainedRate rate]).filterMap Call.sustained = calls.filterMap Call.sustained ++ [rate] := by
      rw [List.filterMap_append]
      rfl
    rw [samples] at sustained
    refine ⟨?_, computed.attained, computed.latency⟩
    simp only [windowSize_eq slide.sustained.history1 sustained.history1,
      windowSize_eq slide.sustained.history5 sustained.history5, windowSize_eq slide.sustained.history15 sustained.history15]
  | attainedRate rate =>
    have attained := slides.attained
    simp only [WebserverStatus.call, calculateAttainedRate] at called
    split at called
    next => cases called; exact computed
    next counted =>
      simp only [Option.bind_eq_bind, Option.bind_eq_some_iff, Option.some.injEq] at called
      obtain ⟨next, added, rfl⟩ := called
      have counts : Call.attained (.attainedRate rate) = some rate := if_neg counted
      rw [List.filterMap_append, List.filterMap_cons_some counts, List.filterMap_nil] at attained
      refine ⟨computed.sustained, ?_, computed.latency⟩
      simp only [windowSize_eq slide.attained.history1 attained.history1,
        windowSize_eq slide.attained.history15 attained.history15]
  | latency sum count =>
    have latency := slides.latency
    simp only [WebserverStatus.call, calculateLatency] at called
    split at called
    next served =>
      split at called
      next positive =>
        simp only [Option.bind_eq_bind, Option.bind_eq_some_iff, Option.some.injEq] at called
        obtain ⟨next, added, rfl⟩ := called
        have counts : Call.average ℚ (.latency sum count) =
            some (Floating.div (Floating.ofUnsigned sum) (Floating.ofUnsigned count)) :=
          if_pos ⟨served.1, served.2, positive⟩
        rw [List.filterMap_append, List.filterMap_cons_some counts, List.filterMap_nil] at latency
        refine ⟨computed.sustained, computed.attained, ?_⟩
        simp only [windowSize_eq slide.latency.history1 latency.history1,
          windowSize_eq slide.latency.history5 latency.history5, windowSize_eq slide.latency.history15 latency.history15]
      next => cases called; exact ⟨computed.sustained, computed.attained, computed.latency⟩
    next => cases called; exact ⟨computed.sustained, computed.attained, computed.latency⟩

/-- Every run keeps the histories and computes its averages from them. -/
theorem run_computed (calls : List Call) :
    ∃ after : WebserverStatus ℚ, calls.foldlM WebserverStatus.call {} = some after ∧ Slide calls after ∧ Computed after := by
  have general : ∀ (more calls : List Call) (status : WebserverStatus ℚ), Slide calls status → Computed status →
      ∃ after, more.foldlM WebserverStatus.call status = some after ∧ Slide (calls ++ more) after ∧ Computed after := by
    intro more
    induction more with
    | nil => exact fun calls status slide computed => ⟨status, rfl, (List.append_nil calls).symm ▸ slide, computed⟩
    | cons call more ih =>
      intro calls status slide computed
      obtain ⟨next, called, slides⟩ := slide.next call
      obtain ⟨after, ran, kept, done⟩ := ih (calls ++ [call]) next slides (computed.next slide called slides)
      refine ⟨after, ?_, by rwa [List.append_assoc] at kept, done⟩
      rw [List.foldlM_cons, called]
      exact ran
  exact general calls [] {} ⟨.initial, .initial, .initial⟩ computed_initial

/-- The sums of the windows over the samples are below 2^31. -/
def Below {α : Type} (value : α → ℚ) (samples : List α) : Prop :=
  ∀ capacity ∈ [60, 300, 900], ((Window.latest capacity samples).map value).sum < 2 ^ 31

structure Bounded (calls : List Call) : Prop where
  sustained : Below rateValue (calls.filterMap Call.sustained)
  attained : Below rateValue (calls.filterMap Call.attained)
  latency : Below id (calls.filterMap (Call.average ℚ))

/-- The nine averages are those of their windows. -/
structure Published (calls : List Call) (status : WebserverStatus ℚ) : Prop where
  sustained : Windows.Published rateValue (calls.filterMap Call.sustained) status.sustainedRateHistory status.sustainedRate
  attained : Windows.Published rateValue (calls.filterMap Call.attained) status.attainedRateHistory status.attainedRate
  latency : Windows.Published id (calls.filterMap (Call.average ℚ)) status.latencyHistory status.latency

/-- The sum of the last 300 samples has the same quotient by the sizes of both windows. -/
def QuotientsAgree (samples : List UInt32) : Prop :=
  ((Window.latest 300 samples).map UInt32.toNat).sum / min samples.length 300 =
    ((Window.latest 300 samples).map UInt32.toNat).sum / min samples.length 900

instance (samples : List UInt32) : Decidable (QuotientsAgree samples) := inferInstanceAs (Decidable (_ = _))

/-- As long as the window of five minutes holds all samples. -/
theorem quotientsAgree_of_length_le {samples : List UInt32} (few : samples.length ≤ 300) : QuotientsAgree samples := by
  rw [QuotientsAgree, Nat.min_eq_left few, Nat.min_eq_left (few.trans (by decide))]

section Window

variable {capacity : Nat} {samples history : List UInt32}

theorem sum_history (slides : Window.Slides capacity samples history) :
    (history.map UInt32.toNat).sum = ((Window.latest capacity samples).map UInt32.toNat).sum :=
  (slides.perm.map UInt32.toNat).sum_eq

theorem sum_history_lt (slides : Window.Slides capacity samples history)
    (below : ((Window.latest capacity samples).map rateValue).sum < 2 ^ 31) : (history.map UInt32.toNat).sum < 2 ^ 31 := by
  rw [sum_rateValue] at below
  rw [sum_history slides]
  exact_mod_cast below

theorem floor_mean (history : List UInt32) :
    ⌊(history.map rateValue).sum / history.length⌋₊ = (history.map UInt32.toNat).sum / history.length := by
  rw [sum_rateValue, Nat.floor_div_eq_div]

theorem average_rate (slides : Window.Slides capacity samples history) (positive : 0 < capacity)
    (below : ((Window.latest capacity samples).map rateValue).sum < 2 ^ 31) :
    Average rateValue capacity samples history (averageRate ℚ history history.length) := by
  apply Average.of_exact slides positive
  rw [averageRate_eq (sum_history_lt slides below), floor_mean]

end Window

theorem average_latency {capacity : Nat} {samples history : List ℚ} (slides : Window.Slides capacity samples history)
    (positive : 0 < capacity) (below : ((Window.latest capacity samples).map id).sum < 2 ^ 31) :
    Average id capacity samples history (averageLatency history history.length) := by
  apply Average.of_exact slides positive
  rw [List.map_id] at below ⊢
  exact averageLatency_eq (slides.perm.sum_eq.trans_lt below)

/-- The attained rate of five minutes is divided by the size of the window of fifteen. -/
theorem attained5_iff {samples : List UInt32} {windows : Windows UInt32} (slide : windows.Slide samples)
    (below : Below rateValue samples) :
    Average rateValue 300 samples windows.history5 (averageRate ℚ windows.history5 windows.history15.length) ↔
      QuotientsAgree samples := by
  have computed := @averageRate_eq windows.history5 windows.history15.length
    (sum_history_lt slide.history5 (below 300 (by decide)))
  have same : (averageRate ℚ windows.history5 windows.history15.length).toNat =
      ⌊(windows.history5.map rateValue).sum / windows.history5.length⌋₊ ↔ QuotientsAgree samples := by
    rw [computed, floor_mean, sum_history slide.history5, slide.history5.length, slide.history15.length]
    exact eq_comm
  constructor
  · exact fun average => same.mp average.exact
  · exact fun agree => Average.of_exact slide.history5 (by decide) (same.mpr agree)

theorem published_iff (bounded : Bounded calls) (slide : Slide calls status) (computed : Computed status) :
    Published calls status ↔ QuotientsAgree (calls.filterMap Call.attained) := by
  rw [← attained5_iff slide.attained bounded.attained]
  constructor
  · intro published
    have minute5 := published.attained.minute5
    rwa [computed.attained] at minute5
  · intro minute5
    refine ⟨?_, ?_, ?_⟩
    · rw [computed.sustained]
      exact ⟨average_rate slide.sustained.history1 (by decide) (bounded.sustained 60 (by decide)),
        average_rate slide.sustained.history5 (by decide) (bounded.sustained 300 (by decide)),
        average_rate slide.sustained.history15 (by decide) (bounded.sustained 900 (by decide))⟩
    · rw [computed.attained]
      exact ⟨average_rate slide.attained.history1 (by decide) (bounded.attained 60 (by decide)), minute5,
        average_rate slide.attained.history15 (by decide) (bounded.attained 900 (by decide))⟩
    · rw [computed.latency]
      exact ⟨average_latency slide.latency.history1 (by decide) (bounded.latency 60 (by decide)),
        average_latency slide.latency.history5 (by decide) (bounded.latency 300 (by decide)),
        average_latency slide.latency.history15 (by decide) (bounded.latency 900 (by decide))⟩

/-- After any calls the published averages are those of their windows exactly when the
quotients of the attained rates of five minutes agree. -/
theorem averages_published_iff (calls : List Call) (bounded : Bounded calls) :
    ∃ after : WebserverStatus ℚ, calls.foldlM WebserverStatus.call {} = some after ∧
      (Published calls after ↔ QuotientsAgree (calls.filterMap Call.attained)) := by
  obtain ⟨after, ran, slide, computed⟩ := run_computed calls
  exact ⟨after, ran, published_iff bounded slide computed⟩

private theorem latest_replicate {α : Type} (capacity n : Nat) (a : α) :
    Window.latest capacity (List.replicate n a) = List.replicate (min n capacity) a := by
  rw [Window.latest, List.drop_replicate, List.length_replicate]
  congr 1
  omega

theorem below_of_sum {α : Type} {value : α → ℚ} {samples : List α} (positive : ∀ x ∈ samples, 0 ≤ value x)
    (small : (samples.map value).sum < 2 ^ 31) : Below value samples := by
  intro capacity _
  have part : ((Window.latest capacity samples).map value).Sublist (samples.map value) := (List.drop_sublist _ _).map value
  exact (part.sum_le_sum (List.forall_mem_map.mpr positive)).trans_lt small

theorem below_rates {samples : List UInt32} (small : (samples.map UInt32.toNat).sum < 2 ^ 31) : Below rateValue samples := by
  refine below_of_sum (fun x _ => Nat.cast_nonneg _) ?_
  rw [sum_rateValue]
  exact_mod_cast small

/-- Three seconds with requests, one without. -/
def seconds : List Call :=
  [.sustainedRate 3, .attainedRate 3, .latency 5 2, .sustainedRate 0, .attainedRate 0, .sustainedRate 7, .attainedRate 7,
    .latency 9 3, .sustainedRate 4, .attainedRate 4, .latency 6 4]

theorem average_latency_call {sum count : UInt32} (served : sum ≠ 0 ∧ count ≠ 0) (positive : (0 : ℚ) < sum.toNat / count.toNat) :
    Call.average ℚ (.latency sum count) = some (sum.toNat / count.toNat : ℚ) :=
  if_pos ⟨served.1, served.2, decide_eq_true positive⟩

theorem averages_published_iff_seconds :
    ∃ after : WebserverStatus ℚ, seconds.foldlM WebserverStatus.call {} = some after ∧ Published seconds after := by
  have sustained : seconds.filterMap Call.sustained = [3, 0, 7, 4] := by decide
  have attained : seconds.filterMap Call.attained = [3, 7, 4] := by decide
  have latency : seconds.filterMap (Call.average ℚ) = [5 / 2, 9 / 3, 6 / 4] := by
    have first : Call.average ℚ (.latency 5 2) = some (5 / 2) := average_latency_call (by decide) (by norm_num [UInt32.toNat_ofNat])
    have second : Call.average ℚ (.latency 9 3) = some (9 / 3) := average_latency_call (by decide) (by norm_num [UInt32.toNat_ofNat])
    have third : Call.average ℚ (.latency 6 4) = some (6 / 4) := average_latency_call (by decide) (by norm_num [UInt32.toNat_ofNat])
    simp only [seconds, List.filterMap_cons, first, second, third, List.filterMap_nil]
    rfl
  have bounded : Bounded seconds := by
    constructor
    · rw [sustained]
      exact below_rates (by decide)
    · rw [attained]
      exact below_rates (by decide)
    · rw [latency]
      exact below_of_sum (by norm_num) (by norm_num)
  obtain ⟨after, ran, published⟩ := averages_published_iff seconds bounded
  exact ⟨after, ran, published.mpr (quotientsAgree_of_length_le (by rw [attained]; decide))⟩

/-- After 301 seconds of one request each, the rate of five minutes is published as 0. -/
theorem attained_rate_not_published :
    ¬ ∀ (calls : List Call) (after : WebserverStatus ℚ), Bounded calls →
      calls.foldlM WebserverStatus.call {} = some after → Published calls after := by
  intro always
  obtain ⟨after, ran, slide, computed⟩ := run_computed (List.replicate 301 (.attainedRate 1))
  have sustained : (List.replicate 301 (Call.attainedRate 1)).filterMap Call.sustained = [] :=
    List.filterMap_replicate_of_none rfl
  have attained : (List.replicate 301 (Call.attainedRate 1)).filterMap Call.attained = List.replicate 301 1 :=
    List.filterMap_replicate_of_some rfl
  have latency : (List.replicate 301 (Call.attainedRate 1)).filterMap (Call.average ℚ) = [] :=
    List.filterMap_replicate_of_none rfl
  have bounded : Bounded (List.replicate 301 (.attainedRate 1)) := by
    constructor
    · rw [sustained]
      exact below_rates (by decide)
    · rw [attained]
      exact below_rates (by decide +kernel)
    · rw [latency]
      exact below_of_sum (List.forall_mem_nil _) (by norm_num)
  have agree := (published_iff bounded slide computed).mp (always _ after bounded ran)
  rw [attained] at agree
  have total : ((Window.latest 300 (List.replicate 301 (1 : UInt32))).map UInt32.toNat).sum = 300 := by
    rw [latest_replicate, List.map_replicate, List.sum_replicate]
    rfl
  unfold QuotientsAgree at agree
  rw [total, List.length_replicate] at agree
  exact absurd agree (by decide)

end WebserverStatus
end LibWebserver
