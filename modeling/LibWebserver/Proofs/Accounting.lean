import LibWebserver.Proofs.Sampling
import Mathlib.Algebra.BigOperators.Group.List.Basic
import Mathlib.Data.List.Count
import Mathlib.Data.Nat.Cast.Order.Basic

/-! The traffic and the responses counted by code. The traffic is one atomic variable and
exact. An increment of `http_served_` is a load and a store, so that two of one code may
count once; none counts twice. -/

namespace LibWebserver.Sampling
open Refinement

/-- The traffic of the call has been added. -/
def reported (request : ServedRequest) : Bool :=
  match request.stage with
  | .load | .store _ | .traffic => false
  | _ => true

/-- The call has stored its increment. -/
def stored (code : HttpCode) (request : ServedRequest) : Bool :=
  match request.stage with
  | .load | .store _ => false
  | _ => request.code = code

/-- The call has loaded the count and not stored it yet. -/
def storing (code : HttpCode) (request : ServedRequest) : Bool :=
  match request.stage with
  | .store _ => request.code = code
  | _ => false

variable (sampling : Sampling)

def traffic : UInt64 := ((sampling.served.filter reported).map (·.length)).sum

def entered (code : HttpCode) : Nat := sampling.served.countP (stored code)

/-- What has been added up so far is at most what was stored by now. -/
def Totalled : Prop :=
  match sampling.tick with
  | .requests rest => ∃ done, done ++ rest = HttpCode.all ∧
      sampling.totalServedRequests.toNat ≤ (done.map sampling.entered).sum
  | _ => sampling.totalServedRequests.toNat ≤ (HttpCode.all.map sampling.entered).sum

/-- No call loads a count that another one is about to store. -/
def Apart : Move → Prop
  | .advance i => ∀ request ∈ sampling.served[i]?, request.stage = .load → sampling.served.countP (storing request.code) = 0
  | _ => True

/-- A call is about to store a count that misses a response. -/
def Stale (code : HttpCode) : Prop :=
  ∃ request ∈ sampling.served, ∃ n, request.stage = .store n ∧ request.code = code ∧ n.toNat < sampling.entered code

/-- A response is missing, and from every count that was loaded too. -/
structure Lost (code : HttpCode) : Prop where
  count : (sampling.httpServed code).toNat < sampling.entered code
  loaded : ∀ request ∈ sampling.served, ∀ n, request.stage = .store n → request.code = code → n.toNat < sampling.entered code

/-- Two calls have loaded the same count: a response is missing or will be. -/
inductive Overlapped (code : HttpCode) : Prop where
  | twice (storing : 2 ≤ sampling.served.countP (storing code))
  | stale (stale : Stale sampling code)
  | lost (lost : Lost sampling code)

/-- Every increment is counted. -/
structure Exact : Prop where
  served : ∀ code, sampling.httpServed code = UInt64.ofNat (sampling.entered code)
  one : ∀ code, sampling.served.countP (storing code) ≤ 1
  loaded : ∀ request ∈ sampling.served, ∀ n, request.stage = .store n → n = sampling.httpServed request.code

variable {sampling} {i : Nat} {request : ServedRequest} {move : Move}

theorem goOn_split (found : sampling.served[i]? = some request) (stage : Serving) :
    ∃ rest, sampling.served.Perm (request :: rest) ∧
      (sampling.goOn i request stage).served.Perm ({ request with stage } :: rest) := by
  obtain ⟨bound, rfl⟩ := List.getElem?_eq_some_iff.mp found
  exact ⟨sampling.served.eraseIdx i, (List.getElem_cons_eraseIdx_perm bound).symm, List.set_perm_cons_eraseIdx bound _⟩

theorem goOn_countP (found : sampling.served[i]? = some request) (stage : Serving) (p : ServedRequest → Bool) :
    (sampling.goOn i request stage).served.countP p + (if p request then 1 else 0) =
      sampling.served.countP p + if p { request with stage } then 1 else 0 := by
  obtain ⟨rest, before, after⟩ := goOn_split found stage
  rw [before.countP_eq, after.countP_eq, List.countP_cons, List.countP_cons]
  omega

theorem mem_goOn {stage : Serving} {other : ServedRequest} (member : other ∈ (sampling.goOn i request stage).served) :
    other ∈ sampling.served ∨ other = { request with stage } := List.mem_or_eq_of_mem_set member

/-- What a step of a call does to the counts and the traffic. -/
inductive Effect (sampling : Sampling) (i : Nat) (request : ServedRequest) (after : Sampling) : Prop where
  | load (stage : request.stage = .load)
      (served : after.served = (sampling.goOn i request (.store (sampling.httpServed request.code))).served)
      (counts : after.httpServed = sampling.httpServed) (traffic : after.trafficOut = sampling.trafficOut)
  | store {n : UInt64} (stage : request.stage = .store n) (served : after.served = (sampling.goOn i request .traffic).served)
      (counts : after.httpServed = Function.update sampling.httpServed request.code (n + 1))
      (traffic : after.trafficOut = sampling.trafficOut)
  | report {next : Serving} (stage : request.stage = .traffic) (later : reported { request with stage := next } = true)
      (served : after.served = (sampling.goOn i request next).served)
      (counts : after.httpServed = sampling.httpServed) (traffic : after.trafficOut = sampling.trafficOut + request.length)
  | other {next : Serving} (past : reported request = true) (later : reported { request with stage := next } = true)
      (served : after.served = (sampling.goOn i request next).served)
      (counts : after.httpServed = sampling.httpServed) (traffic : after.trafficOut = sampling.trafficOut)

theorem servedRequest_effect (found : sampling.served[i]? = some request) :
    Effect sampling i request (sampling.servedRequest i request) := by
  obtain ⟨next, follows, served⟩ := servedRequest_follows found
  obtain ⟨code, length, latency, stage⟩ := request
  cases stage with
  | load => exact .load rfl rfl rfl rfl
  | store n => exact .store rfl rfl rfl rfl
  | traffic =>
    cases latency with
    | none => exact @Effect.report _ _ _ _ .done rfl rfl rfl rfl rfl
    | some latency => exact @Effect.report _ _ _ _ .sum rfl rfl rfl rfl rfl
  | sum | count | rate | testLatency | testRate | maximum | done =>
    refine @Effect.other _ _ _ _ next rfl ?_ served ?_ ?_
    · cases follows <;> rfl
    · cases latency <;> rfl
    · cases latency <;> rfl

theorem stored_of_reported {code : HttpCode} (past : reported request = true) :
    stored code request = decide (request.code = code) := by
  obtain ⟨own, length, latency, stage⟩ := request
  cases stage <;> first | rfl | cases past

theorem storing_of_reported {code : HttpCode} (past : reported request = true) : storing code request = false := by
  obtain ⟨own, length, latency, stage⟩ := request
  cases stage <;> first | rfl | cases past

variable {after : Sampling}

/-- Only a store enters a call. -/
theorem Effect.entered (found : sampling.served[i]? = some request) (effect : Effect sampling i request after)
    (code : HttpCode) :
    after.entered code = sampling.entered code + if storing code request then 1 else 0 := by
  obtain ⟨own, length, latency, stage⟩ := request
  unfold Sampling.entered
  cases effect with
  | load same served =>
    have counts := goOn_countP found (.store (sampling.httpServed own)) (stored code)
    cases same
    rw [served]
    exact counts
  | store same served =>
    have counts := goOn_countP found .traffic (stored code)
    cases same
    rw [served]
    exact counts
  | @report next same later served =>
    have counts := goOn_countP found next (stored code)
    cases same
    rw [stored_of_reported later] at counts
    rw [served]
    exact Nat.add_right_cancel counts
  | @other next past later served =>
    have counts := goOn_countP found next (stored code)
    rw [stored_of_reported later, stored_of_reported past] at counts
    rw [served, storing_of_reported past]
    exact Nat.add_right_cancel counts

theorem Effect.entered_le (found : sampling.served[i]? = some request) (effect : Effect sampling i request after)
    (code : HttpCode) : sampling.entered code ≤ after.entered code := by
  rw [effect.entered found]
  exact Nat.le_add_right _ _

theorem traffic_eq {other : Sampling} (served : sampling.served = other.served) : sampling.traffic = other.traffic := by
  rw [traffic, traffic, served]

theorem Effect.reports (found : sampling.served[i]? = some request) (effect : Effect sampling i request after)
    (whole : sampling.trafficOut = sampling.traffic) : after.trafficOut = after.traffic := by
  have sums (stage : Serving) : ∃ rest : UInt64,
      sampling.traffic = (if reported request then request.length else 0) + rest ∧
      (sampling.goOn i request stage).traffic =
        (if reported { request with stage } then request.length else 0) + rest := by
    obtain ⟨rest, before, later⟩ := goOn_split found stage
    refine ⟨((rest.filter reported).map (·.length)).sum, ?_, ?_⟩
    · rw [Sampling.traffic, ((before.filter reported).map _).sum_eq, List.filter_cons]
      split <;> simp
    · rw [Sampling.traffic, ((later.filter reported).map _).sum_eq, List.filter_cons]
      split <;> simp
  cases effect with
  | load same served _ bytes =>
    have fresh : reported request = false := by rw [reported, same]
    obtain ⟨rest, before, later⟩ := sums (.store (sampling.httpServed request.code))
    have next : reported { request with stage := .store (sampling.httpServed request.code) } = false := rfl
    rw [bytes, whole, traffic_eq served, before, later, fresh, next]
  | store same served _ bytes =>
    have fresh : reported request = false := by rw [reported, same]
    obtain ⟨rest, before, later⟩ := sums .traffic
    have next : reported { request with stage := .traffic } = false := rfl
    rw [bytes, whole, traffic_eq served, before, later, fresh, next]
  | report same past served _ bytes =>
    have fresh : reported request = false := by rw [reported, same]
    obtain ⟨rest, before, later⟩ := sums _
    rw [bytes, whole, traffic_eq served, before, later, fresh, past, if_pos rfl, if_neg Bool.false_ne_true, zero_add,
      add_comm]
  | other past later' served _ bytes =>
    obtain ⟨rest, before, later⟩ := sums _
    rw [bytes, whole, traffic_eq served, before, later, past, later']

theorem toNat_succ_le (n : UInt64) : (n + 1).toNat ≤ n.toNat + 1 := by
  rw [UInt64.toNat_add]
  exact Nat.mod_le _ _

theorem storing_of_store {n : UInt64} {code : HttpCode} (stage : request.stage = .store n) :
    storing code request = decide (request.code = code) := by
  rw [storing, stage]

/-- A tick looks at the counts only. -/
structure Alike (sampling after : Sampling) : Prop where
  served : after.served = sampling.served
  counts : after.httpServed = sampling.httpServed
  traffic : after.trafficOut = sampling.trafficOut

theorem run_alike (countFirst : Bool) : Alike sampling (sampling.run countFirst) := by
  unfold Sampling.run
  split <;> exact ⟨rfl, rfl, rfl⟩

theorem Alike.entered (alike : Alike sampling after) : after.entered = sampling.entered := by
  funext code
  rw [Sampling.entered, alike.served]
  rfl

/-- The counts are at most the stores; so is what has been loaded. -/
def Undercounted (sampling : Sampling) : Prop :=
  (∀ code, (sampling.httpServed code).toNat ≤ sampling.entered code) ∧
    ∀ request ∈ sampling.served, ∀ n, request.stage = .store n → n.toNat ≤ sampling.entered request.code

theorem Effect.undercounted (found : sampling.served[i]? = some request) (effect : Effect sampling i request after)
    (undercounted : Undercounted sampling) : Undercounted after := by
  obtain ⟨counts, loaded⟩ := undercounted
  have grows := effect.entered_le found
  have entered := effect.entered found
  have kept {next : Serving} (served : after.served = (sampling.goOn i request next).served)
      (own : ∀ n, next = .store n → n.toNat ≤ sampling.entered request.code) :
      ∀ other ∈ after.served, ∀ n, other.stage = .store n → n.toNat ≤ after.entered other.code := by
    intro other member n stage
    rcases mem_goOn (served ▸ member) with old | rfl
    · exact (loaded other old n stage).trans (grows _)
    · exact (own n stage).trans (grows _)
  cases effect with
  | load stage served same _ =>
    refine ⟨fun code => ?_, kept served fun n loads => ?_⟩
    · rw [same]
      exact (counts code).trans (grows code)
    · cases loads
      exact counts request.code
  | @store n stage served same _ =>
    refine ⟨fun code => ?_, kept served nofun⟩
    rw [same, entered, storing_of_store stage]
    by_cases own : request.code = code
    · subst own
      rw [Function.update_self, decide_eq_true rfl, if_pos rfl]
      exact (toNat_succ_le n).trans (Nat.succ_le_succ (loaded request (List.mem_of_getElem? found) n stage))
    · rw [Function.update_of_ne (Ne.symm own)]
      exact (counts code).trans (Nat.le_add_right _ _)
  | @report next stage later served same _ =>
    refine ⟨fun code => ?_, kept served fun n loads => ?_⟩
    · rw [same]
      exact (counts code).trans (grows code)
    · rw [loads] at later
      cases later
  | @other next past later served same _ =>
    refine ⟨fun code => ?_, kept served fun n loads => ?_⟩
    · rw [same]
      exact (counts code).trans (grows code)
    · rw [loads] at later
      cases later

/-- A call that loads the count when no other is about to store it. -/
theorem Exact.load (exact : Exact sampling) (found : sampling.served[i]? = some request) (stage : request.stage = .load)
    (apart : sampling.served.countP (storing request.code) = 0)
    (entered : ∀ code, after.entered code = sampling.entered code + if storing code request then 1 else 0)
    (served : after.served = (sampling.goOn i request (.store (sampling.httpServed request.code))).served)
    (same : after.httpServed = sampling.httpServed) : Exact after := by
  obtain ⟨counts, one, loaded⟩ := exact
  have was (code : HttpCode) : storing code request = false := by rw [storing, stage]
  refine ⟨fun code => ?_, fun code => ?_, fun other member n store => ?_⟩
  · rw [same, entered, was]
    exact counts code
  · have sums := goOn_countP found (.store (sampling.httpServed request.code)) (storing code)
    rw [was, storing_of_store rfl] at sums
    rw [served]
    by_cases own : request.code = code
    · subst own
      rw [apart, decide_eq_true rfl] at sums
      exact sums.le
    · rw [decide_eq_false own] at sums
      rw [Nat.add_right_cancel sums]
      exact one code
  · rw [same]
    rcases mem_goOn (served ▸ member) with old | rfl
    · exact loaded other old n store
    · cases store
      rfl

/-- A call that stores its increment was the only one that had loaded the count. -/
theorem Exact.store {n : UInt64} (exact : Exact sampling) (found : sampling.served[i]? = some request)
    (stage : request.stage = .store n)
    (entered : ∀ code, after.entered code = sampling.entered code + if storing code request then 1 else 0)
    (served : after.served = (sampling.goOn i request .traffic).served)
    (same : after.httpServed = Function.update sampling.httpServed request.code (n + 1)) : Exact after := by
  obtain ⟨counts, one, loaded⟩ := exact
  have was (code : HttpCode) := @storing_of_store request n code stage
  have sums (code : HttpCode) := goOn_countP found .traffic (storing code)
  refine ⟨fun code => ?_, fun code => ?_, fun other member m store => ?_⟩
  · rw [same, entered, was]
    by_cases own : request.code = code
    · subst own
      rw [Function.update_self, loaded request (List.mem_of_getElem? found) n stage, counts, decide_eq_true rfl, if_pos rfl,
        UInt64.ofNat_add]
      rfl
    · rw [Function.update_of_ne (Ne.symm own), decide_eq_false own]
      exact counts code
  · rw [served]
    exact (Nat.le_add_right _ _).trans ((sums code).le.trans (one code))
  · have alone : after.served.countP (storing request.code) = 0 := by
      have total := sums request.code
      rw [was, decide_eq_true rfl, if_pos rfl] at total
      rw [served]
      exact Nat.le_zero.mp (Nat.le_of_succ_le_succ (total.le.trans (one request.code)))
    have other_code : other.code ≠ request.code := by
      intro own
      have none := List.countP_eq_zero.mp alone other member
      rw [storing_of_store store] at none
      exact none (decide_eq_true own)
    rw [same, Function.update_of_ne other_code]
    rcases mem_goOn (served ▸ member) with old | rfl
    · exact loaded other old m store
    · cases store

/-- A call that is past its store changes no count. -/
theorem Exact.past {next : Serving} (exact : Exact sampling) (found : sampling.served[i]? = some request)
    (was : ∀ code, storing code request = false) (is : ∀ code, storing code { request with stage := next } = false)
    (entered : ∀ code, after.entered code = sampling.entered code + if storing code request then 1 else 0)
    (served : after.served = (sampling.goOn i request next).served) (same : after.httpServed = sampling.httpServed) :
    Exact after := by
  obtain ⟨counts, one, loaded⟩ := exact
  refine ⟨fun code => ?_, fun code => ?_, fun other member n stage => ?_⟩
  · rw [same, entered, was]
    exact counts code
  · have sums := goOn_countP found next (storing code)
    rw [was, is] at sums
    rw [served, Nat.add_right_cancel sums]
    exact one code
  · rw [same]
    rcases mem_goOn (served ▸ member) with old | rfl
    · exact loaded other old n stage
    · have storing := @storing_of_store { request with stage := next } n request.code stage
      rw [is, decide_eq_true rfl] at storing
      cases storing

theorem Effect.exact (found : sampling.served[i]? = some request) (effect : Effect sampling i request after)
    (apart : request.stage = .load → sampling.served.countP (storing request.code) = 0) (exact : Exact sampling) :
    Exact after := by
  have entered := effect.entered found
  cases effect with
  | load stage served same _ => exact exact.load found stage (apart stage) entered served same
  | store stage served same _ => exact exact.store found stage entered served same
  | report stage later served same _ =>
    exact exact.past found (fun code => by rw [storing, stage]) (fun code => storing_of_reported later) entered served same
  | other before later served same _ =>
    exact exact.past found (fun code => storing_of_reported before) (fun code => storing_of_reported later) entered served same

theorem Effect.lost_of_store {n : UInt64} (found : sampling.served[i]? = some request)
    (effect : Effect sampling i request after) (undercounted : Undercounted sampling) (stage : request.stage = .store n)
    (misses : n.toNat < sampling.entered request.code) : Lost after request.code := by
  have entered := effect.entered found request.code
  rw [storing_of_store stage, decide_eq_true rfl, if_pos rfl] at entered
  cases effect with
  | load other => rw [stage] at other; cases other
  | report other => rw [stage] at other; cases other
  | other past => rw [reported, stage] at past; cases past
  | @store m same served counts _ =>
    cases stage.symm.trans same
    refine ⟨?_, fun other member m store own => ?_⟩
    · rw [counts, Function.update_self, entered]
      exact Nat.lt_succ_of_le ((toNat_succ_le n).trans misses)
    · rw [entered]
      rcases mem_goOn (served ▸ member) with old | rfl
      · exact Nat.lt_succ_of_le (own ▸ undercounted.2 other old m store)
      · cases store

theorem Effect.lost {code : HttpCode} (found : sampling.served[i]? = some request)
    (effect : Effect sampling i request after) (undercounted : Undercounted sampling) (lost : Lost sampling code) :
    Lost after code := by
  obtain ⟨count, loaded⟩ := lost
  have grows := effect.entered_le found code
  have kept {next : Serving} (served : after.served = (sampling.goOn i request next).served)
      (own : ∀ n, next = .store n → request.code = code → n.toNat < sampling.entered code) :
      ∀ other ∈ after.served, ∀ n, other.stage = .store n → other.code = code → n.toNat < after.entered code := by
    intro other member n stage same
    rcases mem_goOn (served ▸ member) with old | rfl
    · exact (loaded other old n stage same).trans_le grows
    · exact (own n stage same).trans_le grows
  cases effect with
  | load stage served same _ =>
    refine ⟨same ▸ count.trans_le grows, kept served fun n loads own => ?_⟩
    cases loads
    exact own ▸ count
  | @store n stage served same bytes =>
    by_cases own : request.code = code
    · subst own
      have misses := loaded request (List.mem_of_getElem? found) n stage rfl
      exact (Effect.store stage served same bytes).lost_of_store found undercounted stage misses
    · refine ⟨?_, kept served nofun⟩
      rw [same, Function.update_of_ne (Ne.symm own)]
      exact count.trans_le grows
  | report stage later served same _ =>
    refine ⟨same ▸ count.trans_le grows, kept served fun n loads _ => ?_⟩
    rw [loads] at later
    cases later
  | other past later served same _ =>
    refine ⟨same ▸ count.trans_le grows, kept served fun n loads _ => ?_⟩
    rw [loads] at later
    cases later

theorem Effect.stale {code : HttpCode} (found : sampling.served[i]? = some request)
    (effect : Effect sampling i request after) (undercounted : Undercounted sampling) (stale : Stale sampling code) :
    Overlapped after code := by
  obtain ⟨other, member, n, stage, rfl, misses⟩ := stale
  have grows := effect.entered_le found other.code
  obtain ⟨next, served⟩ : ∃ next, after.served = (sampling.goOn i request next).served := by
    cases effect with
    | load _ served => exact ⟨_, served⟩
    | store _ served => exact ⟨_, served⟩
    | report _ _ served => exact ⟨_, served⟩
    | other _ _ served => exact ⟨_, served⟩
  obtain ⟨rest, before, later⟩ := goOn_split found next
  rcases List.mem_cons.mp (before.mem_iff.mp member) with rfl | member
  · exact .lost (effect.lost_of_store found undercounted stage misses)
  · refine .stale ⟨other, ?_, n, stage, rfl, misses.trans_le grows⟩
    rw [served, later.mem_iff]
    exact List.mem_cons_of_mem _ member

theorem exists_storing {code : HttpCode} {served : List ServedRequest} (some : 0 < served.countP (storing code)) :
    ∃ request ∈ served, ∃ n, request.stage = .store n ∧ request.code = code := by
  obtain ⟨request, member, holds⟩ := List.countP_pos_iff.mp some
  refine ⟨request, member, ?_⟩
  unfold storing at holds
  split at holds
  next n stage => exact ⟨n, stage, of_decide_eq_true holds⟩
  next => cases holds

theorem Effect.twice {code : HttpCode} (found : sampling.served[i]? = some request)
    (effect : Effect sampling i request after) (undercounted : Undercounted sampling)
    (twice : 2 ≤ sampling.served.countP (storing code)) : Overlapped after code := by
  have entered := effect.entered found code
  have kept {next : Serving} (was : storing code request = false)
      (served : after.served = (sampling.goOn i request next).served) : Overlapped after code := by
    have sums := goOn_countP found next (storing code)
    rw [was] at sums
    refine .twice ?_
    rw [served]
    exact twice.trans ((Nat.le_add_right _ _).trans sums.ge)
  cases effect with
  | load stage served => exact kept (by rw [storing, stage]) served
  | report stage _ served => exact kept (by rw [storing, stage]) served
  | other past _ served => exact kept (storing_of_reported past) served
  | @store n stage served _ _ =>
    have was := @storing_of_store request n code stage
    by_cases own : request.code = code
    · have sums := goOn_countP found .traffic (storing code)
      rw [was, decide_eq_true own, if_pos rfl] at sums entered
      have left : 0 < (sampling.goOn i request .traffic).served.countP (storing code) :=
        Nat.lt_of_succ_le (Nat.le_of_succ_le_succ (twice.trans sums.ge))
      obtain ⟨other, member, m, store, rfl⟩ := exists_storing left
      refine .stale ⟨other, served ▸ member, m, store, rfl, ?_⟩
      rw [entered]
      rcases mem_goOn member with old | rfl
      · exact Nat.lt_succ_of_le (undercounted.2 other old m store)
      · cases store
    · exact kept (was.trans (decide_eq_false own)) served

theorem Overlapped.effect {code : HttpCode} (overlapped : Overlapped sampling code)
    (found : sampling.served[i]? = some request) (effect : Effect sampling i request after)
    (undercounted : Undercounted sampling) : Overlapped after code := by
  cases overlapped with
  | twice twice => exact effect.twice found undercounted twice
  | stale stale => exact effect.stale found undercounted stale
  | lost lost => exact .lost (effect.lost found undercounted lost)

/-- A call that loads a count another one is about to store. -/
theorem Effect.overlaps (found : sampling.served[i]? = some request) (effect : Effect sampling i request after)
    (stage : request.stage = .load) (other : sampling.served.countP (storing request.code) ≠ 0) :
    Overlapped after request.code := by
  have sums := goOn_countP found (.store (sampling.httpServed request.code)) (storing request.code)
  have was : storing request.code request = false := by rw [storing, stage]
  have is : storing request.code { request with stage := .store (sampling.httpServed request.code) } = true :=
    decide_eq_true rfl
  rw [was, is, if_pos rfl] at sums
  cases effect with
  | load _ served =>
    refine .twice ?_
    rw [served]
    exact (Nat.succ_le_succ (Nat.pos_of_ne_zero other)).trans sums.ge
  | store same => rw [stage] at same; cases same
  | report same => rw [stage] at same; cases same
  | other past => rw [reported, stage] at past; cases past

theorem entered_serve (code : HttpCode) (length : UInt64) (latency : Option UInt32) :
    (sampling.step (.serve code length latency)).entered = sampling.entered := by
  funext other
  exact (List.countP_append).trans (Nat.add_zero _)

theorem servedRequest_total (i : Nat) (request : ServedRequest) :
    (sampling.servedRequest i request).totalServedRequests = sampling.totalServedRequests := by
  obtain ⟨code, length, latency, stage⟩ := request
  cases stage <;> cases latency <;> rfl

theorem sum_entered_le (grows : ∀ code, sampling.entered code ≤ after.entered code) (codes : List HttpCode) :
    (codes.map sampling.entered).sum ≤ (codes.map after.entered).sum := by
  induction codes with
  | nil => exact Nat.le_refl _
  | cons code codes ih =>
    rw [List.map_cons, List.map_cons, List.sum_cons, List.sum_cons]
    exact Nat.add_le_add (grows code) ih

theorem Totalled.grows (totalled : sampling.Totalled) (tick : after.tick = sampling.tick)
    (total : after.totalServedRequests = sampling.totalServedRequests)
    (grows : ∀ code, sampling.entered code ≤ after.entered code) : after.Totalled := by
  unfold Totalled at totalled ⊢
  rw [tick, total]
  split
  next rest same =>
    rw [same] at totalled
    obtain ⟨done, split, bound⟩ := totalled
    exact ⟨done, split, bound.trans (sum_entered_le grows done)⟩
  next other =>
    split at totalled
    next rest same => exact absurd same (other rest)
    next => exact totalled.trans (sum_entered_le grows _)

theorem Totalled.tick (totalled : sampling.Totalled) (undercounted : Undercounted sampling) (countFirst : Bool) :
    (sampling.run countFirst).Totalled := by
  have entered := (@run_alike sampling countFirst).entered
  unfold Totalled at totalled ⊢
  rw [entered]
  cases tick : sampling.tick with
  | clear =>
    simp only [Sampling.run, tick]
    exact ⟨[], rfl, Nat.le_refl _⟩
  | requests rest =>
    rw [tick] at totalled
    obtain ⟨done, split, bound⟩ := totalled
    cases rest with
    | nil =>
      rw [List.append_nil] at split
      simp only [Sampling.run, tick]
      rw [← split]
      exact bound
    | cons code rest =>
      simp only [Sampling.run, tick]
      refine ⟨done ++ [code], by rw [List.append_assoc]; exact split, ?_⟩
      have one := undercounted.1 code
      rw [List.map_append, List.sum_append, List.map_singleton, List.sum_singleton, UInt64.toNat_add]
      exact (Nat.mod_le _ _).trans (Nat.add_le_add bound one)
  | testSum =>
    rw [tick] at totalled
    simp only [Sampling.run, tick]
    by_cases some : sampling.fastLatencySum ≠ 0
    · rw [if_pos some]
      exact totalled
    · rw [if_neg some]
      exact totalled
  | testCount =>
    rw [tick] at totalled
    simp only [Sampling.run, tick]
    by_cases some : sampling.fastLatencyCount ≠ 0
    · rw [if_pos some]
      exact totalled
    · rw [if_neg some]
      exact totalled
  | average =>
    rw [tick] at totalled
    simp only [Sampling.run, tick]
    cases countFirst <;> exact totalled
  | rate | subtract | maximum | sustained | attained | count | sum | resetSum | resetCount | latency =>
    rw [tick] at totalled
    simp only [Sampling.run, tick]
    exact totalled

/-- What holds in any order of steps. -/
structure Tallied (sampling : Sampling) : Prop where
  traffic : sampling.trafficOut = sampling.traffic
  counts : Undercounted sampling
  total : sampling.Totalled

theorem Tallied.step (tallied : Tallied sampling) (move : Move) : Tallied (sampling.step move) := by
  obtain ⟨traffic, counts, total⟩ := tallied
  cases move with
  | serve code length latency =>
    have entered := @entered_serve sampling code length latency
    refine ⟨?_, ⟨?_, ?_⟩, total.grows rfl rfl fun code => by rw [entered]⟩
    · have same : (sampling.step (.serve code length latency)).traffic = sampling.traffic := by
        simp [Sampling.traffic, Sampling.step, reported]
      rw [same]
      exact traffic
    · rw [entered]
      exact counts.1
    · intro request member n stage
      rw [entered]
      rcases List.mem_append.mp member with member | member
      · exact counts.2 request member n stage
      · rw [List.mem_singleton.mp member] at stage
        cases stage
  | advance i =>
    unfold Sampling.step
    dsimp only
    split
    next => exact ⟨traffic, counts, total⟩
    next request found =>
      have effect := servedRequest_effect found
      exact ⟨effect.reports found traffic, effect.undercounted found counts,
        total.grows (servedRequest_tick _ i request) (servedRequest_total i request) (effect.entered_le found)⟩
  | tick countFirst =>
    have alike := @run_alike sampling countFirst
    refine ⟨?_, ⟨?_, ?_⟩, total.tick counts countFirst⟩
    · exact alike.traffic.trans (traffic.trans (traffic_eq alike.served).symm)
    · intro code
      rw [show (sampling.step (.tick countFirst)).httpServed = _ from alike.counts,
        show (sampling.step (.tick countFirst)).entered = _ from alike.entered]
      exact counts.1 code
    · rw [show (sampling.step (.tick countFirst)).entered = _ from alike.entered,
        show (sampling.step (.tick countFirst)).served = _ from alike.served]
      exact counts.2

theorem Exact.step (exact : Exact sampling) (apart : Apart sampling move) : Exact (sampling.step move) := by
  cases move with
  | serve code length latency =>
    obtain ⟨counts, one, loaded⟩ := exact
    refine ⟨fun other => ?_, fun other => ?_, fun request member n stage => ?_⟩
    · rw [entered_serve]
      exact counts other
    · exact (List.countP_append.trans (Nat.add_zero _)).trans_le (one other)
    · rcases List.mem_append.mp member with member | member
      · exact loaded request member n stage
      · rw [List.mem_singleton.mp member] at stage
        cases stage
  | advance i =>
    unfold Sampling.step
    dsimp only
    split
    next => exact exact
    next request found => exact (servedRequest_effect found).exact found (apart request found) exact
  | tick countFirst =>
    have alike := @run_alike sampling countFirst
    obtain ⟨counts, one, loaded⟩ := exact
    refine ⟨fun code => ?_, ?_, ?_⟩
    · rw [show (sampling.step (.tick countFirst)).httpServed = _ from alike.counts,
        show (sampling.step (.tick countFirst)).entered = _ from alike.entered]
      exact counts code
    · rw [show (sampling.step (.tick countFirst)).served = _ from alike.served]
      exact one
    · rw [show (sampling.step (.tick countFirst)).served = _ from alike.served,
        show (sampling.step (.tick countFirst)).httpServed = _ from alike.counts]
      exact loaded

theorem tallied_reached (moves : List Move) : Tallied (reached moves) :=
  List.foldlRecOn moves step ⟨rfl, ⟨fun _ => Nat.le_refl _, nofun⟩, Nat.le_refl _⟩
    fun _ tallied move _ => tallied.step move

/-- In any order of steps the traffic is that of the calls that are past it, no response
counts twice, and a tick that is not adding up shows at most the responses stored by then. -/
theorem tallies (moves : List Move) :
    (reached moves).trafficOut = (reached moves).traffic ∧
    (∀ code, ((reached moves).httpServed code).toNat ≤ (reached moves).entered code) ∧
    (reached moves).Totalled := by
  obtain ⟨traffic, counts, total⟩ := tallied_reached moves
  exact ⟨traffic, counts.1, total⟩

theorem Overlapped.step {code : HttpCode} (overlapped : Overlapped sampling code) (undercounted : Undercounted sampling)
    (move : Move) : Overlapped (sampling.step move) code := by
  cases move with
  | serve own length latency =>
    have entered := congrFun (@entered_serve sampling own length latency) code
    have pending : (sampling.step (.serve own length latency)).served.countP (storing code) =
        sampling.served.countP (storing code) := List.countP_append.trans (Nat.add_zero _)
    have member {request : ServedRequest} {n : UInt64}
        (member : request ∈ (sampling.step (.serve own length latency)).served) (stage : request.stage = .store n) :
        request ∈ sampling.served := by
      rcases List.mem_append.mp member with member | member
      · exact member
      · rw [List.mem_singleton.mp member] at stage
        cases stage
    cases overlapped with
    | twice twice => exact .twice (pending ▸ twice)
    | stale stale =>
      obtain ⟨request, old, n, stage, same, misses⟩ := stale
      exact .stale ⟨request, List.mem_append_left _ old, n, stage, same, entered ▸ misses⟩
    | lost lost =>
      refine .lost ⟨entered ▸ lost.count, fun request inside n stage same => ?_⟩
      rw [entered]
      exact lost.loaded request (member inside stage) n stage same
  | advance i =>
    unfold Sampling.step
    dsimp only
    split
    next => exact overlapped
    next request found => exact overlapped.effect found (servedRequest_effect found) undercounted
  | tick countFirst =>
    have alike := @run_alike sampling countFirst
    have served : (sampling.step (.tick countFirst)).served = sampling.served := alike.served
    have counts : (sampling.step (.tick countFirst)).httpServed = sampling.httpServed := alike.counts
    have entered : (sampling.step (.tick countFirst)).entered = sampling.entered := alike.entered
    cases overlapped with
    | twice twice => exact .twice (served ▸ twice)
    | stale stale =>
      refine .stale ?_
      rw [Stale, served, entered]
      exact stale
    | lost lost =>
      refine .lost ⟨?_, ?_⟩
      · rw [counts, entered]
        exact lost.count
      · rw [served, entered]
        exact lost.loaded

theorem overlaps (apart : ¬ Apart sampling move) : ∃ code, Overlapped (sampling.step move) code := by
  cases move with
  | serve | tick => exact absurd trivial apart
  | advance i =>
    unfold Apart at apart
    push Not at apart
    obtain ⟨request, found, stage, other⟩ := apart
    have found : sampling.served[i]? = some request := found
    unfold Sampling.step
    dsimp only
    rw [found]
    exact ⟨request.code, (servedRequest_effect found).overlaps found stage other⟩

/-- Every step of a run is apart, or the run ends with a response missing or to be
missed. -/
theorem apart_or_overlapped (sampling : Sampling) (moves : List Move) (tallied : Tallied sampling) :
    Along (fun sampling move => some (sampling.step move)) Apart sampling moves ∨
      ∃ code, Overlapped (moves.foldl step sampling) code := by
  have lasts {sampling : Sampling} {code : HttpCode} (tallied : Tallied sampling)
      (overlapped : Overlapped sampling code) (moves : List Move) : Overlapped (moves.foldl step sampling) code := by
    induction moves generalizing sampling with
    | nil => exact overlapped
    | cons move moves ih => exact ih (tallied.step move) (overlapped.step tallied.counts move)
  induction moves generalizing sampling with
  | nil => exact .inl trivial
  | cons move moves ih =>
    by_cases apart : Apart sampling move
    · rcases ih (sampling.step move) (tallied.step move) with along | overlapped
      · refine .inl ⟨apart, fun after taken => ?_⟩
        cases taken
        exact along
      · exact .inr overlapped
    · obtain ⟨code, overlapped⟩ := overlaps apart
      exact .inr ⟨code, lasts (tallied.step move) overlapped moves⟩

/-- When no call is between its load and its store, every response is counted exactly if
no call has loaded a count that another one had yet to store. -/
theorem counted_iff (moves : List Move) (settled : ∀ request ∈ (reached moves).served, storing request.code request = false)
    (few : (reached moves).served.length < UInt64.size) :
    (∀ code, (reached moves).httpServed code = UInt64.ofNat ((reached moves).entered code)) ↔
      Along (fun sampling move => some (sampling.step move)) Apart {} moves := by
  constructor
  · intro counted
    rcases apart_or_overlapped {} moves (tallied_reached []) with apart | ⟨code, overlapped⟩
    · exact apart
    · have idle : ∀ request ∈ (reached moves).served, ∀ n, request.stage ≠ .store n := by
        intro request member n stage
        have storing := settled request member
        rw [storing_of_store stage, decide_eq_true rfl] at storing
        cases storing
      have lost : ((reached moves).httpServed code).toNat < (reached moves).entered code := by
        cases overlapped with
        | twice twice =>
          obtain ⟨request, member, n, stage, _⟩ := exists_storing (Nat.lt_of_succ_le (Nat.le_of_succ_le twice))
          exact (idle request member n stage).elim
        | stale stale =>
          obtain ⟨request, member, n, stage, _⟩ := stale
          exact (idle request member n stage).elim
        | lost lost => exact lost.count
      have bound : (reached moves).entered code < UInt64.size := List.countP_le_length.trans_lt few
      rw [counted code, UInt64.toNat_ofNat_of_lt' bound] at lost
      exact absurd lost (Nat.lt_irrefl _)
  · intro apart
    have start : Exact {} := ⟨fun _ => rfl, fun _ => Nat.zero_le _, fun _ member => absurd member List.not_mem_nil⟩
    exact (invariant_along (fun _ _ exact apart => Exact.step exact apart) start apart).served

/-- The second call loads the count before the first one has stored it. -/
def racing : List Move :=
  [.serve .ok 7 none, .serve .ok 5 none, .advance 0, .advance 1, .advance 0, .advance 1, .tick false]

theorem counted_iff_racing :
    (∀ code, (reached racing).httpServed code = UInt64.ofNat ((reached racing).entered code)) ↔
      Along (fun sampling move => some (sampling.step move)) Apart {} racing :=
  counted_iff racing (by decide +kernel) (by decide +kernel)

/-- One of the two responses is missing. -/
example : (reached racing).httpServed .ok = 1 ∧ (reached racing).entered .ok = 2 := by
  decide +kernel

end LibWebserver.Sampling
