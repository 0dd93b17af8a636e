import LibWebserver.Proofs.Exchange
import LibWebserver.Rounds

/-! The loop of a worker is a run of the server. Whatever the batches hold, handlers are
called on registered connections only, and for what these wait for. -/

namespace LibWebserver.Exchange
open World CStr

/-- Events of a worker: the handler of a registered connection that waits for it, or what
the worker does itself. -/
def Dispatched (exchange : Exchange) : Event → Prop
  | .ready _ => True
  | .create _ => False
  | .eventRead c _ => c ∈ exchange.world.server.connections ∧
      exchange.world.server.poll.inRead (exchange.world.descriptor c)
  | .eventWrite c _ => c ∈ exchange.world.server.connections ∧
      exchange.world.server.poll.inWrite (exchange.world.descriptor c)
  | .eventError c => c ∈ exchange.world.server.connections ∧
      exchange.world.server.poll.inError (exchange.world.descriptor c)
  | .pass => True

/-- The worker can bring a server to this state. -/
def Leads (maxConnects : Nat) (exchange : Exchange) (world : World) : Prop :=
  ∃ later, Run maxConnects Dispatched exchange later ∧ later.world = world

variable {exchange : Exchange} {after : World} {c maxConnects : Nat}

theorem Run.mono {kind other : Exchange → Event → Prop} {later : Exchange}
    (weaker : ∀ exchange event, kind exchange event → other exchange event) (run : Run maxConnects kind exchange later) :
    Run maxConnects other exchange later := by
  induction run with
  | refl => exact .refl
  | tail _ step ih =>
    obtain ⟨event, here, step⟩ := step
    exact ih.tail ⟨event, weaker _ event here, step⟩

theorem leads_refl (exchange : Exchange) : Leads maxConnects exchange exchange.world := ⟨exchange, .refl, rfl⟩

theorem leads_step {event : Event} {later : Exchange} (dispatched : Dispatched exchange event)
    (step : Step maxConnects event exchange later) : Leads maxConnects exchange later.world :=
  ⟨later, .single ⟨event, dispatched, step⟩, rfl⟩

theorem leads_foldlM {α : Type} {f : World → α → Option World} {xs : List α} (attended : exchange.traffic.Attended)
    (one : ∀ (exchange : Exchange) (x : α) (after : World), exchange.traffic.Attended → f exchange.world x = some after →
      Leads maxConnects exchange after)
    (returned : xs.foldlM f exchange.world = some after) : Leads maxConnects exchange after := by
  induction xs generalizing exchange with
  | nil =>
    cases returned
    exact leads_refl exchange
  | cons x xs ih =>
    rw [List.foldlM_cons] at returned
    obtain ⟨middle, first, rest⟩ := Option.bind_eq_some_iff.mp returned
    obtain ⟨between, run, rfl⟩ := one exchange x middle attended first
    obtain ⟨later, more, world⟩ := ih (run_attended attended run) rest
    exact ⟨later, run.trans more, world⟩

/-- A connection that is not inactive and waits for something is registered. -/
theorem member_of_waiting {w : World} {mask : UInt32} (registry : w.Registry) (active : ¬ w.isInactive c)
    (waits : w.server.poll.eventMask (w.descriptor c) &&& mask ≠ 0) : c ∈ w.server.connections := by
  by_contra absent
  rcases registry.absent c absent with closing | negative
  · exact active (decide_eq_true (.inr closing))
  · have none : w.server.poll.eventMask (w.descriptor c) = 0 := if_neg (Int.not_le.mpr negative)
    rw [none] at waits
    exact waits (UInt32.zero_and)

theorem of_normal {ended : Ended} (returned : ended.normal = some after) : ended = ⟨after, none⟩ := by
  unfold Ended.normal at returned
  split at returned
  next none =>
    cases returned
    rw [← none]
  next => cases returned

theorem leads_handle {answers : Answers} {branch : Branch} (member : c ∈ exchange.world.server.connections)
    (waits : exchange.world.server.poll.eventMask (exchange.world.descriptor c) &&& Multiplexer.bit Poll branch ≠ 0)
    (returned : exchange.world.handle c answers branch = some after) : Leads maxConnects exchange after := by
  cases branch with
  | error =>
    have called : Step maxConnects (.eventError c) exchange _ := .eventError
    have ended := of_normal returned
    rw [ended] at called
    exact @leads_step exchange maxConnects (.eventError c) _ ⟨member, decide_eq_true waits⟩ called
  | read =>
    obtain ⟨ended, read, normal⟩ := Option.bind_eq_some_iff.mp returned
    rw [of_normal normal] at read
    exact @leads_step exchange maxConnects (.eventRead c answers.read) _ ⟨member, decide_eq_true waits⟩ (.eventRead read)
  | write =>
    unfold handle at returned
    dsimp only at returned
    split at returned
    next ended =>
      cases returned
      exact @leads_step exchange maxConnects (.eventWrite c answers.write) _ ⟨member, decide_eq_true waits⟩
        (.eventWrite ended.1)
    next => cases returned

theorem leads_branch {answers : Answers} {ready : ReadyEvent} {branch : Branch} (attended : exchange.traffic.Attended)
    (returned : World.branch answers ready exchange.world branch = some after) : Leads maxConnects exchange after := by
  unfold World.branch at returned
  split at returned
  next =>
    cases returned
    exact leads_refl exchange
  next c _ =>
    split at returned
    next called => exact leads_handle (member_of_waiting attended.registry called.2.1 called.2.2) called.2.2 returned
    next =>
      cases returned
      exact leads_refl exchange

theorem leads_entry {answers : Nat → Answers} {i : Nat} (attended : exchange.traffic.Attended)
    (returned : World.entry answers exchange.world i = some after) : Leads maxConnects exchange after := by
  unfold World.entry at returned
  split at returned
  next =>
    cases returned
    exact leads_refl exchange
  next => exact leads_foldlM attended (fun _ _ _ attended one => leads_branch attended one) returned

theorem leads_performServer {round : Round} (attended : exchange.traffic.Attended)
    (returned : exchange.world.performServer round = some after) : Leads maxConnects exchange after := by
  obtain ⟨filled, polled, world⟩ : Leads maxConnects exchange (exchange.world.doPoll round.batch) := by
    cases round.batch with
    | none => exact leads_refl exchange
    | some batch => exact @leads_step exchange maxConnects (.ready batch) _ trivial .ready
  unfold performServer performPoll at returned
  rw [← world] at returned
  obtain ⟨handled, calls, rfl⟩ := Option.map_eq_some_iff.mp returned
  obtain ⟨later, run, rfl⟩ := leads_foldlM (run_attended attended polled)
    (fun _ _ _ attended one => leads_entry attended one) calls
  obtain ⟨last, done, world⟩ := @leads_step later maxConnects (.ready []) _ trivial .ready
  exact ⟨last, (polled.trans run).trans done, world⟩

/-- A worker that has come to the end of a round has nothing left to answer. -/
structure Settled (w : World) : Prop where
  active : w.server.activity = []
  incoming : ∀ c ∈ w.server.connections, (w.conn c).incoming = []
  outgoing : ∀ c ∈ w.server.connections, (w.conn c).outgoing ≠ [] → w.server.poll.inWrite (w.descriptor c)

theorem settled_of_attended (attended : exchange.traffic.Attended) (active : exchange.world.server.activity = []) :
    Settled exchange.world := by
  refine ⟨active, fun c member => ?_, fun c member => (attended.attends c member).outgoing⟩
  by_contra waiting
  rcases (attended.attends c member).incoming waiting with inside | popped
  · exact List.not_mem_nil (active ▸ inside)
  · cases popped

theorem leads_process {round : Round} (attended : exchange.traffic.Attended)
    (returned : HttpWorker.process exchange.world round = some after) : Leads maxConnects exchange after ∧ Settled after := by
  obtain ⟨handled, performed, served⟩ := Option.bind_eq_some_iff.mp returned
  obtain ⟨middle, run, rfl⟩ := @leads_performServer exchange handled maxConnects round attended performed
  have still := run_attended attended run
  obtain ⟨later, passes, same, active, _⟩ := @serve_passes middle maxConnects still
  cases Option.some.inj (same.symm.trans served)
  exact ⟨⟨later, run.trans (passes.mono fun _ event here => by rw [here]; exact trivial), rfl⟩,
    settled_of_attended (run_attended still passes) active⟩

/-- From every state of the server, rounds of the worker that return are a run of events, in
which handlers are called only on registered connections and for what these wait for,
whatever the batches of the poll hold. They end with every message answered, and each
response either sent or waited for. -/
theorem rounds_dispatch {kind : Exchange → Event → Prop} {size : Nat} {rounds : List Round}
    (past : Run maxConnects kind (start size) exchange) (returned : HttpWorker.run exchange.world rounds = some after) :
    ∃ later, Run maxConnects Dispatched exchange later ∧ later.world = after ∧ (rounds ≠ [] → Settled after) := by
  have attended := @run_attended (start size) exchange maxConnects kind (Traffic.attended_start size) past
  clear past
  induction rounds generalizing exchange with
  | nil =>
    cases returned
    exact ⟨exchange, .refl, rfl, fun some => absurd rfl some⟩
  | cons round rounds ih =>
    rw [HttpWorker.run, List.foldlM_cons] at returned
    obtain ⟨middle, first, rest⟩ := Option.bind_eq_some_iff.mp returned
    obtain ⟨⟨between, run, rfl⟩, settled⟩ := @leads_process exchange middle maxConnects round attended first
    obtain ⟨later, more, world, last⟩ := ih rest (run_attended attended run)
    refine ⟨later, run.trans more, world, fun _ => ?_⟩
    cases rounds with
    | nil =>
      cases rest
      exact settled
    | cons => exact last (List.cons_ne_nil _ _)

/-- A batch with a connection that can be read and written, and one that is gone. -/
def stale : Round where
  batch := some [{ ptr := some 0, events := 5 }, { ptr := some 7, events := 1 }]
  answers _ := ⟨.received (ascii "GET / HTTP"), []⟩

theorem rounds_dispatch_stale :
    ∃ after, HttpWorker.run opened.world [stale, stale] = some after ∧
      ∃ later, Run 1 Dispatched opened later ∧ later.world = after ∧ ([stale, stale] ≠ [] → Settled after) := by
  obtain ⟨after, returned⟩ : ∃ after, HttpWorker.run opened.world [stale, stale] = some after :=
    Option.isSome_iff_exists.mp (by decide +kernel)
  exact ⟨after, returned, rounds_dispatch (.single ⟨_, trivial, opened_step⟩ : Run 1 (fun _ _ => True) (start 16) opened) returned⟩

end LibWebserver.Exchange
