import LibWebserver.Proofs.HttpWorker

/-! Requests and responses between the connections of a server and its worker, over any
order of reads, writes, errors, new connections and passes of the worker. -/

namespace LibWebserver

/-- Messages handed out together, with the persistence their connection had then. -/
structure Batch where
  isPersistent : Bool
  requests : List IncomingHttpMessage

def Batch.answers (self : Batch) : List OutgoingHttpMessage := HttpWorker.answers self.isPersistent self.requests

/-- What a connection has been through: the bytes received, the messages deserialized from
them, the batches handed out, the responses queued, those sent and the bytes of them. -/
structure Log where
  received : Bytes := []
  arrived : List IncomingHttpMessage := []
  batches : List Batch := []
  queued : List OutgoingHttpMessage := []
  sent : List OutgoingHttpMessage := []
  wire : Bytes := []

def Log.handed (self : Log) : List IncomingHttpMessage := self.batches.flatMap (·.requests)

def RecvResult.bytes : RecvResult → Bytes
  | .received bytes => bytes
  | .failed _ => []

structure Exchange where
  world : World
  log : Nat → Log

namespace Exchange

variable (self : Exchange)

def start (size : Nat) : Exchange := { world := (Threads.start size).world, log := fun _ => {} }

def note (c : Nat) (world : World) (f : Log → Log) : Exchange :=
  { world, log := Function.update self.log c (f (self.log c)) }

def read (c : Nat) (result : RecvResult) (after : World) : Exchange :=
  self.note c after fun log => { log with
    received := log.received ++ if (self.world.conn c).state = .connected then result.bytes else []
    arrived := log.arrived ++ (after.conn c).incoming.drop (self.world.conn c).incoming.length
    queued := log.queued ++ (after.conn c).outgoing.drop (self.world.conn c).outgoing.length }

def write (c : Nat) (run : WriteRun) : Exchange :=
  self.note c run.world fun log => { log with
    sent := log.sent ++ sentMessages (self.world.conn c).outgoing run.calls
    wire := log.wire ++ taken (self.world.conn c).outgoing run.calls }

def attend (c : Nat) (after : World) : Exchange :=
  let (found, requests, _) := self.world.getMessages c []
  self.note c after fun log => { log with
    batches := log.batches ++ if found then [⟨(self.world.conn c).isPersistent, requests⟩] else []
    queued := log.queued ++ (after.conn c).outgoing.drop (self.world.conn c).outgoing.length }

/-- A pass of the worker over the first active connection. -/
def pass : Exchange :=
  match self.world.server.activity, HttpWorker.passStep self.world with
  | c :: _, .next after => self.attend c after
  | _, _ => self

inductive Event where
  | ready (batch : List ReadyEvent)
  | create (c : Nat)
  | eventRead (c : Nat) (result : RecvResult)
  | eventWrite (c : Nat) (answers : List SendResult)
  | eventError (c : Nat)
  | pass

/-- One event after another, in any order: a batch of the poll comes or is done with, a
connection is made, a handler is called, the worker makes a pass. The kernel gives
descriptors that no connection has, handlers return, and no mask goes astray. -/
inductive Step (maxConnects : Nat) : Event → Exchange → Exchange → Prop where
  | ready {exchange batch} :
      Step maxConnects (.ready batch) exchange { exchange with world := exchange.world.poll ({ · with events := batch }) }
  | create {exchange c answers attempt} (unused : exchange.world.Unused c attempt.opened)
      (returned : (exchange.world.create maxConnects c answers attempt).exit = .returned)
      (straight : (exchange.world.create maxConnects c answers attempt).outside = false) :
      Step maxConnects (.create c) exchange
        (exchange.note c ((exchange.world.create maxConnects c answers attempt).drop c answers).world fun _ => {})
  | eventRead {exchange c result after} (returned : exchange.world.eventRead c result = some ⟨after, none⟩) :
      Step maxConnects (.eventRead c result) exchange (exchange.read c result after)
  | eventWrite {exchange c answers} (returned : (exchange.world.eventWrite c answers).returned) :
      Step maxConnects (.eventWrite c answers) exchange (exchange.write c (exchange.world.eventWrite c answers))
  | eventError {exchange c} :
      Step maxConnects (.eventError c) exchange { exchange with world := (exchange.world.eventError c).world }
  | pass {exchange} : Step maxConnects .pass exchange exchange.pass

/-- A run whose events are of a kind, which may depend on the state they happen in. -/
def Run (maxConnects : Nat) (kind : Exchange → Event → Prop) : Exchange → Exchange → Prop :=
  Relation.ReflTransGen fun exchange after => ∃ event, kind exchange event ∧ Step maxConnects event exchange after

/-- The same server without the responses. -/
def traffic : Traffic where
  world := self.world
  popped := none
  arrived c := (self.log c).arrived
  handed c := (self.log c).handed

variable {self} {after : Exchange} {c maxConnects : Nat} {event : Event}

private theorem traffic_ext {traffic other : Traffic} (world : traffic.world = other.world)
    (popped : traffic.popped = other.popped) (arrived : traffic.arrived = other.arrived)
    (handed : traffic.handed = other.handed) : traffic = other := by
  cases traffic
  cases other
  exact (Traffic.mk.injEq _ _ _ _ _ _ _ _).mpr ⟨world, popped, arrived, handed⟩

theorem note_arrived (self : Exchange) (c : Nat) (world : World) (f : Log → Log) :
    (self.note c world f).traffic.arrived = Function.update self.traffic.arrived c (f (self.log c)).arrived :=
  Function.comp_update Log.arrived self.log c (f (self.log c))

theorem note_handed (self : Exchange) (c : Nat) (world : World) (f : Log → Log) :
    (self.note c world f).traffic.handed = Function.update self.traffic.handed c (f (self.log c)).handed :=
  Function.comp_update Log.handed self.log c (f (self.log c))

theorem note_unhanded {world : World} {f : Log → Log} (batches : (f (self.log c)).batches = (self.log c).batches) :
    (self.note c world f).traffic.handed = self.traffic.handed := by
  rw [note_handed, Log.handed, batches]
  exact Function.update_eq_self c self.traffic.handed

theorem note_unarrived {world : World} {f : Log → Log} (arrived : (f (self.log c)).arrived = (self.log c).arrived) :
    (self.note c world f).traffic.arrived = self.traffic.arrived := by
  rw [note_arrived, arrived]
  exact Function.update_eq_self c self.traffic.arrived

theorem read_traffic (self : Exchange) (c : Nat) (result : RecvResult) (after : World) :
    (self.read c result after).traffic = self.traffic.record c after :=
  traffic_ext rfl rfl (note_arrived self c after _) (note_unhanded rfl)

theorem write_traffic (self : Exchange) (c : Nat) (run : WriteRun) :
    (self.write c run).traffic = { self.traffic with world := run.world } :=
  traffic_ext rfl rfl (note_unarrived rfl) (note_unhanded rfl)

theorem fresh_traffic (self : Exchange) (c : Nat) (world : World) :
    (self.note c world fun _ => {}).traffic = { self.traffic with
      world
      arrived := Function.update self.traffic.arrived c []
      handed := Function.update self.traffic.handed c [] } :=
  traffic_ext rfl rfl (note_arrived self c world _) (note_handed self c world _)

theorem pass_idle (idle : self.world.server.activity = []) : self.pass = self := by
  rw [pass, idle]

theorem pass_active {activity : List Nat} (active : self.world.server.activity = c :: activity) {after : World}
    (moves : HttpWorker.passStep self.world = .next after) : self.pass = self.attend c after := by
  rw [pass, active, moves]

theorem attend_handed (self : Exchange) (c : Nat) (after : World) :
    (self.attend c after).traffic.handed = Function.update self.traffic.handed c (self.traffic.handed c ++
      if (self.world.getMessages c []).1 then (self.world.getMessages c []).2.1 else []) := by
  unfold attend
  rw [note_handed]
  refine congrArg (Function.update self.traffic.handed c) ?_
  simp only [Log.handed, List.flatMap_append]
  exact congrArg _ (by split <;> simp)

/-- A pass takes a connection, asks it and sends on it. -/
theorem pass_traffic {activity : List Nat} (active : self.world.server.activity = c :: activity) :
    ∃ messages, self.pass.traffic = { self.traffic.serve.serve with
      world := self.traffic.serve.serve.world.sendMessages c messages } := by
  have free : self.traffic.popped = none := rfl
  obtain ⟨messages, moves, served⟩ := HttpWorker.passStep_serve free (show self.traffic.world.server.activity = _ from active)
  refine ⟨messages, ?_⟩
  rw [pass_active active moves, served]
  exact traffic_ext rfl rfl (note_unarrived rfl) (attend_handed self c _)

/-- No invariant looks at the batch. -/
theorem attended_ready (attended : self.traffic.Attended) (batch : List ReadyEvent) :
    (traffic { self with world := self.world.poll ({ · with events := batch }) }).Attended := by
  obtain ⟨⟨connected, absent, activity, inside, distinct, watched, unwatched⟩, attends⟩ := attended
  refine ⟨⟨connected, absent, activity, inside, distinct, watched, unwatched⟩, fun c member => ?_⟩
  obtain ⟨incoming, outgoing, order⟩ := attends c member
  exact ⟨incoming, outgoing, order⟩

theorem attended_step (attended : self.traffic.Attended) (step : Step maxConnects event self after) :
    after.traffic.Attended := by
  cases step with
  | ready => exact attended_ready attended _
  | create unused returned straight =>
    rw [fresh_traffic]
    exact attended.create unused returned straight
  | eventRead returned =>
    rw [read_traffic]
    exact attended.eventRead returned
  | eventWrite returned =>
    rw [write_traffic]
    exact attended.eventWrite _ _
  | eventError => exact attended.eventError _
  | pass =>
    cases active : self.world.server.activity with
    | nil =>
      rw [pass_idle active]
      exact attended
    | cons c activity =>
      obtain ⟨messages, same⟩ := pass_traffic active
      rw [same]
      exact attended.serve.serve.sendMessages c messages

end Exchange

namespace World

variable {w after : World} {c : Nat}

/-- Nothing but rejections is put behind the queue. -/
def Rejects (c : Nat) (w after : World) : Prop :=
  ∃ rejections, (after.conn c).outgoing = (w.conn c).outgoing ++ rejections ∧
    ∀ message ∈ rejections, message.responseCode = .badRequest

theorem rejects_refl (c : Nat) (w : World) : Rejects c w w := ⟨[], (List.append_nil _).symm, List.forall_mem_nil _⟩

theorem Rejects.of_eq {middle : World} (rejects : Rejects c w middle) (same : (after.conn c).outgoing = (middle.conn c).outgoing) :
    Rejects c w after := by
  obtain ⟨rejections, queued, codes⟩ := rejects
  exact ⟨rejections, same.trans queued, codes⟩

theorem Rejects.badData (rejects : Rejects c w after) (message : IncomingHttpMessage) :
    Rejects c w (after.badData c message) := by
  obtain ⟨rejections, queued, codes⟩ := rejects
  have sends (response : OutgoingHttpMessage) (code : response.serialize.responseCode = .badRequest) :
      Rejects c w (after.sendMessage c response) := by
    by_cases connected : (after.conn c).state = .connected
    · refine ⟨rejections ++ [response.serialize], ?_, List.forall_mem_append.mpr ⟨codes, ?_⟩⟩
      · rw [sendMessage_conn connected, queued, List.append_assoc]
      · exact List.forall_mem_singleton.mpr code
    · rw [sendMessage_idle connected]
      exact ⟨rejections, queued, codes⟩
  unfold World.badData
  split
  · split
    · exact sends _ (by unfold OutgoingHttpMessage.badRequestFor OutgoingHttpMessage.addRequestId; split <;> rfl)
    · exact sends _ rfl
  · exact ⟨rejections, by rw [modify_conn]; exact queued, codes⟩

theorem eventRead_rejects {result : RecvResult} (returned : w.eventRead c result = some ⟨after, none⟩) : Rejects c w after := by
  have stored (buffer : CString) : Rejects c w (w.setBuffer c buffer) := (rejects_refl c w).of_eq (by rw [setBuffer_conn])
  rcases eventRead_cases returned with ⟨_, same⟩ | ⟨_, buffer, closed | ⟨_, same⟩ | processed⟩
  · cases same
    exact rejects_refl c w
  · obtain ⟨fd, conn⟩ := close_conn (w.setBuffer c buffer) c
    have world : after = ((w.setBuffer c buffer).close c).world := congrArg Ended.world closed
    exact (stored buffer).of_eq (by rw [world, conn])
  · cases same
    exact stored buffer
  · refine Loop.run_invariant (Rejects c w) (fun result => ∀ after, result = some ⟨after, none⟩ → Rejects c w after)
      (fun _ _ rejects moves => ?_) (fun _ _ rejects exits _ same => ?_) (stored buffer)
      (Option.join_eq_some_iff.mp processed) after rfl
    · obtain ⟨_, _, _, _, _, rfl⟩ := processStep_goes moves
      exact rejects.of_eq (by rw [markActivity_conn, modify_conn])
    · rcases processStep_ends (same ▸ exits) with same | ⟨message, same⟩ | ⟨_, same⟩ | ⟨_, _, same⟩
      · cases same
        exact rejects.of_eq (by rw [modify_conn])
      · cases same
        exact rejects.badData message
      · cases same
      · cases same

/-- What a write that returns sends off the queue: all of it, or a part before the
connection is closed. -/
structure Sends (c : Nat) (w : World) (run : WriteRun) : Prop where
  order : sentMessages (w.conn c).outgoing run.calls <+: (w.conn c).outgoing
  incoming : (run.world.conn c).incoming = (w.conn c).incoming
  all : (run.world.conn c).state = .connected →
    sentMessages (w.conn c).outgoing run.calls = (w.conn c).outgoing ∧ (run.world.conn c).outgoing = []

theorem eventWrite_sends (writable : w.Writable c) {answers : List SendResult}
    (returned : (w.eventWrite c answers).returned) : Sends c w (w.eventWrite c answers) := by
  by_cases empty : (w.conn c).outgoing = []
  · have same : w.eventWrite c answers = ⟨w.poll (·.removeWrite (w.descriptor c)), [], true, none⟩ := by
      rw [eventWrite, if_neg (not_not_intro writable.connected), if_pos empty]
    rw [same]
    exact ⟨List.nil_prefix, rfl, fun _ => ⟨empty.symm, empty⟩⟩
  · have same : w.eventWrite c answers =
        writeMessages c 0 (w.conn c).outgoing answers (w.modify c ({ · with outgoing := [] })) := by
      rw [eventWrite, if_neg (not_not_intro writable.connected), if_neg empty]
    have conn : (w.modify c ({ · with outgoing := [] })).conn c = { w.conn c with outgoing := [] } := modify_conn w c _
    have taking : (w.modify c ({ · with outgoing := [] })).Writable c :=
      ⟨by rw [conn]; exact writable.connected, by rw [descriptor, conn]; exact writable.descriptor⟩
    obtain ⟨order, _, outcome⟩ := @writeMessages_writes _ c taking (w.conn c).outgoing [] _ answers rfl
    rw [List.length_nil, ← same] at order outcome
    refine ⟨order, ?_, fun connected => ?_⟩ <;> rcases outcome with ⟨stays, _, all⟩ | closed
    · rw [stays, conn]
    · rw [closed, close_incoming, conn]
    · rw [stays, conn]
      exact ⟨all returned, rfl⟩
    · obtain ⟨fd, ended⟩ := close_conn (w.modify c ({ · with outgoing := [] })) c
      rw [closed, ended] at connected
      cases connected

end World

namespace Exchange
open World

variable {self after : Exchange} {c maxConnects : Nat} {event : Event}

/-- The responses queued, rejections of bad data apart, are the answers to the batches in
their order, and what is sent is a start of what is queued. -/
structure Answered (exchange : Exchange) (c : Nat) : Prop where
  answers : (exchange.log c).queued.filter (·.responseCode ≠ .badRequest) = (exchange.log c).batches.flatMap Batch.answers
  sent : (exchange.log c).sent <+: (exchange.log c).queued
  handed : (exchange.log c).handed <+: (exchange.log c).arrived
  waiting : (exchange.world.conn c).state = .connected →
    (exchange.log c).queued = (exchange.log c).sent ++ (exchange.world.conn c).outgoing ∧
      (exchange.log c).arrived = (exchange.log c).handed ++ (exchange.world.conn c).incoming

theorem serialize_code (message : OutgoingHttpMessage) :
    message.serialize.responseCode = message.responseCode ∨ message.serialize.responseCode = .noContent := by
  unfold OutgoingHttpMessage.serialize
  split
  · exact .inl rfl
  · exact .inl rfl
  · dsimp only
    split
    · exact .inr rfl
    · exact .inl rfl

/-- The worker never answers with a rejection. -/
theorem answer_code (isPersistent : Bool) (request : IncomingHttpMessage) :
    (HttpWorker.answer isPersistent request).serialize.responseCode ≠ .badRequest := by
  have code : (HttpWorker.answer isPersistent request).responseCode ≠ .badRequest := by
    unfold HttpWorker.answer OutgoingHttpMessage.notAcceptableWith OutgoingHttpMessage.setContent
    split
    · exact HttpCode.noConfusion
    · split <;> exact HttpCode.noConfusion
  rcases serialize_code (HttpWorker.answer isPersistent request) with same | same
  · rw [same]
    exact code
  · rw [same]
    exact HttpCode.noConfusion

theorem answers_code (batch : Batch) : batch.answers.filter (·.responseCode ≠ .badRequest) = batch.answers := by
  refine List.filter_eq_self.mpr fun message member => ?_
  obtain ⟨request, _, rfl⟩ := List.mem_map.mp member
  exact decide_eq_true (answer_code _ _)

theorem Answered.elsewhere (answered : self.Answered c) (conn : after.world.conn c = self.world.conn c)
    (log : after.log c = self.log c) : after.Answered c := by
  obtain ⟨answers, sent, handed, waiting⟩ := answered
  refine ⟨?_, ?_, ?_, ?_⟩ <;> rw [log]
  · exact answers
  · exact sent
  · exact handed
  · rw [conn]
    exact waiting

theorem note_log (self : Exchange) (c : Nat) (world : World) (f : Log → Log) :
    (self.note c world f).log c = f (self.log c) := Function.update_self _ _ _

theorem note_elsewhere {d : Nat} (other : c ≠ d) (world : World) (f : Log → Log) :
    (self.note d world f).log c = self.log c := Function.update_of_ne other _ _

theorem attend_elsewhere {d : Nat} (other : c ≠ d) (world : World) : (self.attend d world).log c = self.log c := by
  unfold Exchange.attend
  exact note_elsewhere other world _

theorem Answered.read (answered : self.Answered c) {result : RecvResult} {world : World}
    (returned : self.world.eventRead c result = some ⟨world, none⟩) : (self.read c result world).Answered c := by
  by_cases connected : (self.world.conn c).state = .connected
  · obtain ⟨rejections, queued, codes⟩ := eventRead_rejects returned
    obtain ⟨messages, _, _, _, incoming⟩ := eventRead_deserializes returned
    obtain ⟨queue, order⟩ := answered.waiting connected
    have rejected : rejections.filter (·.responseCode ≠ .badRequest) = [] :=
      List.filter_eq_nil_iff.mpr fun message member => by simp [codes message member]
    unfold Exchange.read
    refine ⟨?_, ?_, ?_, fun _ => ?_⟩ <;> rw [note_log]
    · dsimp only
      rw [queued, List.drop_left, List.filter_append, rejected, List.append_nil]
      exact answered.answers
    · exact answered.sent.trans (List.prefix_append _ _)
    · exact answered.handed.trans (List.prefix_append _ _)
    · dsimp only [note]
      rw [queued, incoming, List.drop_left, List.drop_left, queue, order, List.append_assoc, List.append_assoc]
      exact ⟨rfl, rfl⟩
  · unfold World.eventRead at returned
    rw [if_pos connected] at returned
    cases returned
    refine answered.elsewhere rfl ?_
    rw [Exchange.read, note_log, if_neg connected, List.drop_length, List.drop_length, List.append_nil, List.append_nil,
      List.append_nil]

theorem Answered.write (answered : self.Answered c) (registry : self.world.Registry) {answers : List SendResult}
    (returned : (self.world.eventWrite c answers).returned) : (self.write c (self.world.eventWrite c answers)).Answered c := by
  by_cases connected : (self.world.conn c).state = .connected
  · have member := (registry.connected c).mp connected
    obtain ⟨start, incoming, all⟩ := eventWrite_sends ⟨connected, (registry.inside c member).1⟩ returned
    obtain ⟨queue, order⟩ := answered.waiting connected
    unfold Exchange.write
    refine ⟨?_, ?_, ?_, fun still => ?_⟩ <;> rw [note_log]
    · exact answered.answers
    · dsimp only
      rw [queue]
      exact (List.prefix_append_right_inj _).mpr start
    · exact answered.handed
    · obtain ⟨whole, empty⟩ := all still
      dsimp only [note]
      rw [incoming, empty, whole, List.append_nil]
      exact ⟨queue, order⟩
  · have same : self.world.eventWrite c answers = ⟨self.world, [], true, none⟩ := if_pos connected
    refine answered.elsewhere (by rw [same]; rfl) ?_
    rw [Exchange.write, note_log, same]
    simp [sentMessages, taken]

theorem Answered.attend (answered : self.Answered c) {activity : List Nat} (active : self.world.server.activity = c :: activity)
    (connected : (self.world.conn c).state = .connected) {world : World}
    (moves : HttpWorker.passStep self.world = .next world) : (self.attend c world).Answered c := by
  obtain ⟨_, same, _, conn, _⟩ := HttpWorker.passStep_active active connected
  cases moves.symm.trans same
  obtain ⟨queue, order⟩ := answered.waiting connected
  have asks : self.world.getMessages c [] = if (self.world.conn c).incoming = [] then (false, [], self.world)
      else (true, (self.world.conn c).incoming, self.world.modify c ({ · with incoming := [] })) := by
    unfold getMessages
    simp [connected]
  unfold Exchange.attend
  by_cases none : (self.world.conn c).incoming = []
  · rw [asks, if_pos none]
    rw [HttpWorker.answered_idle none] at conn
    refine answered.elsewhere conn ?_
    dsimp only
    rw [note_log, conn, List.drop_length]
    simp
  · rw [asks, if_neg none]
    have queued : (world.conn c).outgoing =
        (self.world.conn c).outgoing ++ HttpWorker.answers (self.world.conn c).isPersistent (self.world.conn c).incoming := by
      rw [conn]
      rfl
    dsimp only
    rw [if_pos rfl, queued]
    refine ⟨?_, ?_, ?_, fun _ => ?_⟩ <;> rw [note_log] <;> dsimp only [note, Log.handed]
    · rw [List.drop_left, List.filter_append, List.flatMap_append, answered.answers, List.flatMap_singleton]
      exact congrArg _ (answers_code ⟨_, _⟩)
    · exact answered.sent.trans (List.prefix_append _ _)
    · rw [List.flatMap_append, List.flatMap_singleton, order]
      exact List.prefix_rfl
    · rw [List.drop_left, List.flatMap_append, List.flatMap_singleton, queue, order, conn]
      dsimp only [HttpWorker.answered]
      rw [List.append_nil, List.append_assoc]
      exact ⟨rfl, rfl⟩

theorem answered_fresh {world : World} (connected : (world.conn c).state = .connected →
    (world.conn c).incoming = [] ∧ (world.conn c).outgoing = []) : (self.note c world fun _ => {}).Answered c := by
  have empty : (self.note c world fun _ => {}).log c = {} := note_log self c world _
  refine ⟨?_, ?_, ?_, fun state => ?_⟩
  · rw [empty]
    rfl
  · rw [empty]
  · rw [empty]
    exact List.prefix_rfl
  · obtain ⟨incoming, outgoing⟩ := connected state
    rw [empty]
    exact ⟨outgoing.symm, incoming.symm⟩

theorem Answered.step (answered : ∀ c, self.Answered c) (attended : self.traffic.Attended)
    (step : Step maxConnects event self after) : ∀ c, after.Answered c := by
  have registry : self.world.Registry := attended.registry
  intro c
  cases step with
  | ready => exact (answered c).elsewhere rfl rfl
  | @create _ d answers attempt unused returned straight =>
    have made := create_drop registry unused returned straight
    generalize ((self.world.create maxConnects d answers attempt).drop d answers).world = world at made
    by_cases own : c = d
    · subst own
      refine answered_fresh fun connected => ?_
      rcases made with admitted | refused
      · exact ⟨admitted.incoming, admitted.outgoing⟩
      · rw [refused.state] at connected
        cases connected
    · refine (answered c).elsewhere ?_ (note_elsewhere own _ _)
      exact made.elim (·.others c own) (·.others c own)
  | @eventRead _ d result world returned =>
    by_cases own : c = d
    · subst own
      exact (answered c).read returned
    · have confined := perform_confined self.world d (.eventRead result)
      rw [perform, returned] at confined
      exact (answered c).elsewhere (confined.others c own) (note_elsewhere own _ _)
  | @eventWrite _ d answers returned =>
    by_cases own : c = d
    · subst own
      exact (answered c).write registry returned
    · exact (answered c).elsewhere ((eventWrite_confined self.world d answers).others c own) (note_elsewhere own _ _)
  | @eventError _ d =>
    by_cases own : c = d
    · subst own
      obtain ⟨answers, sent, handed, waiting⟩ := answered c
      refine ⟨answers, sent, handed, fun connected => ?_⟩
      unfold World.eventError at connected ⊢
      split
      next inactive => exact waiting (by rw [if_pos inactive] at connected; exact connected)
      next active =>
        obtain ⟨fd, closed⟩ := close_conn self.world c
        rw [if_neg active, closed] at connected
        cases connected
    · exact (answered c).elsewhere ((perform_confined self.world d .eventError).others c own) rfl
  | pass =>
    cases active : self.world.server.activity with
    | nil =>
      rw [pass_idle active]
      exact answered c
    | cons d activity =>
      have connected := (registry.connected d).mpr (registry.activity d (by rw [active]; exact List.mem_cons_self))
      obtain ⟨world, moves, _, _, others⟩ := HttpWorker.passStep_active active connected
      rw [pass_active active moves]
      by_cases own : c = d
      · subst own
        exact (answered c).attend active connected moves
      · exact (answered c).elsewhere (others c own) (attend_elsewhere own world)

theorem answered_run {kind : Exchange → Event → Prop} {size : Nat} (run : Run maxConnects kind (start size) self) (c : Nat) :
    self.Answered c := by
  suffices both : self.traffic.Attended ∧ ∀ c, self.Answered c from both.2 c
  induction run with
  | refl =>
    refine ⟨Traffic.attended_start size, fun c => ⟨rfl, List.prefix_rfl, List.prefix_rfl, fun connected => ?_⟩⟩
    cases connected
  | tail _ step ih =>
    obtain ⟨event, _, step⟩ := step
    exact ⟨attended_step ih.1 step, Answered.step ih.2 ih.1 step⟩

/-- In every run from a server without connections, each message that arrives is handed out
at most once and in order; the responses queued, rejections of bad data apart, are the
answers to the batches in their order, and what is sent is a start of these. Nothing is
lost while the connection stays: it arrived and waits, or it was answered and is queued. -/
theorem requests_answered {kind : Exchange → Event → Prop} {size : Nat} (run : Run maxConnects kind (start size) self) (c : Nat) :
    (self.log c).queued.filter (·.responseCode ≠ .badRequest) = (self.log c).batches.flatMap Batch.answers ∧
      (self.log c).sent <+: (self.log c).queued ∧ (self.log c).handed <+: (self.log c).arrived ∧
      ((self.world.conn c).state = .connected →
        (self.log c).queued = (self.log c).sent ++ (self.world.conn c).outgoing ∧
        (self.log c).arrived = (self.log c).handed ++ (self.world.conn c).incoming) := by
  obtain ⟨answers, sent, handed, waiting⟩ := answered_run run c
  exact ⟨answers, sent, handed, waiting⟩

/-- A server whose only connection has just been accepted. -/
def opened : Exchange :=
  (start 16).note 0 (((start 16).world.create 1 0 .granted (.incoming 5 allOptions)).drop 0 .granted).world fun _ => {}

theorem opened_step : Step 1 (.create 0) (start 16) opened :=
  @Step.create 1 (start 16) 0 .granted (.incoming 5 allOptions)
    ⟨List.not_mem_nil, List.not_mem_nil, fun _ _ => List.forall_mem_nil _⟩ (by decide) (by decide)

/-- The same connection after a read. -/
def receive (exchange : Exchange) (bytes : Bytes) : Exchange :=
  exchange.read 0 (.received bytes) ((exchange.world.eventRead 0 (.received bytes)).elim exchange.world Ended.world)

theorem receive_step {exchange : Exchange} {bytes : Bytes}
    (returned : (exchange.world.eventRead 0 (.received bytes)).any fun ended => ended.thrown.isNone) :
    Step maxConnects (.eventRead 0 (.received bytes)) exchange (exchange.receive bytes) :=
  .eventRead (Traffic.eventRead_returned returned)

/-- A connection with a request that waits. -/
def requested : Exchange := opened.receive (ascii "GET / HTTP/1.1\r\nHost: a\r\n\r\n")

theorem requested_run : Run 1 (fun _ _ => True) (start 16) requested :=
  .tail (.tail .refl ⟨_, trivial, opened_step⟩) ⟨_, trivial, receive_step (by decide +kernel)⟩

theorem requests_answered_requested :
    (requested.log 0).arrived ≠ [] ∧
      (requested.pass.log 0).queued.filter (·.responseCode ≠ .badRequest) =
        (requested.pass.log 0).batches.flatMap Batch.answers ∧
      (requested.pass.log 0).sent <+: (requested.pass.log 0).queued ∧
      (requested.pass.log 0).handed <+: (requested.pass.log 0).arrived ∧
      ((requested.pass.world.conn 0).state = .connected →
        (requested.pass.log 0).queued = (requested.pass.log 0).sent ++ (requested.pass.world.conn 0).outgoing ∧
        (requested.pass.log 0).arrived = (requested.pass.log 0).handed ++ (requested.pass.world.conn 0).incoming) :=
  ⟨by decide +kernel, requests_answered (requested_run.tail ⟨.pass, trivial, .pass⟩) 0⟩

theorem run_attended {kind : Exchange → Event → Prop} (attended : self.traffic.Attended)
    (run : Run maxConnects kind self after) : after.traffic.Attended := by
  induction run with
  | refl => exact attended
  | tail _ step ih =>
    obtain ⟨_, _, step⟩ := step
    exact attended_step ih step

theorem pass_connections (self : Exchange) : self.pass.world.server.connections = self.world.server.connections := by
  cases active : self.world.server.activity with
  | nil => rw [pass_idle active]
  | cons c activity =>
    obtain ⟨messages, same⟩ := pass_traffic active
    have world : self.pass.world = self.traffic.serve.serve.world.sendMessages c messages := congrArg Traffic.world same
    rw [world, (serves_sendMessages _ c messages).connections, (Traffic.serve_keeps _).2, (Traffic.serve_keeps _).2]
    rfl

/-- The loop of the worker is a run of passes, at the end of which no connection is active. -/
theorem serve_passes (attended : self.traffic.Attended) :
    ∃ after, Run maxConnects (fun _ event => event = .pass) self after ∧ HttpWorker.serve self.world = some after.world ∧
      after.world.server.activity = [] ∧ after.world.server.connections = self.world.server.connections := by
  unfold HttpWorker.serve
  generalize same : self.world.server.activity = activity
  induction activity generalizing self with
  | nil =>
    have exits : HttpWorker.passStep self.world = .exit self.world := by
      rw [HttpWorker.passStep, Server.getActiveConnection, same]
    exact ⟨self, .refl, Loop.run_exit 0 exits, same, rfl⟩
  | cons c activity ih =>
    have active : c ∈ self.world.server.activity := by
      rw [same]
      exact List.mem_cons_self
    have connected := (attended.registry.connected c).mpr (attended.registry.activity c active)
    obtain ⟨middle, moves, rest, _⟩ := HttpWorker.passStep_active same connected
    have passed := pass_active same moves
    have step : Step maxConnects .pass self self.pass := .pass
    obtain ⟨after, run, served, idle, kept⟩ := @ih self.pass (attended_step attended step) (by rw [passed]; exact rest)
    refine ⟨after, .head ⟨.pass, rfl, step⟩ run, ?_, idle, kept.trans (pass_connections self)⟩
    rw [← served, passed]
    exact Loop.run_next _ moves

/-- From every state of the server the loop of the worker ends. It answers all messages of
every connected connection, in order, touches no other connection, and the poll waits for
each connection it leaves with something to send. -/
theorem round_answers {kind : Exchange → Event → Prop} {size : Nat} (run : Run maxConnects kind (start size) self) :
    ∃ after, HttpWorker.serve self.world = some after ∧ after.server.activity = [] ∧
      (∀ c, after.conn c = if (self.world.conn c).state = .connected then HttpWorker.answered (self.world.conn c)
        else self.world.conn c) ∧
      ∀ c ∈ self.world.server.connections, (after.conn c).outgoing ≠ [] →
        after.server.poll.inWrite (after.descriptor c) := by
  have attended := @run_attended (start size) self maxConnects kind (Traffic.attended_start size) run
  have registry : self.world.Registry := attended.registry
  obtain ⟨later, passes, served, idle, connections⟩ := @serve_passes self maxConnects attended
  obtain ⟨after, same, _, taken, left⟩ :=
    HttpWorker.serve_active fun c member => (registry.connected c).mpr (registry.activity c member)
  obtain rfl : after = later.world := Option.some.inj (same.symm.trans served)
  refine ⟨later.world, served, idle, fun c => ?_, fun c member => ?_⟩
  · by_cases active : c ∈ self.world.server.activity
    · rw [if_pos ((registry.connected c).mpr (registry.activity c active))]
      exact taken c active
    · rw [left c active]
      split
      next connected =>
        have attends := attended.attends c ((registry.connected c).mp connected)
        have none : (self.world.conn c).incoming = [] := by
          by_contra waiting
          exact (attends.incoming waiting).elim active nofun
        exact (HttpWorker.answered_idle none).symm
      next => rfl
  · exact ((run_attended attended passes).attends c (connections ▸ member)).outgoing

theorem round_answers_requested :
    (requested.world.conn 0).incoming ≠ [] ∧
      ∃ after, HttpWorker.serve requested.world = some after ∧ after.server.activity = [] ∧
        (∀ c, after.conn c = if (requested.world.conn c).state = .connected then HttpWorker.answered (requested.world.conn c)
          else requested.world.conn c) ∧
        ∀ c ∈ requested.world.server.connections, (after.conn c).outgoing ≠ [] →
          after.server.poll.inWrite (after.descriptor c) :=
  ⟨by decide +kernel, round_answers requested_run⟩

end Exchange
end LibWebserver
