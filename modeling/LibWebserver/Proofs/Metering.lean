import LibWebserver.Metering
import LibWebserver.Proofs.Conversation
import Mathlib.Algebra.BigOperators.Group.Finset.Basic

/-! The traffic counters against the sockets: the bytes received are those of the requests
counted, those cleared away and those in the buffers, and a response is counted in full,
once, when a part of it is accepted. -/

namespace LibWebserver
open CString

/-- The length of a request is that of its bytes, and it was deserialized from what they
are the beginning of. -/
def Portion.Sound : Portion → Prop
  | .request message length bytes =>
    length = bytes.length ∧ ∃ rest, IncomingHttpMessage.deserialize (bytes ++ rest) = some (.complete message length)
  | .cleared _ => True

namespace World

variable {w after : World} {c : Nat}

/-- What the bytes of a connection are after a read: portions and a rest. -/
structure Portioned (c : Nat) (w after : World) (stream : Bytes) (portions : List Portion) : Prop where
  held : ∃ rest, Holds (after.conn c).buffer rest ∧ stream = portions.flatMap Portion.bytes ++ rest
  incoming : (after.conn c).incoming = (w.conn c).incoming ++ portions.filterMap Portion.message
  sound : ∀ portion ∈ portions, portion.Sound

theorem passPortions_portioned {content : Bytes} (holds : Holds (w.conn c).buffer content) {fuel : Nat}
    (run : Loop.run (processStep c) fuel w = some (some ⟨after, none⟩)) :
    Portioned c w after content (passPortions c fuel w) := by
  induction fuel generalizing w content with
  | zero => cases run
  | succ fuel ih =>
    cases moved : processStep c w with
    | exit result =>
      rw [Loop.run_exit fuel moved] at run
      obtain rfl := Option.some.inj run
      have none : passPortions c (fuel + 1) w = [] := by rw [passPortions, moved]
      rw [none]
      refine ⟨⟨content, ?_, rfl⟩, ?_, List.forall_mem_nil _⟩
      · have same : (after.conn c).buffer = _ := processStep_exit moved
        rw [same]
        exact holds
      · rw [processStep_incoming moved]
        exact (List.append_nil _).symm
    | next middle =>
      rw [Loop.run_next fuel moved] at run
      obtain ⟨message, eof, buffer, found, erased, same⟩ := processStep_goes moved
      have conn : (middle.conn c).buffer = buffer ∧ (middle.conn c).incoming = (w.conn c).incoming ++ [message] := by
        rw [same, markActivity_conn, modify_conn]
        exact ⟨rfl, rfl⟩
      have inside := (erase_length (IncomingHttpMessage.deserialize_eof_lt found) erased).1
      rw [holds.length] at inside
      obtain ⟨again, erases, kept⟩ := holds_erase holds inside
      cases erased.symm.trans erases
      obtain ⟨⟨rest, held, split⟩, incoming, sound⟩ := ih (by rw [conn.1]; exact kept) run
      have portions : passPortions c (fuel + 1) w =
          .request message eof (content.take eof) :: passPortions c fuel middle := by
        rw [passPortions, moved, requestPortion, found, holds.content]
        rfl
      rw [portions]
      refine ⟨⟨rest, held, ?_⟩, ?_, List.forall_mem_cons.mpr ⟨?_, sound⟩⟩
      · rw [List.flatMap_cons, List.append_assoc, ← split]
        exact (List.take_append_drop eof content).symm
      · rw [incoming, conn.2, List.append_assoc]
        rfl
      · refine ⟨by rw [List.length_take, Nat.min_eq_left inside], content.drop eof, ?_⟩
        rw [List.take_append_drop, ← holds.content]
        exact found

/-- A read that fails closes the connection. -/
theorem eventRead_failed_portioned {content : Bytes} {result : RecvResult} {error : Exception}
    (connected : (w.conn c).state = .connected) (reserved : Holds (reserveBuffer (w.conn c).buffer) content)
    (failed : readStream bufferLength result = .error error) (nothing : result.bytes = [])
    (kept : storeRead (reserveBuffer (w.conn c).buffer) result = reserveBuffer (w.conn c).buffer)
    (returned : w.eventRead c result = some ⟨after, none⟩) :
    Portioned c w after (content ++ result.bytes) (w.readPortions c result) := by
  rw [eventRead, if_neg (not_not_intro connected), failed, kept] at returned
  have closed : after = ((w.setBuffer c (reserveBuffer (w.conn c).buffer)).close c).world :=
    (congrArg Ended.world (Option.some.inj returned)).symm
  rw [readPortions, if_neg (not_not_intro connected), failed, nothing]
  refine ⟨⟨content, ?_, List.append_nil _⟩, ?_, List.forall_mem_nil _⟩
  · rw [closed, close_buffer, setBuffer_conn]
    exact reserved
  · rw [closed, close_incoming, setBuffer_conn]
    exact (List.append_nil _).symm

theorem eventRead_received_portioned {content bytes : Bytes} (connected : (w.conn c).state = .connected)
    (reserved : Holds (reserveBuffer (w.conn c).buffer) content) (nonempty : bytes ≠ [])
    (space : bytes.length ≤ (reserveBuffer (w.conn c).buffer).reserved)
    (returned : w.eventRead c (.received bytes) = some ⟨after, none⟩) :
    Portioned c w after (content ++ bytes) (w.readPortions c (.received bytes)) := by
  obtain ⟨buffer, adjusted, kept⟩ := holds_read reserved space
  have stored : readStream bufferLength (.received bytes) = .ok bytes.length := by
    cases bytes with
    | nil => exact absurd rfl nonempty
    | cons => rfl
  have some : bytes.length ≠ 0 := (List.length_pos_iff.mpr nonempty).ne'
  rw [eventRead, if_neg (not_not_intro connected)] at returned
  dsimp only at returned
  rw [stored] at returned
  dsimp only at returned
  rw [adjusted] at returned
  dsimp only at returned
  rw [if_neg some, setBuffer_setBuffer] at returned
  rw [readPortions, if_neg (not_not_intro connected), stored]
  dsimp only
  rw [adjusted]
  dsimp only
  rw [if_neg some]
  have run := Option.join_eq_some_iff.mp returned
  have buffered : ((w.setBuffer c buffer).conn c).buffer = buffer := by rw [setBuffer_conn]
  have processed := passPortions_portioned (by rw [buffered]; exact kept) run
  rw [buffered] at processed
  exact ⟨processed.held, processed.incoming.trans (by rw [setBuffer_conn]), processed.sound⟩

/-- A read without bytes clears the buffer. -/
theorem eventRead_again_portioned {content : Bytes} {errno : Errno} (connected : (w.conn c).state = .connected)
    (reserved : Holds (reserveBuffer (w.conn c).buffer) content) (again : RecvResult.again (.failed errno))
    (returned : w.eventRead c (.failed errno) = some ⟨after, none⟩) :
    Portioned c w after content (w.readPortions c (.failed errno)) := by
  have nothing : readStream bufferLength (.failed errno) = .ok 0 := by
    obtain same | same := of_decide_eq_true again <;> rw [same] <;> rfl
  have kept : (storeRead (reserveBuffer (w.conn c).buffer) (.failed errno)).adjustLength (0 : Nat) =
      .ok (reserveBuffer (w.conn c).buffer) := rfl
  rw [eventRead, if_neg (not_not_intro connected)] at returned
  dsimp only at returned
  rw [nothing] at returned
  have cleared : after = (w.setBuffer c (reserveBuffer (w.conn c).buffer)).setBuffer c (reserveBuffer (w.conn c).buffer).clear :=
    (congrArg Ended.world (Option.some.inj returned)).symm
  rw [readPortions, if_neg (not_not_intro connected), nothing]
  dsimp only
  rw [kept]
  dsimp only
  rw [if_pos rfl]
  refine ⟨⟨[], ?_, ?_⟩, ?_, List.forall_mem_singleton.mpr trivial⟩
  · rw [cleared, setBuffer_conn]
    exact holds_clear reserved
  · rw [reserved.content]
    simp [Portion.bytes]
  · rw [cleared, setBuffer_conn, setBuffer_conn]
    exact (List.append_nil _).symm

theorem eventRead_portioned {content : Bytes} {result : RecvResult} (holds : Holds (w.conn c).buffer content)
    (room : content.length + 1501 < 2 ^ 64) (sound : (Operation.eventRead result).Sound)
    (returned : w.eventRead c result = some ⟨after, none⟩) :
    Portioned c w after (content ++ if (w.conn c).state = .connected then result.bytes else []) (w.readPortions c result) := by
  by_cases idle : (w.conn c).state ≠ .connected
  · rw [eventRead, if_pos idle] at returned
    obtain rfl : w = after := by simpa using returned
    rw [if_neg idle, readPortions, if_pos idle]
    exact ⟨⟨content, holds, List.append_nil _⟩, (List.append_nil _).symm, List.forall_mem_nil _⟩
  have connected := not_not.mp idle
  obtain ⟨reserved, space⟩ := holds_reserveBuffer holds room
  rw [if_pos connected]
  cases result with
  | received bytes =>
    cases bytes with
    | nil => exact eventRead_failed_portioned connected reserved rfl rfl (by simp [storeRead, memcpy]) returned
    | cons b bytes =>
      exact eventRead_received_portioned connected reserved (List.cons_ne_nil b bytes) (Nat.le_trans sound space) returned
  | failed errno =>
    by_cases again : RecvResult.again (.failed errno)
    · rw [show RecvResult.bytes (.failed errno) = [] from rfl, List.append_nil]
      exact eventRead_again_portioned connected reserved again returned
    · obtain ⟨error, failed⟩ := readStream_failed again
      exact eventRead_failed_portioned connected reserved failed rfl rfl returned

/-- Bytes that are parts of messages, each from its beginning. -/
def Beginnings (messages : List OutgoingHttpMessage) (wire : Bytes) : Prop :=
  ∃ pieces, wire = pieces.flatten ∧
    List.Forall₂ (fun message piece => ∃ count > 0, piece = message.onWire.take count) messages pieces

theorem Beginnings.append {messages more : List OutgoingHttpMessage} {wire rest : Bytes} (first : Beginnings messages wire)
    (later : Beginnings more rest) : Beginnings (messages ++ more) (wire ++ rest) := by
  obtain ⟨pieces, rfl, each⟩ := first
  obtain ⟨others, rfl, beyond⟩ := later
  exact ⟨pieces ++ others, List.flatten_append.symm, List.rel_append each beyond⟩

theorem writeMessages_beginnings (writable : w.Writable c) {queue done messages : List OutgoingHttpMessage}
    {answers : List SendResult} (split : queue = done ++ messages) :
    Beginnings (sentMessages queue (writeMessages c done.length messages answers w).calls)
      (taken queue (writeMessages c done.length messages answers w).calls) := by
  have nothing : Beginnings [] [] := ⟨[], rfl, .nil⟩
  induction messages generalizing done answers with
  | nil => exact nothing
  | cons message messages ih =>
    have here : queue[done.length]? = some message := by simp [split]
    have later {rest : List SendResult} := @ih (done ++ [message]) rest (by rw [split, List.append_assoc]; rfl)
    simp only [List.length_append, List.length_cons, List.length_nil, Nat.zero_add] at later
    have piece {count : Nat} (positive : 0 < count) : Beginnings [message]
        (SendCall.accepted queue ⟨done.length, 0, some (.accepted count)⟩) := by
      refine ⟨[message.onWire.take count], ?_, .cons ⟨count, positive, rfl⟩ .nil⟩
      unfold SendCall.accepted
      dsimp only
      rw [here]
      simp
    have turn : Turn c done.length message messages answers w _ := writeMessages_turn writable
    generalize writeMessages c done.length (message :: messages) answers w = run at turn ⊢
    cases turn with
    | empty => exact nothing
    | waits =>
      dsimp only
      rw [sentMessages_callsFor, taken_callsFor, accepted_none]
      exact nothing
    | fails _ fails =>
      dsimp only
      rw [sentMessages_callsFor, taken_callsFor, accepted_fails fails, sentMessages_fails fails]
      exact nothing
    | last _ positive =>
      dsimp only
      rw [sentMessages_callsFor, taken_callsFor, sentMessages_accepted here positive]
      exact piece positive
    | @next count rest _ positive more =>
      dsimp only
      rw [sentMessages_append, taken_append, sentMessages_callsFor, taken_callsFor, sentMessages_accepted here positive]
      exact (piece positive).append (@later rest)

end World

/-- A run of the server with its counters, the connections made in it and what became of
the bytes of each. -/
structure Meter where
  exchange : Exchange
  counters : Counters
  made : Finset Nat
  portions : Nat → List Portion

namespace Meter
open World

def start (size : Nat) : Meter where
  exchange := .start size
  counters := {}
  made := ∅
  portions _ := []

/-- What an event reports. -/
def record (self : Meter) (after : Exchange) : Exchange.Event → Meter
  | .create c => { self with exchange := after, made := insert c self.made, portions := Function.update self.portions c [] }
  | .eventRead c result =>
    let portions := self.exchange.world.readPortions c result
    { self with
      exchange := after
      counters := portions.foldl Portion.report self.counters
      portions := Function.update self.portions c (self.portions c ++ portions) }
  | .eventWrite c answers =>
    let sent := sentMessages (self.exchange.world.conn c).outgoing (self.exchange.world.eventWrite c answers).calls
    { self with exchange := after, counters := sent.foldl Counters.servedRequest self.counters }
  | _ => { self with exchange := after }

/-- A connection is made once, `recv` stores no more than it was given room for, and the
bytes held leave room in the address space. -/
def Fits (self : Meter) : Exchange.Event → Prop
  | .create c => c ∉ self.made
  | .eventRead c result => (Operation.eventRead result).Sound ∧
      (self.exchange.world.conn c).buffer.content.length + 1501 < 2 ^ 64
  | _ => True

def Run (maxConnects : Nat) : Meter → Meter → Prop :=
  Relation.ReflTransGen fun meter next => ∃ event after, meter.Fits event ∧
    Exchange.Step maxConnects event meter.exchange after ∧ next = meter.record after event

variable {self : Meter} {after : Exchange} {c maxConnects : Nat} {event : Exchange.Event}

/-- Nothing that was received is missing or counted twice, and nothing is sent but parts of
the responses counted. -/
structure Balanced (exchange : Exchange) (portions : List Portion) (c : Nat) : Prop where
  received : ∃ rest, Holds (exchange.world.conn c).buffer rest ∧
    (exchange.log c).received = portions.flatMap Portion.bytes ++ rest
  arrived : (exchange.log c).arrived = portions.filterMap Portion.message
  sound : ∀ portion ∈ portions, portion.Sound
  sent : Beginnings (exchange.log c).sent (exchange.log c).wire

theorem Balanced.elsewhere {exchange : Exchange} {portions : List Portion} (balanced : Balanced exchange portions c)
    (buffer : (after.world.conn c).buffer = (exchange.world.conn c).buffer) (received : (after.log c).received = (exchange.log c).received)
    (arrived : (after.log c).arrived = (exchange.log c).arrived) (sent : (after.log c).sent = (exchange.log c).sent)
    (wire : (after.log c).wire = (exchange.log c).wire) : Balanced after portions c := by
  obtain ⟨⟨rest, holds, split⟩, messages, sound, beginnings⟩ := balanced
  refine ⟨⟨rest, ?_, ?_⟩, ?_, sound, ?_⟩
  · rw [buffer]
    exact holds
  · rw [received]
    exact split
  · rw [arrived]
    exact messages
  · rw [sent, wire]
    exact beginnings

theorem Balanced.other {exchange : Exchange} {portions : List Portion} (balanced : Balanced exchange portions c)
    (conn : after.world.conn c = exchange.world.conn c) (log : after.log c = exchange.log c) : Balanced after portions c :=
  balanced.elsewhere (by rw [conn]) (by rw [log]) (by rw [log]) (by rw [log]) (by rw [log])

theorem Balanced.read {exchange : Exchange} {portions : List Portion} (balanced : Balanced exchange portions c)
    {result : RecvResult} {world : World} (room : (exchange.world.conn c).buffer.content.length + 1501 < 2 ^ 64)
    (sound : (Operation.eventRead result).Sound) (returned : exchange.world.eventRead c result = some ⟨world, none⟩) :
    Balanced (exchange.read c result world) (portions ++ exchange.world.readPortions c result) c := by
  obtain ⟨⟨rest, holds, split⟩, messages, each, beginnings⟩ := balanced
  rw [holds.content] at room
  obtain ⟨⟨left, held, cut⟩, incoming, more⟩ := eventRead_portioned holds room sound returned
  unfold Exchange.read
  refine ⟨⟨left, held, ?_⟩, ?_, List.forall_mem_append.mpr ⟨each, more⟩, ?_⟩ <;> rw [Exchange.note_log]
  · dsimp only
    rw [split, List.append_assoc, cut, List.flatMap_append, List.append_assoc]
  · dsimp only
    rw [messages, incoming, List.drop_left, List.filterMap_append]
  · exact beginnings

theorem Balanced.write {exchange : Exchange} {portions : List Portion} (balanced : Balanced exchange portions c)
    (registry : exchange.world.Registry) (answers : List SendResult) :
    Balanced (exchange.write c (exchange.world.eventWrite c answers)) portions c := by
  have buffer := eventWrite_buffer exchange.world c answers
  have sends : Beginnings (sentMessages (exchange.world.conn c).outgoing (exchange.world.eventWrite c answers).calls)
      (taken (exchange.world.conn c).outgoing (exchange.world.eventWrite c answers).calls) := by
    have nothing : Beginnings [] [] := ⟨[], rfl, .nil⟩
    by_cases connected : (exchange.world.conn c).state = .connected
    · have member := (registry.connected c).mp connected
      by_cases empty : (exchange.world.conn c).outgoing = []
      · rw [eventWrite, if_neg (not_not_intro connected), if_pos empty]
        exact nothing
      · have conn : (exchange.world.modify c ({ · with outgoing := [] })).conn c =
            { exchange.world.conn c with outgoing := [] } := modify_conn _ c _
        have taking : (exchange.world.modify c ({ · with outgoing := [] })).Writable c :=
          ⟨by rw [conn]; exact connected, by rw [descriptor, conn]; exact (registry.inside c member).1⟩
        rw [eventWrite, if_neg (not_not_intro connected), if_neg empty]
        exact @writeMessages_beginnings _ c taking (exchange.world.conn c).outgoing [] _ answers rfl
    · rw [eventWrite, if_pos connected]
      exact nothing
  obtain ⟨⟨rest, holds, split⟩, messages, each, beginnings⟩ := balanced
  unfold Exchange.write
  refine ⟨⟨rest, ?_, ?_⟩, ?_, each, ?_⟩
  · exact buffer ▸ holds
  · rw [Exchange.note_log]
    exact split
  · rw [Exchange.note_log]
    exact messages
  · rw [Exchange.note_log]
    exact beginnings.append sends

theorem Balanced.attend {exchange : Exchange} {portions : List Portion} (balanced : Balanced exchange portions c)
    {world : World} (conn : world.conn c = HttpWorker.answered (exchange.world.conn c)) :
    Balanced (exchange.attend c world) portions c := by
  unfold Exchange.attend
  dsimp only
  refine balanced.elsewhere ?_ ?_ ?_ ?_ ?_
  · change (world.conn c).buffer = _
    rw [conn]
    rfl
  all_goals rw [Exchange.note_log]

theorem balanced_made (exchange : Exchange) (maxConnects c : Nat) (answers : PollAnswers) (attempt : Attempt) :
    Balanced (exchange.note c ((exchange.world.create maxConnects c answers attempt).drop c answers).world fun _ => {}) [] c := by
  have buffer : ((exchange.note c ((exchange.world.create maxConnects c answers attempt).drop c answers).world
      fun _ => {}).world.conn c).buffer = .ofSize bufferLength :=
    (Created.drop_held _ c answers).trans (create_held exchange.world maxConnects c answers attempt)
  refine ⟨⟨[], ?_, ?_⟩, ?_, List.forall_mem_nil _, ?_⟩
  · rw [buffer]
    exact ⟨valid_ofSize (by decide), content_ofSize _⟩
  · rw [Exchange.note_log]
    rfl
  · rw [Exchange.note_log]
    rfl
  · rw [Exchange.note_log]
    exact ⟨[], rfl, .nil⟩

theorem balanced_step (balanced : ∀ c, Balanced self.exchange (self.portions c) c) (attended : self.exchange.traffic.Attended)
    (fits : self.Fits event) (step : Exchange.Step maxConnects event self.exchange after) :
    ∀ c, Balanced (self.record after event).exchange ((self.record after event).portions c) c := by
  have registry : self.exchange.world.Registry := attended.registry
  intro c
  cases step with
  | ready => exact (balanced c).other rfl rfl
  | @create _ d answers attempt unused returned straight =>
    unfold record
    dsimp only
    by_cases own : c = d
    · subst own
      rw [Function.update_self]
      exact balanced_made self.exchange maxConnects c answers attempt
    · rw [Function.update_of_ne own]
      refine (balanced c).other ?_ (Exchange.note_elsewhere own _ _)
      exact (create_drop registry unused returned straight).elim (·.others c own) (·.others c own)
  | @eventRead _ d result world returned =>
    unfold record
    dsimp only
    by_cases own : c = d
    · subst own
      rw [Function.update_self]
      exact (balanced c).read fits.2 fits.1 returned
    · rw [Function.update_of_ne own]
      have confined := perform_confined self.exchange.world d (.eventRead result)
      rw [perform, returned] at confined
      exact (balanced c).other (confined.others c own) (Exchange.note_elsewhere own _ _)
  | @eventWrite _ d answers returned =>
    by_cases own : c = d
    · subst own
      exact (balanced c).write registry answers
    · change Balanced (self.exchange.write d (self.exchange.world.eventWrite d answers)) (self.portions c) c
      exact (balanced c).other ((eventWrite_confined self.exchange.world d answers).others c own)
        (Exchange.note_elsewhere own _ _)
  | @eventError _ d =>
    by_cases own : c = d
    · subst own
      refine (balanced c).elsewhere ?_ rfl rfl rfl rfl
      change ((self.exchange.world.eventError c).world.conn c).buffer = _
      unfold World.eventError
      split
      · rfl
      · exact close_buffer _ c
    · exact (balanced c).other ((perform_confined self.exchange.world d .eventError).others c own) rfl
  | pass =>
    change Balanced self.exchange.pass (self.portions c) c
    cases active : self.exchange.world.server.activity with
    | nil =>
      rw [Exchange.pass_idle active]
      exact balanced c
    | cons d activity =>
      have connected := (registry.connected d).mpr (registry.activity d (by rw [active]; exact List.mem_cons_self))
      obtain ⟨world, moves, _, conn, others⟩ := HttpWorker.passStep_active active connected
      rw [Exchange.pass_active active moves]
      by_cases own : c = d
      · subst own
        exact (balanced c).attend conn
      · exact (balanced c).other (others c own) (Exchange.attend_elsewhere own world)

theorem sum_bump {before after : Nat → Nat} {made : Finset Nat} {c added : Nat} (others : ∀ d, d ≠ c → after d = before d)
    (own : after c = before c + added) (member : c ∈ made ∨ added = 0) :
    ∑ d ∈ made, after d = ∑ d ∈ made, before d + added := by
  by_cases inside : c ∈ made
  · rw [← Finset.add_sum_erase made after inside, ← Finset.add_sum_erase made before inside, own,
      Finset.sum_congr rfl fun d other => others d (Finset.ne_of_mem_erase other), Nat.add_right_comm]
  · obtain rfl := member.resolve_left inside
    exact Finset.sum_congr rfl fun d there => others d fun same => inside (same ▸ there)

theorem sum_made {before after : Nat → Nat} {made : Finset Nat} {c : Nat} (new : c ∉ made) (others : ∀ d, d ≠ c → after d = before d)
    (none : after c = 0) : ∑ d ∈ insert c made, after d = ∑ d ∈ made, before d := by
  rw [Finset.sum_insert new, none, Nat.zero_add]
  exact Finset.sum_congr rfl fun d member => others d fun own => new (own ▸ member)

def counted (portions : List Portion) : Nat := (portions.map Portion.counted).sum

def lengths (messages : List OutgoingHttpMessage) : Nat := (messages.map (·.getLength)).sum

def count (code : HttpCode) (messages : List OutgoingHttpMessage) : Nat := messages.countP (·.responseCode = code)

theorem report_foldl (portions : List Portion) (counters : Counters) :
    portions.foldl Portion.report counters =
      { counters with trafficIn := counters.trafficIn + UInt64.ofNat (counted portions) } := by
  induction portions generalizing counters with
  | nil => simp [counted]
  | cons portion portions ih =>
    rw [List.foldl_cons, ih, counted, counted, List.map_cons, List.sum_cons, UInt64.ofNat_add]
    cases portion <;> simp [Portion.report, Portion.counted, Counters.incomingRequest, UInt64.add_assoc]

theorem servedRequest_foldl (messages : List OutgoingHttpMessage) (counters : Counters) :
    messages.foldl Counters.servedRequest counters =
      { counters with
        trafficOut := counters.trafficOut + UInt64.ofNat (lengths messages)
        httpServed := fun code => counters.httpServed code + UInt64.ofNat (count code messages) } := by
  induction messages generalizing counters with
  | nil => simp [lengths, count]
  | cons message messages ih =>
    rw [List.foldl_cons, ih, lengths, lengths, List.map_cons, List.sum_cons, UInt64.ofNat_add]
    simp only [Counters.servedRequest, UInt64.add_assoc, Counters.mk.injEq, true_and]
    funext code
    rw [count, count, List.countP_cons, Function.update_apply]
    by_cases own : code = message.responseCode
    · subst own
      rw [if_pos rfl, if_pos (decide_eq_true rfl), Nat.add_comm, UInt64.ofNat_add, UInt64.add_assoc]
      rfl
    · simp [own, Ne.symm own]

/-- The counters are the sums over the connections made. -/
structure Summed (meter : Meter) : Prop where
  trafficIn : meter.counters.trafficIn = UInt64.ofNat (∑ c ∈ meter.made, counted (meter.portions c))
  trafficOut : meter.counters.trafficOut = UInt64.ofNat (∑ c ∈ meter.made, lengths (meter.exchange.log c).sent)
  httpServed : ∀ code, meter.counters.httpServed code =
    UInt64.ofNat (∑ c ∈ meter.made, count code (meter.exchange.log c).sent)
  listed : ∀ c, (meter.exchange.world.conn c).state = .connected → c ∈ meter.made

/-- An event that counts nothing and connects nobody. -/
theorem Summed.quiet (summed : self.Summed) (sent : ∀ c, (after.log c).sent = (self.exchange.log c).sent)
    (state : ∀ c, (after.world.conn c).state = .connected → (self.exchange.world.conn c).state = .connected) :
    Summed { self with exchange := after } := by
  obtain ⟨trafficIn, trafficOut, httpServed, listed⟩ := summed
  refine ⟨trafficIn, ?_, fun code => ?_, fun c connected => listed c (state c connected)⟩
  · simp only [sent]
    exact trafficOut
  · simp only [sent]
    exact httpServed code

theorem Summed.create (summed : self.Summed) (new : c ∉ self.made) (log : after.log c = {})
    (others : ∀ d, d ≠ c → after.log d = self.exchange.log d ∧ after.world.conn d = self.exchange.world.conn d) :
    Summed (self.record after (.create c)) := by
  obtain ⟨trafficIn, trafficOut, httpServed, listed⟩ := summed
  refine ⟨?_, ?_, fun code => ?_, fun d connected => ?_⟩ <;> unfold record <;> dsimp only
  · rw [trafficIn, @sum_made (fun d => counted (self.portions d)) (fun d => counted (Function.update self.portions c [] d))
      self.made c new (fun d other => by rw [Function.update_of_ne other]) (by rw [Function.update_self]; rfl)]
  · rw [trafficOut, @sum_made (fun d => lengths (self.exchange.log d).sent) (fun d => lengths (after.log d).sent)
      self.made c new (fun d other => by rw [(others d other).1]) (by rw [log]; rfl)]
  · rw [httpServed code, @sum_made (fun d => count code (self.exchange.log d).sent) (fun d => count code (after.log d).sent)
      self.made c new (fun d other => by rw [(others d other).1]) (by rw [log]; rfl)]
  · by_cases own : d = c
    · exact Finset.mem_insert.mpr (.inl own)
    · refine Finset.mem_insert_of_mem (listed d ?_)
      rw [← (others d own).2]
      exact connected

theorem Summed.read (summed : self.Summed) (result : RecvResult) (world : World)
    (idle : (self.exchange.world.conn c).state ≠ .connected → world = self.exchange.world)
    (others : ∀ d, d ≠ c → world.conn d = self.exchange.world.conn d) :
    Summed (self.record (self.exchange.read c result world) (.eventRead c result)) := by
  obtain ⟨trafficIn, trafficOut, httpServed, listed⟩ := summed
  have sent (d : Nat) : ((self.exchange.read c result world).log d).sent = (self.exchange.log d).sent := by
    by_cases own : d = c
    · subst own
      rw [Exchange.read, Exchange.note_log]
    · exact congrArg Log.sent (Exchange.note_elsewhere own _ _)
  refine ⟨?_, ?_, fun code => ?_, fun d connected => ?_⟩ <;> unfold record <;> dsimp only
  · have told := @sum_bump (fun d => counted (self.portions d))
      (fun d => counted (Function.update self.portions c (self.portions c ++ self.exchange.world.readPortions c result) d))
      self.made c (counted (self.exchange.world.readPortions c result))
      (fun d other => by rw [Function.update_of_ne other])
      (by rw [Function.update_self, counted, List.map_append, List.sum_append]; rfl) ?_
    · rw [told, report_foldl, UInt64.ofNat_add, trafficIn]
    · by_cases connected : (self.exchange.world.conn c).state = .connected
      · exact .inl (listed c connected)
      · right
        rw [readPortions, if_pos connected]
        rfl
  · simp only [sent, report_foldl]
    exact trafficOut
  · simp only [sent, report_foldl]
    exact httpServed code
  · refine listed d ?_
    by_cases own : d = c
    · subst own
      by_contra before
      rw [idle before] at connected
      exact before connected
    · rw [← others d own]
      exact connected

theorem Summed.write (summed : self.Summed) (answers : List SendResult) :
    Summed (self.record (self.exchange.write c (self.exchange.world.eventWrite c answers)) (.eventWrite c answers)) := by
  obtain ⟨trafficIn, trafficOut, httpServed, listed⟩ := summed
  have own : ((self.exchange.write c (self.exchange.world.eventWrite c answers)).log c).sent = (self.exchange.log c).sent ++
      sentMessages (self.exchange.world.conn c).outgoing (self.exchange.world.eventWrite c answers).calls := by
    rw [Exchange.write, Exchange.note_log]
  have others {d : Nat} (other : d ≠ c) :
      ((self.exchange.write c (self.exchange.world.eventWrite c answers)).log d).sent = (self.exchange.log d).sent :=
    congrArg Log.sent (Exchange.note_elsewhere other _ _)
  have idle : (self.exchange.world.conn c).state ≠ .connected →
      self.exchange.world.eventWrite c answers = ⟨self.exchange.world, [], true, none⟩ := fun idle => if_pos idle
  have listens : c ∈ self.made ∨ sentMessages (self.exchange.world.conn c).outgoing
      (self.exchange.world.eventWrite c answers).calls = [] := by
    by_cases connected : (self.exchange.world.conn c).state = .connected
    · exact .inl (listed c connected)
    · right
      rw [idle connected]
      rfl
  refine ⟨?_, ?_, fun code => ?_, fun d connected => ?_⟩ <;> unfold record <;> dsimp only
  · rw [servedRequest_foldl]
    exact trafficIn
  · have told := @sum_bump (fun d => lengths (self.exchange.log d).sent)
      (fun d => lengths ((self.exchange.write c (self.exchange.world.eventWrite c answers)).log d).sent) self.made c
      (lengths (sentMessages (self.exchange.world.conn c).outgoing (self.exchange.world.eventWrite c answers).calls))
      (fun d other => by rw [others other]) (by rw [own, lengths, List.map_append, List.sum_append]; rfl)
      (listens.imp_right fun none => by rw [none]; rfl)
    rw [told, servedRequest_foldl, UInt64.ofNat_add, trafficOut]
  · have told := @sum_bump (fun d => count code (self.exchange.log d).sent)
      (fun d => count code ((self.exchange.write c (self.exchange.world.eventWrite c answers)).log d).sent) self.made c
      (count code (sentMessages (self.exchange.world.conn c).outgoing (self.exchange.world.eventWrite c answers).calls))
      (fun d other => by rw [others other]) (by rw [own, count, List.countP_append]; rfl)
      (listens.imp_right fun none => by rw [none]; rfl)
    rw [told, servedRequest_foldl, UInt64.ofNat_add]
    dsimp only
    rw [httpServed code]
  · refine listed d ?_
    by_cases own : d = c
    · subst own
      by_contra before
      rw [idle before] at connected
      exact before connected
    · rw [← (eventWrite_confined self.exchange.world c answers).others d own]
      exact connected

theorem summed_step (summed : self.Summed) (attended : self.exchange.traffic.Attended) (fits : self.Fits event)
    (step : Exchange.Step maxConnects event self.exchange after) : (self.record after event).Summed := by
  have registry : self.exchange.world.Registry := attended.registry
  cases step with
  | ready => exact summed.quiet (fun _ => rfl) fun _ connected => connected
  | @create _ c answers attempt unused returned straight =>
    refine summed.create fits (Exchange.note_log _ c _ _) fun d other => ⟨Exchange.note_elsewhere other _ _, ?_⟩
    exact (create_drop registry unused returned straight).elim (·.others d other) (·.others d other)
  | @eventRead _ c result world returned =>
    have confined := perform_confined self.exchange.world c (.eventRead result)
    rw [perform, returned] at confined
    refine summed.read result world (fun idle => ?_) confined.others
    rw [World.eventRead, if_pos idle] at returned
    exact (congrArg Ended.world (Option.some.inj returned)).symm
  | eventWrite returned => exact summed.write _
  | @eventError _ c =>
    refine summed.quiet (fun _ => rfl) fun d connected => ?_
    by_cases own : d = c
    · subst own
      change ((self.exchange.world.eventError d).world.conn d).state = _ at connected
      unfold World.eventError at connected
      split at connected
      · exact connected
      · obtain ⟨fd, closed⟩ := close_conn self.exchange.world d
        rw [closed] at connected
        cases connected
    · rw [← (perform_confined self.exchange.world c .eventError).others d own]
      exact connected
  | pass =>
    change Summed { self with exchange := self.exchange.pass }
    cases active : self.exchange.world.server.activity with
    | nil =>
      rw [Exchange.pass_idle active]
      exact summed
    | cons c activity =>
      have linked := (registry.connected c).mpr (registry.activity c (by rw [active]; exact List.mem_cons_self))
      obtain ⟨world, moves, _, conn, others⟩ := HttpWorker.passStep_active active linked
      rw [Exchange.pass_active active moves]
      refine summed.quiet (fun d => ?_) fun d connected => ?_
      · by_cases own : d = c
        · subst own
          unfold Exchange.attend
          dsimp only
          rw [Exchange.note_log]
        · rw [Exchange.attend_elsewhere own]
      · by_cases own : d = c
        · exact own ▸ linked
        · rw [← others d own]
          exact connected

def lost (portions : List Portion) : Nat := (portions.map Portion.lost).sum

theorem counted_lost {portions : List Portion} (sound : ∀ portion ∈ portions, portion.Sound) :
    (portions.flatMap Portion.bytes).length = counted portions + lost portions := by
  induction portions with
  | nil => rfl
  | cons portion portions ih =>
    obtain ⟨first, rest⟩ := List.forall_mem_cons.mp sound
    have own : portion.bytes.length = portion.counted + portion.lost := by
      cases portion with
      | request message length bytes => exact first.1.symm
      | cleared bytes => exact (Nat.zero_add _).symm
    rw [List.flatMap_cons, List.length_append, ih rest, own, counted, counted, lost, lost, List.map_cons, List.map_cons,
      List.sum_cons, List.sum_cons]
    omega

theorem run_balanced {size : Nat} (run : Run maxConnects (start size) self) :
    self.exchange.traffic.Attended ∧ (∀ c, Balanced self.exchange (self.portions c) c) ∧ self.Summed := by
  induction run with
  | refl =>
    refine ⟨Traffic.attended_start size, fun c => ⟨⟨[], ?_, rfl⟩, rfl, List.forall_mem_nil _, ⟨[], rfl, .nil⟩⟩, ?_⟩
    · exact ⟨valid_ofSize (by decide), content_ofSize _⟩
    · exact ⟨rfl, rfl, fun _ => rfl, fun c connected => State.noConfusion connected⟩
  | tail _ step ih =>
    obtain ⟨event, after, fits, step, rfl⟩ := step
    obtain ⟨attended, balanced, summed⟩ := ih
    refine ⟨?_, balanced_step balanced attended fits step, summed_step summed attended fits step⟩
    have same (meter : Meter) : (meter.record after event).exchange = after := by cases event <;> rfl
    rw [same]
    exact Exchange.attended_step attended step

/-- In every run of a server whose handlers return, the traffic counters are sums over the
connections made, modulo 2^64. For each of these, the bytes received are those of the
requests counted in the order in which they arrived, those that reads without bytes cleared
away, and what is in the buffer; and the bytes sent are a part of each response counted,
from its beginning. -/
theorem traffic_balanced {size : Nat} (run : Run maxConnects (start size) self) :
    self.counters.trafficIn = UInt64.ofNat (∑ c ∈ self.made, counted (self.portions c)) ∧
      self.counters.trafficOut = UInt64.ofNat (∑ c ∈ self.made, lengths (self.exchange.log c).sent) ∧
      (∀ code, self.counters.httpServed code = UInt64.ofNat (∑ c ∈ self.made, count code (self.exchange.log c).sent)) ∧
      ∀ c, (self.exchange.log c).received =
          (self.portions c).flatMap Portion.bytes ++ (self.exchange.world.conn c).buffer.content ∧
        (self.exchange.log c).received.length =
          counted (self.portions c) + lost (self.portions c) + (self.exchange.world.conn c).buffer.length ∧
        (self.exchange.log c).arrived = (self.portions c).filterMap Portion.message ∧
        (∀ portion ∈ self.portions c, portion.Sound) ∧ Beginnings (self.exchange.log c).sent (self.exchange.log c).wire := by
  obtain ⟨-, balanced, summed⟩ := run_balanced run
  refine ⟨summed.trafficIn, summed.trafficOut, summed.httpServed, fun c => ?_⟩
  obtain ⟨⟨rest, holds, split⟩, arrived, sound, sent⟩ := balanced c
  rw [holds.content, holds.length]
  refine ⟨split, ?_, arrived, sound, sent⟩
  rw [split, List.length_append, counted_lost sound]

/-- A request as it arrives. -/
def asked : RecvResult := .received (ascii "GET / HTTP/1.1\r\nHost: a\r\n\r\n")

/-- A connection that was asked once. -/
def questioned : Meter :=
  ((start 16).record Exchange.opened (.create 0)).record Exchange.requested (.eventRead 0 asked)

theorem questioned_run : Run 1 (start 16) questioned := by
  have made : Run 1 (start 16) ((start 16).record Exchange.opened (.create 0)) :=
    .tail .refl ⟨.create 0, Exchange.opened, Finset.notMem_empty 0, Exchange.opened_step, rfl⟩
  have short : (ascii "GET / HTTP/1.1\r\nHost: a\r\n\r\n").length ≤ bufferLength := by decide +kernel
  have received : Exchange.Step 1 (.eventRead 0 asked) Exchange.opened Exchange.requested :=
    Exchange.receive_step (by decide +kernel)
  exact made.tail ⟨.eventRead 0 asked, Exchange.requested, ⟨short, by decide +kernel⟩, received, rfl⟩

theorem traffic_balanced_questioned :
    questioned.counters.trafficIn = 27 ∧
      questioned.counters.trafficIn = UInt64.ofNat (∑ c ∈ questioned.made, counted (questioned.portions c)) ∧
      questioned.counters.trafficOut = UInt64.ofNat (∑ c ∈ questioned.made, lengths (questioned.exchange.log c).sent) ∧
      (∀ code, questioned.counters.httpServed code =
        UInt64.ofNat (∑ c ∈ questioned.made, count code (questioned.exchange.log c).sent)) ∧
      ∀ c, (questioned.exchange.log c).received =
          (questioned.portions c).flatMap Portion.bytes ++ (questioned.exchange.world.conn c).buffer.content ∧
        (questioned.exchange.log c).received.length =
          counted (questioned.portions c) + lost (questioned.portions c) + (questioned.exchange.world.conn c).buffer.length ∧
        (questioned.exchange.log c).arrived = (questioned.portions c).filterMap Portion.message ∧
        (∀ portion ∈ questioned.portions c, portion.Sound) ∧
        Beginnings (questioned.exchange.log c).sent (questioned.exchange.log c).wire :=
  ⟨by decide +kernel, traffic_balanced questioned_run⟩

end Meter
end LibWebserver
