import LibWebserver.Proofs.Admission
import LibWebserver.Traffic

/-! No wake-up is lost. A connection with messages is active until the worker has asked
it, and one with something to send is waited for. -/

namespace LibWebserver

namespace Traffic
open World

/-- The operations of a server, one at a time in any order. The kernel gives descriptors
that no connection has, reads return normally, and no mask goes astray. -/
inductive Step (maxConnects : Nat) : Traffic → Traffic → Prop where
  | create {traffic c answers attempt} (unused : traffic.world.Unused c attempt.opened)
      (returned : (traffic.world.create maxConnects c answers attempt).exit = .returned)
      (straight : (traffic.world.create maxConnects c answers attempt).outside = false) :
      Step maxConnects traffic { traffic with
        world := ((traffic.world.create maxConnects c answers attempt).drop c answers).world
        arrived := Function.update traffic.arrived c []
        handed := Function.update traffic.handed c [] }
  | eventRead {traffic c result after} (returned : traffic.world.eventRead c result = some ⟨after, none⟩) :
      Step maxConnects traffic (traffic.record c after)
  | eventWrite {traffic c answers} (returned : (traffic.world.eventWrite c answers).returned) :
      Step maxConnects traffic { traffic with world := (traffic.world.eventWrite c answers).world }
  | eventError {traffic c} : Step maxConnects traffic { traffic with world := (traffic.world.eventError c).world }
  | sendMessage {traffic c message} :
      Step maxConnects traffic { traffic with world := traffic.world.sendMessage c message }
  | close {traffic c} : Step maxConnects traffic { traffic with world := (traffic.world.close c).world }
  | serve {traffic} : Step maxConnects traffic traffic.serve

/-- What a read adds to the messages that arrived is what `Deserialize` completed. -/
theorem record_arrived {traffic : Traffic} {c : Nat} {result : RecvResult} {after : World}
    (returned : traffic.world.eventRead c result = some ⟨after, none⟩) :
    ∃ messages buffer last, (traffic.record c after).arrived c = traffic.arrived c ++ messages ∧
      Deserializes c (traffic.world.setBuffer c buffer) messages last := by
  obtain ⟨messages, buffer, last, deserializes, incoming⟩ := eventRead_deserializes returned
  refine ⟨messages, buffer, last, ?_, deserializes⟩
  unfold record
  dsimp only
  rw [Function.update_self, incoming, List.drop_left]

/-- What a connection of the registry can rely on. -/
structure Attends (traffic : Traffic) (c : Nat) : Prop where
  incoming : (traffic.world.conn c).incoming ≠ [] → c ∈ traffic.world.server.activity ∨ traffic.popped = some c
  outgoing : (traffic.world.conn c).outgoing ≠ [] → traffic.world.server.poll.inWrite (traffic.world.descriptor c)
  order : traffic.arrived c = traffic.handed c ++ (traffic.world.conn c).incoming

structure Attended (traffic : Traffic) : Prop where
  registry : traffic.world.Registry
  attends : ∀ c ∈ traffic.world.server.connections, traffic.Attends c

variable {traffic after : Traffic} {c maxConnects : Nat}

/-- Everything but one connection. -/
structure Elsewhere (c : Nat) (traffic after : Traffic) : Prop where
  conn : ∀ d, d ≠ c → after.world.conn d = traffic.world.conn d
  connections : ∀ d, d ≠ c → d ∈ after.world.server.connections → d ∈ traffic.world.server.connections
  active : ∀ d, d ≠ c → d ∈ traffic.world.server.activity → d ∈ after.world.server.activity
  popped : ∀ d, d ≠ c → traffic.popped = some d → after.popped = some d
  masks : ∀ d, d ≠ c → d ∈ after.world.server.connections →
    after.world.server.poll.eventMask (traffic.world.descriptor d) =
      traffic.world.server.poll.eventMask (traffic.world.descriptor d)
  arrived : ∀ d, d ≠ c → after.arrived d = traffic.arrived d
  handed : ∀ d, d ≠ c → after.handed d = traffic.handed d

theorem Attended.moves (attended : traffic.Attended) (registry : after.world.Registry) (elsewhere : Elsewhere c traffic after)
    (own : c ∈ after.world.server.connections → after.Attends c) : after.Attended := by
  refine ⟨registry, fun d member => ?_⟩
  by_cases same : d = c
  · subst same
    exact own member
  have attends := attended.attends d (elsewhere.connections d same member)
  have conn := elsewhere.conn d same
  have held : after.world.descriptor d = traffic.world.descriptor d := congrArg Connection.fd conn
  refine ⟨?_, ?_, ?_⟩
  · rw [conn]
    exact fun waiting => (attends.incoming waiting).imp (elsewhere.active d same) (elsewhere.popped d same)
  · rw [conn, held]
    intro queued
    unfold Poll.inWrite
    rw [elsewhere.masks d same member]
    exact attends.outgoing queued
  · rw [conn, elsewhere.arrived d same, elsewhere.handed d same]
    exact attends.order

theorem record_quiet {world : World} (same : (world.conn c).incoming = (traffic.world.conn c).incoming) :
    traffic.record c world = { traffic with world } := by
  unfold record
  dsimp only
  rw [same, List.drop_length, List.append_nil, Function.update_eq_self]

theorem Attended.elsewhere (attended : traffic.Attended) (opened : (traffic.world.conn c).state ≠ .closing) {world : World}
    (confined : Confined c traffic.world world)
    (active : ∀ d, d ≠ c → d ∈ traffic.world.server.activity → d ∈ world.server.activity) :
    Elsewhere c traffic (traffic.record c world) where
  conn := confined.others
  connections d _ := confined.connections d
  active := active
  popped _ _ := id
  masks d other member := by
    have before := confined.connections d member
    exact confined.elsewhere _ (attended.registry.inside d before).1 (attended.registry.apart opened before other)
  arrived _ other := Function.update_of_ne other _ _
  handed _ _ := rfl

theorem Attended.tends (attended : traffic.Attended) (member : c ∈ traffic.world.server.connections) {world : World}
    (tends : Tends c traffic.world world) :
    (traffic.record c world).Attended := by
  have opened : (traffic.world.conn c).state ≠ .closing := by
    rw [(attended.registry.connected c).mpr member]
    decide
  have attends := attended.attends c member
  refine attended.moves (attended.registry.steady member tends.toSteady tends.room)
    (attended.elsewhere opened tends.confined fun d _ => tends.active d) fun _ => ⟨fun waiting => ?_, fun queued => ?_, ?_⟩
  · by_cases same : (world.conn c).incoming = (traffic.world.conn c).incoming
    · exact (attends.incoming (same ▸ waiting)).imp (tends.active c) id
    · exact .inl (tends.marks same)
  · change world.server.poll.inWrite (world.descriptor c)
    rw [tends.descriptor]
    by_cases same : (world.conn c).outgoing = (traffic.world.conn c).outgoing
    · exact tends.keeps (attends.outgoing (same ▸ queued))
    · exact tends.waits same
  · obtain ⟨more, same⟩ := tends.arrives
    change Function.update traffic.arrived c _ c = traffic.handed c ++ (world.conn c).incoming
    rw [Function.update_self, ← same, List.drop_left, attends.order, List.append_assoc]

theorem Attended.close (attended : traffic.Attended) (c : Nat) :
    Attended { traffic with world := (traffic.world.close c).world } := by
  by_cases opened : (traffic.world.conn c).state ≠ .closing
  · have elsewhere := attended.elsewhere opened (close_confined traffic.world c)
      fun d other active => (attended.registry.mem_close c d).2.mpr ⟨active, other⟩
    rw [record_quiet (close_incoming traffic.world c)] at elsewhere
    refine attended.moves (attended.registry.close c) elsewhere fun member => ?_
    exact absurd rfl ((attended.registry.mem_close c c).1.mp member).2
  · rw [close_idle (not_not.mp opened)]
    exact attended

theorem Attended.sendMessage (attended : traffic.Attended) (c : Nat) (message : OutgoingHttpMessage) :
    Attended { traffic with world := traffic.world.sendMessage c message } := by
  by_cases connected : (traffic.world.conn c).state = .connected
  · have member := (attended.registry.connected c).mp connected
    have kept := attended.tends member (tends_sendMessage (attended.registry.ready member) message)
    rw [record_quiet (by rw [sendMessage_conn connected])] at kept
    exact kept
  · rw [sendMessage_idle connected]
    exact attended

theorem Attended.eventRead (attended : traffic.Attended) {result : RecvResult} {world : World}
    (returned : traffic.world.eventRead c result = some ⟨world, none⟩) :
    (traffic.record c world).Attended := by
  by_cases connected : (traffic.world.conn c).state = .connected
  · have member := (attended.registry.connected c).mp connected
    obtain ⟨middle, tends, rfl | rfl⟩ := tends_eventRead (attended.registry.ready member) returned
    · exact attended.tends member tends
    · have closed := (attended.tends member tends).close c
      unfold record at closed ⊢
      dsimp only at closed ⊢
      rw [close_incoming]
      exact closed
  · unfold World.eventRead at returned
    rw [if_pos connected] at returned
    cases returned
    rw [record_quiet rfl]
    exact attended

/-- What is queued is taken as a whole; interest is only given up in an empty queue. -/
theorem Attended.eventWrite (attended : traffic.Attended) (c : Nat) (answers : List SendResult) :
    Attended { traffic with world := (traffic.world.eventWrite c answers).world } := by
  rcases eventWrite_cases traffic.world c answers with ⟨_, same⟩ | ⟨connected, outcome⟩
  · rw [same]
    exact attended
  have member := (attended.registry.connected c).mp connected
  have opened : (traffic.world.conn c).state ≠ .closing := by rw [connected]; decide
  have attends := attended.attends c member
  have steps {world : World} (steady : Steady c traffic.world world)
      (room : world.server.poll.table.length = traffic.world.server.poll.table.length)
      (active : world.server.activity = traffic.world.server.activity)
      (incoming : (world.conn c).incoming = (traffic.world.conn c).incoming) (empty : (world.conn c).outgoing = []) :
      Attended { traffic with world } := by
    have elsewhere := attended.elsewhere opened steady.confined fun d _ member => active ▸ member
    rw [record_quiet incoming] at elsewhere
    refine attended.moves (attended.registry.steady member steady room) elsewhere fun _ => ⟨?_, absurd empty, ?_⟩
    · change (world.conn c).incoming ≠ [] → c ∈ world.server.activity ∨ traffic.popped = some c
      rw [incoming, active]
      exact attends.incoming
    · change traffic.arrived c = traffic.handed c ++ (world.conn c).incoming
      rw [incoming]
      exact attends.order
  have taken : Attended { traffic with world := traffic.world.modify c ({ · with outgoing := [] }) } := by
    refine steps (steady_modify rfl rfl) rfl rfl ?_ ?_ <;> rw [modify_conn]
  rcases outcome with ⟨empty, same⟩ | same | closed
  · rw [same]
    exact steps (steady_removeWrite traffic.world c) (Poll.modify_length _ _ _) rfl rfl empty
  · rw [same]
    exact taken
  · rw [closed]
    exact taken.close c

theorem Attended.eventError (attended : traffic.Attended) (c : Nat) :
    Attended { traffic with world := (traffic.world.eventError c).world } := by
  unfold World.eventError
  split
  · exact attended
  · exact attended.close c

theorem Attended.create (attended : traffic.Attended) {answers : PollAnswers} {attempt : Attempt}
    (unused : traffic.world.Unused c attempt.opened)
    (returned : (traffic.world.create maxConnects c answers attempt).exit = .returned)
    (straight : (traffic.world.create maxConnects c answers attempt).outside = false) :
    Attended { traffic with
      world := ((traffic.world.create maxConnects c answers attempt).drop c answers).world
      arrived := Function.update traffic.arrived c []
      handed := Function.update traffic.handed c [] } := by
  have made := create_drop attended.registry unused returned straight
  generalize ((traffic.world.create maxConnects c answers attempt).drop c answers).world = world at made
  rcases made with admitted | refused
  · refine attended.moves (c := c) (attended.registry.admitted unused.connections admitted)
      ⟨admitted.others, fun d other member => ((admitted.connections d).mp member).resolve_left other,
        fun d _ active => admitted.activity ▸ active, fun _ _ => id, fun d other member => ?_,
        fun _ other => Function.update_of_ne other _ _, fun _ other => Function.update_of_ne other _ _⟩
      fun _ => ⟨absurd admitted.incoming, absurd admitted.outgoing, ?_⟩
    · have before := ((admitted.connections d).mp member).resolve_left other
      exact admitted.elsewhere _ (attended.registry.inside d before).1 (admitted.own d before)
    · change Function.update traffic.arrived c [] c = Function.update traffic.handed c [] c ++ (world.conn c).incoming
      rw [Function.update_self, Function.update_self, admitted.incoming]
      rfl
  · refine attended.moves (c := c) (attended.registry.refused unused.connections refused)
      ⟨refused.others, fun d _ member => refused.connections ▸ member, fun d _ active => refused.activity ▸ active,
        fun _ _ => id, fun d _ _ => ?_, fun _ other => Function.update_of_ne other _ _,
        fun _ other => Function.update_of_ne other _ _⟩
      fun member => absurd (refused.connections ▸ member) unused.connections
    exact Poll.eventMask_table refused.table _

theorem ask_cases (traffic : Traffic) (c : Nat) :
    ((traffic.world.conn c).state ≠ .connected ∨ (traffic.world.conn c).incoming = []) ∧
        traffic.ask c = { traffic with popped := none } ∨
      (traffic.world.conn c).state = .connected ∧ traffic.ask c = { traffic with
        world := traffic.world.modify c ({ · with incoming := [] })
        popped := none
        handed := Function.update traffic.handed c (traffic.handed c ++ (traffic.world.conn c).incoming) } := by
  unfold ask getMessages
  by_cases nothing : (traffic.world.conn c).state ≠ .connected ∨ (traffic.world.conn c).incoming = []
  · left
    rw [if_pos nothing]
    refine ⟨nothing, ?_⟩
    dsimp only
    rw [if_neg (by decide), List.append_nil, Function.update_eq_self]
  · right
    rw [if_neg nothing]
    exact ⟨not_not.mp (not_or.mp nothing).1, rfl⟩

theorem Attended.ask (attended : traffic.Attended) (taken : traffic.popped = some c) : (traffic.ask c).Attended := by
  have popped {d : Nat} (other : d ≠ c) (found : traffic.popped = some d) : none = some d :=
    absurd (Option.some.inj (found.symm.trans taken)) other
  rcases ask_cases traffic c with ⟨nothing, same⟩ | ⟨connected, same⟩
  · rw [same]
    refine attended.moves (c := c) attended.registry
      ⟨fun _ _ => rfl, fun _ _ => id, fun _ _ => id, fun _ => popped, fun _ _ _ => rfl, fun _ _ => rfl, fun _ _ => rfl⟩
      fun member => ⟨fun waiting => ?_, (attended.attends c member).outgoing, (attended.attends c member).order⟩
    have idle := nothing.resolve_right waiting
    exact absurd ((attended.registry.connected c).mpr member) idle
  · have member := (attended.registry.connected c).mp connected
    have steady : Steady c traffic.world (traffic.world.modify c ({ · with incoming := [] })) := steady_modify rfl rfl
    have attends := attended.attends c member
    rw [same]
    refine attended.moves (c := c) (attended.registry.steady member steady rfl)
      ⟨steady.others, fun _ _ => id, fun _ _ => id, fun _ => popped, fun _ _ _ => rfl, fun _ _ => rfl,
        fun _ other => Function.update_of_ne other _ _⟩
      fun _ => ⟨?_, ?_, ?_⟩
    · dsimp only
      rw [modify_conn]
      exact absurd rfl
    · dsimp only
      rw [modify_conn, steady.descriptor]
      exact attends.outgoing
    · dsimp only
      rw [modify_conn, Function.update_self, attends.order, List.append_nil]

theorem serve_taken (taken : traffic.popped = some c) : traffic.serve = traffic.ask c := by
  rw [serve, taken]

theorem serve_active {activity : List Nat} (free : traffic.popped = none) (active : traffic.world.server.activity = c :: activity) :
    traffic.serve = { traffic with
      world := { traffic.world with server := { traffic.world.server with activity } }
      popped := some c } := by
  rw [serve, free, Server.getActiveConnection, active]

theorem serve_idle (free : traffic.popped = none) (idle : traffic.world.server.activity = []) : traffic.serve = traffic := by
  rw [serve, free, Server.getActiveConnection, idle]

theorem Attended.serve (attended : traffic.Attended) : traffic.serve.Attended := by
  cases popped : traffic.popped with
  | some c =>
    rw [serve_taken popped]
    exact attended.ask popped
  | none =>
    cases active : traffic.world.server.activity with
    | nil =>
      rw [serve_idle popped active]
      exact attended
    | cons c activity =>
      rw [serve_active popped active]
      have registry := attended.registry
      refine attended.moves (c := c)
        ⟨registry.connected, registry.absent, fun d member => registry.activity d (active ▸ List.mem_cons_of_mem c member),
          registry.inside, registry.distinct, registry.watched, registry.unwatched⟩
        ⟨fun _ _ => rfl, fun _ _ => id, fun d other member => ?_, fun d _ found => ?_, fun _ _ _ => rfl, fun _ _ => rfl,
          fun _ _ => rfl⟩
        fun member => ⟨fun _ => .inr rfl, (attended.attends c member).outgoing, (attended.attends c member).order⟩
      · rw [active] at member
        exact (List.mem_cons.mp member).resolve_left other
      · rw [popped] at found
        cases found

theorem attended_start (size : Nat) : (start size).Attended where
  registry := {
    connected := fun _ => iff_of_false nofun nofun
    absent := fun _ _ => .inr (show (-1 : Int) < 0 by decide)
    activity := nofun
    inside := nofun
    distinct := nofun
    watched := nofun
    unwatched := fun fd _ _ => eventMask_replicate size fd }
  attends := nofun

theorem Attended.step (attended : traffic.Attended) (step : Step maxConnects traffic after) : after.Attended := by
  cases step with
  | create unused returned straight => exact attended.create unused returned straight
  | eventRead returned => exact attended.eventRead returned
  | eventWrite returned => exact attended.eventWrite _ _
  | eventError => exact attended.eventError _
  | sendMessage => exact attended.sendMessage _ _
  | close => exact attended.close _
  | serve => exact attended.serve

theorem reached_attended {size : Nat} (reached : Relation.ReflTransGen (Step maxConnects) (start size) traffic) :
    traffic.Attended := by
  induction reached with
  | refl => exact attended_start size
  | tail _ step ih => exact ih.step step

/-- What has arrived on a connection, and what was handed out, is only added to. -/
theorem Step.logs (step : Step maxConnects traffic after) (member : c ∈ traffic.world.server.connections) :
    traffic.arrived c <+: after.arrived c ∧ traffic.handed c <+: after.handed c := by
  have appended (log : Nat → List IncomingHttpMessage) (d : Nat) (more : List IncomingHttpMessage) :
      log c <+: Function.update log d (log d ++ more) c := by
    by_cases same : d = c
    · rw [same, Function.update_self]
      exact List.prefix_append _ _
    · rw [Function.update_of_ne (Ne.symm same)]
  cases step with
  | @create d _ _ unused =>
    have other : c ≠ d := fun same => unused.connections (same ▸ member)
    dsimp only
    rw [Function.update_of_ne other, Function.update_of_ne other]
    exact ⟨List.prefix_rfl, List.prefix_rfl⟩
  | eventRead => exact ⟨appended _ _ _, List.prefix_rfl⟩
  | eventWrite => exact ⟨List.prefix_rfl, List.prefix_rfl⟩
  | eventError => exact ⟨List.prefix_rfl, List.prefix_rfl⟩
  | sendMessage => exact ⟨List.prefix_rfl, List.prefix_rfl⟩
  | close => exact ⟨List.prefix_rfl, List.prefix_rfl⟩
  | serve =>
    cases popped : traffic.popped with
    | some d =>
      rw [serve_taken popped]
      rcases ask_cases traffic d with ⟨_, same⟩ | ⟨_, same⟩
      · rw [same]
        exact ⟨List.prefix_rfl, List.prefix_rfl⟩
      · rw [same]
        exact ⟨List.prefix_rfl, appended _ _ _⟩
    | none =>
      cases active : traffic.world.server.activity with
      | nil =>
        rw [serve_idle popped active]
        exact ⟨List.prefix_rfl, List.prefix_rfl⟩
      | cons d activity =>
        rw [serve_active popped active]
        exact ⟨List.prefix_rfl, List.prefix_rfl⟩

/-- How often the worker goes on before it finds nothing. -/
def pending (traffic : Traffic) : Nat := 2 * traffic.world.server.activity.length + if traffic.popped.isSome then 1 else 0

theorem pending_serve (traffic : Traffic) : traffic.serve.pending = traffic.pending - 1 := by
  unfold pending
  cases popped : traffic.popped with
  | some c =>
    rw [serve_taken popped]
    rcases ask_cases traffic c with ⟨_, same⟩ | ⟨_, same⟩ <;> rw [same] <;> rfl
  | none =>
    cases active : traffic.world.server.activity with
    | nil =>
      rw [serve_idle popped active, popped, active]
      rfl
    | cons c activity =>
      rw [serve_active popped active]
      simp only [List.length_cons, Option.isSome_some, Option.isSome_none, if_true, Bool.false_eq_true, if_false]
      omega

theorem serve_keeps (traffic : Traffic) :
    traffic.serve.arrived = traffic.arrived ∧
      traffic.serve.world.server.connections = traffic.world.server.connections := by
  cases popped : traffic.popped with
  | some c =>
    rw [serve_taken popped]
    rcases ask_cases traffic c with ⟨_, same⟩ | ⟨_, same⟩ <;> rw [same] <;> exact ⟨rfl, rfl⟩
  | none =>
    cases active : traffic.world.server.activity with
    | nil =>
      rw [serve_idle popped active]
      exact ⟨rfl, rfl⟩
    | cons c activity =>
      rw [serve_active popped active]
      exact ⟨rfl, rfl⟩

/-- Left alone, the worker hands out all that has arrived. -/
theorem Attended.drain (attended : traffic.Attended) {n : Nat} (enough : traffic.pending ≤ n)
    (member : c ∈ traffic.world.server.connections) : (Traffic.serve^[n] traffic).handed c = traffic.arrived c := by
  induction n generalizing traffic with
  | zero =>
    have idle : traffic.world.server.activity = [] := by
      refine List.eq_nil_of_length_eq_zero ?_
      unfold pending at enough
      omega
    have free : traffic.popped = none := by
      refine Option.not_isSome_iff_eq_none.mp fun taken => ?_
      unfold pending at enough
      rw [if_pos taken] at enough
      omega
    have attends := attended.attends c member
    have empty : (traffic.world.conn c).incoming = [] := by
      by_contra waiting
      have waits := attends.incoming waiting
      rw [idle, free] at waits
      exact waits.elim List.not_mem_nil nofun
    have order := attends.order
    rw [empty, List.append_nil] at order
    exact order.symm
  | succ n ih =>
    obtain ⟨arrived, connections⟩ := serve_keeps traffic
    rw [Function.iterate_succ_apply, ← arrived]
    exact ih attended.serve (by rw [pending_serve]; omega) (connections ▸ member)

/-- In every state that operations and the worker can come to, in any order, a connected
connection with messages is active or the one just taken, and one with something to send is
waited for. What arrives is handed out once and in its order: all of it, when the worker is
left alone. -/
theorem no_wakeup_lost {size : Nat} (reached : Relation.ReflTransGen (Step maxConnects) (start size) traffic) :
    ∀ c ∈ traffic.world.server.connections, (traffic.world.conn c).state = .connected → traffic.Attends c ∧
      (∀ after, Step maxConnects traffic after →
        traffic.arrived c <+: after.arrived c ∧ traffic.handed c <+: after.handed c) ∧
      ∀ n, 2 * traffic.world.server.activity.length + 1 ≤ n → (Traffic.serve^[n] traffic).handed c = traffic.arrived c := by
  have attended := reached_attended reached
  intro c member _
  refine ⟨attended.attends c member, fun after step => step.logs member, fun n enough => ?_⟩
  refine attended.drain (Nat.le_trans ?_ enough) member
  unfold pending
  split <;> omega

/-- One connection, which has read a request. -/
def requested : Traffic :=
  let created := (start 16).world.create 1 0 .granted (.incoming 5 allOptions)
  let world := (created.drop 0 .granted).world
  let read := world.eventRead 0 (.received (ascii "GET / HTTP/1.1\r\nHost: a\r\n\r\n"))
  { start 16 with world, arrived := Function.update (fun _ => []) 0 [], handed := Function.update (fun _ => []) 0 [] }.record 0
    (read.elim world Ended.world)

theorem eventRead_returned {w : World} {result : RecvResult}
    (returned : (w.eventRead c result).any fun ended => ended.thrown.isNone) :
    w.eventRead c result = some ⟨(w.eventRead c result).elim w Ended.world, none⟩ := by
  cases read : w.eventRead c result with
  | none =>
    rw [read] at returned
    cases returned
  | some ended =>
    obtain ⟨after, thrown⟩ := ended
    rw [read] at returned
    cases thrown with
    | none => rfl
    | some error => cases returned

theorem no_wakeup_lost_requested :
    (requested.world.conn 0).incoming ≠ [] ∧ requested.Attends 0 ∧
      (∀ after, Step 1 requested after →
        requested.arrived 0 <+: after.arrived 0 ∧ requested.handed 0 <+: after.handed 0) ∧
      ∀ n, 2 * requested.world.server.activity.length + 1 ≤ n → (Traffic.serve^[n] requested).handed 0 = requested.arrived 0 := by
  have created : Step 1 (start 16) _ :=
    @Step.create 1 (start 16) 0 .granted (.incoming 5 allOptions)
      ⟨List.not_mem_nil, List.not_mem_nil, fun _ _ => List.forall_mem_nil _⟩ (by decide) (by decide)
  have read : Step 1 _ requested := .eventRead (eventRead_returned (by decide +kernel))
  exact ⟨by decide +kernel, no_wakeup_lost (.tail (.tail .refl created) read) 0 (by decide +kernel) (by decide +kernel)⟩

end Traffic
end LibWebserver
