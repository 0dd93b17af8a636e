import LibWebserver.Proofs.Delivery
import LibWebserver.Proofs.Registry

/-! Whole runs. Closing a connection is final, and nothing is sent behind a
message that is not persistent. -/

namespace LibWebserver
open SendResult

namespace World

variable {w middle after : World} {c : Nat}

/-- A steady step that only adds to the queue of messages to send. -/
structure Serves (c : Nat) (w after : World) : Prop extends Steady c w after where
  queue : (w.conn c).outgoing <+: (after.conn c).outgoing

theorem Serves.refl (c : Nat) (w : World) : Serves c w w := ⟨.refl c w, List.prefix_rfl⟩

theorem Serves.trans (first : Serves c w middle) (last : Serves c middle after) : Serves c w after :=
  ⟨first.toSteady.trans last.toSteady, first.queue.trans last.queue⟩

theorem serves_modify {f : Connection → Connection} (fd : (f (w.conn c)).fd = (w.conn c).fd)
    (state : (f (w.conn c)).state = (w.conn c).state) (queue : (f (w.conn c)).outgoing = (w.conn c).outgoing) :
    Serves c w (w.modify c f) :=
  ⟨steady_modify fd state, by rw [modify_conn, queue]⟩

theorem serves_sendMessage (w : World) (c : Nat) (message : OutgoingHttpMessage) :
    Serves c w (w.sendMessage c message) := by
  unfold sendMessage
  split
  · exact .refl c w
  · have appended : Serves c w (w.modify c fun conn => { conn with outgoing := conn.outgoing ++ [message.serialize] }) :=
      ⟨steady_modify rfl rfl, by rw [modify_conn]; exact List.prefix_append _ _⟩
    have watched := steady_insertWrite
      (w.modify c fun conn => { conn with outgoing := conn.outgoing ++ [message.serialize] }) c
    exact appended.trans ⟨watched, List.prefix_rfl⟩

theorem serves_badData (w : World) (c : Nat) (message : IncomingHttpMessage) : Serves c w (w.badData c message) := by
  rcases badData_cases w c message with same | ⟨response, same⟩
  · rw [same]
    exact serves_modify rfl rfl rfl
  · rw [same]
    exact serves_sendMessage w c response

theorem serves_processStep :
    (∀ w after, processStep c w = .next after → Serves c w after) ∧
      ∀ w ended, processStep c w = .exit (some ended) → Serves c w ended.world := by
  refine ⟨fun w after moves => ?_, fun w ended exits => ?_⟩
  · obtain ⟨message, _, buffer, _, _, rfl⟩ := processStep_goes moves
    let pass (conn : Connection) : Connection :=
      { conn with incoming := conn.incoming ++ [message], buffer, isPersistent := message.isPersistent }
    have pushed : Serves c w (w.modify c pass) := serves_modify rfl rfl rfl
    exact pushed.trans ⟨steady_markActivity _ c, List.prefix_rfl⟩
  · rcases processStep_ends exits with rfl | ⟨message, rfl⟩ | ⟨_, rfl⟩ | ⟨message, _, rfl⟩ <;> dsimp only
    · exact serves_modify rfl rfl rfl
    · exact serves_badData w c message
    · exact .refl c w
    · exact serves_modify rfl rfl rfl

theorem serves_processEventRead {ended : Ended} (done : w.processEventRead c = some ended) : Serves c w ended.world :=
  Loop.run_invariant (Serves c w) (fun result => ∀ ended, result = some ended → Serves c w ended.world)
    (fun _ _ served moves => served.trans (serves_processStep.1 _ _ moves))
    (fun _ _ served exits _ same => served.trans (serves_processStep.2 _ _ (same ▸ exits)))
    (.refl c w) (Option.join_eq_some_iff.mp done) ended rfl

theorem eventRead_serves {result : RecvResult} {ended : Ended} (done : w.eventRead c result = some ended) :
    ∃ middle, Serves c w middle ∧ (ended.world = middle ∨ (w.conn c).state = .connected ∧ ended = middle.close c) := by
  have stored (buffer : CString) : Serves c w (w.setBuffer c buffer) := serves_modify rfl rfl rfl
  rcases eventRead_cases done with ⟨_, rfl⟩ | ⟨connected, buffer, rfl | ⟨_, rfl⟩ | processed⟩
  · exact ⟨w, .refl c w, .inl rfl⟩
  · exact ⟨_, stored buffer, .inr ⟨connected, rfl⟩⟩
  · exact ⟨_, stored buffer, .inl rfl⟩
  · exact ⟨_, (stored buffer).trans (serves_processEventRead processed), .inl rfl⟩

theorem sentMessages_append (queue : List OutgoingHttpMessage) (calls more : List SendCall) :
    sentMessages queue (calls ++ more) = sentMessages queue calls ++ sentMessages queue more :=
  List.filterMap_append

theorem sentMessages_callsFor (queue : List OutgoingHttpMessage) (position : Nat) (answers : List SendResult)
    (last : Option SendResult) :
    sentMessages queue (callsFor position answers last) = sentMessages queue [⟨position, 0, last⟩] := by
  have retries : sentMessages queue ((answers.takeWhile again).map (⟨position, 0, some ·⟩)) = [] := by
    refine List.filterMap_eq_nil_iff.mpr fun call member => ?_
    obtain ⟨result, inside, rfl⟩ := List.mem_map.mp member
    cases result with
    | accepted count => cases List.mem_takeWhile_imp inside
    | failed errno => rfl
  rw [callsFor, sentMessages_append, retries, List.nil_append]

theorem sentMessages_fails {queue : List OutgoingHttpMessage} {position : Nat} {result : SendResult}
    (fails : result.fails) : sentMessages queue [⟨position, 0, some result⟩] = [] := by
  cases result with
  | accepted count =>
    obtain rfl : count = 0 := of_decide_eq_true fails
    rfl
  | failed errno => rfl

theorem sentMessages_accepted {queue : List OutgoingHttpMessage} {position count : Nat} {message : OutgoingHttpMessage}
    (here : queue[position]? = some message) (positive : 0 < count) :
    sentMessages queue [⟨position, 0, some (.accepted count)⟩] = [message] := by
  obtain ⟨count, rfl⟩ := Nat.exists_eq_succ_of_ne_zero (Nat.ne_of_gt positive)
  simp [sentMessages, here]

/-- Only the last of these may be not persistent. -/
def OnlyLast (messages : List OutgoingHttpMessage) : Prop := ∀ message ∈ messages.dropLast, message.isPersistent

theorem OnlyLast.append {before messages : List OutgoingHttpMessage} (persistent : ∀ message ∈ before, message.isPersistent)
    (last : OnlyLast messages) : OnlyLast (before ++ messages) := by
  intro message member
  cases messages with
  | nil =>
    rw [List.append_nil] at member
    exact persistent message (List.mem_of_mem_dropLast member)
  | cons first messages =>
    rw [List.dropLast_append_of_ne_nil (List.cons_ne_nil _ _)] at member
    exact (List.mem_append.mp member).elim (persistent message) (last message)

/-- How the loop over a list of messages ends: with all of them sent, in front of one,
or closed behind one. -/
structure Writes (c : Nat) (messages : List OutgoingHttpMessage) (w : World) (sent : List OutgoingHttpMessage)
    (run : WriteRun) : Prop where
  order : sent <+: messages
  last : OnlyLast sent
  outcome : (run.world = w ∧ (∀ message ∈ sent, message.isPersistent) ∧ (run.returned → sent = messages)) ∨
    run.world = (w.close c).world

theorem writeMessages_writes (writable : w.Writable c) {queue done messages : List OutgoingHttpMessage}
    {answers : List SendResult} (split : queue = done ++ messages) :
    Writes c messages w (sentMessages queue (writeMessages c done.length messages answers w).calls)
      (writeMessages c done.length messages answers w) := by
  induction messages generalizing done answers with
  | nil => exact ⟨List.prefix_rfl, List.forall_mem_nil _, .inl ⟨rfl, List.forall_mem_nil _, fun _ => rfl⟩⟩
  | cons message messages ih =>
    have here : queue[done.length]? = some message := by simp [split]
    have later {rest : List SendResult} := @ih (done ++ [message]) rest (by rw [split, List.append_assoc]; rfl)
    simp only [List.length_append, List.length_cons, List.length_nil, Nat.zero_add] at later
    have turn : Turn c done.length message messages answers w _ := writeMessages_turn writable
    generalize writeMessages c done.length (message :: messages) answers w = run at turn ⊢
    cases turn with
    | empty => exact ⟨List.nil_prefix, List.forall_mem_nil _, .inr rfl⟩
    | waits =>
      dsimp only
      rw [sentMessages_callsFor]
      exact ⟨List.nil_prefix, List.forall_mem_nil _, .inl ⟨rfl, List.forall_mem_nil _, by simp⟩⟩
    | fails _ fails =>
      dsimp only
      rw [sentMessages_callsFor, sentMessages_fails fails]
      exact ⟨List.nil_prefix, List.forall_mem_nil _, .inr rfl⟩
    | last _ positive =>
      dsimp only
      rw [sentMessages_callsFor, sentMessages_accepted here positive]
      exact ⟨⟨messages, rfl⟩, List.forall_mem_nil _, .inr rfl⟩
    | @next count rest _ positive more =>
      obtain ⟨order, last, outcome⟩ := @later rest
      dsimp only
      rw [sentMessages_append, sentMessages_callsFor, sentMessages_accepted here positive]
      refine ⟨(List.prefix_append_right_inj [message]).mpr order, ?_, ?_⟩
      · exact OnlyLast.append (by simpa using more) last
      · rcases outcome with ⟨same, persistent, all⟩ | closed
        · refine .inl ⟨same, by simpa [more] using persistent, fun returned => ?_⟩
          rw [all returned, List.singleton_append]
        · exact .inr closed

theorem eventWrite_confined (w : World) (c : Nat) (answers : List SendResult) :
    Confined c w (w.eventWrite c answers).world := by
  have taken : Steady c w (w.modify c ({ · with outgoing := [] })) := steady_modify rfl rfl
  rcases eventWrite_cases w c answers with ⟨_, same⟩ | ⟨_, ⟨_, same⟩ | same | closed⟩
  · rw [same]
    exact (Steady.refl c w).confined
  · rw [same]
    exact (steady_removeWrite w c).confined
  · rw [same]
    exact taken.confined
  · rw [closed]
    exact taken.then_confined (close_confined _ c)

theorem perform_confined (w : World) (c : Nat) (operation : Operation) :
    Confined c w (w.perform c operation).world := by
  cases operation with
  | eventRead result =>
    unfold perform
    dsimp only
    cases done : w.eventRead c result with
    | none => exact (Steady.refl c w).confined
    | some ended =>
      obtain ⟨middle, served, same | ⟨_, rfl⟩⟩ := eventRead_serves done
      · dsimp only
        rw [same]
        exact served.confined
      · exact served.then_confined (close_confined middle c)
  | eventWrite answers => exact eventWrite_confined w c answers
  | eventError =>
    unfold perform eventError
    dsimp only
    split
    · exact (Steady.refl c w).confined
    · exact close_confined w c
  | sendMessage message => exact (serves_sendMessage w c message).confined
  | getMessages messages =>
    unfold perform getMessages
    dsimp only
    split
    · exact (Steady.refl c w).confined
    · have swapped : Steady c w (w.modify c ({ · with incoming := messages })) := steady_modify rfl rfl
      exact swapped.confined
  | close => exact close_confined w c

theorem perform_closing (closing : (w.conn c).state = .closing) (operation : Operation) :
    (w.perform c operation).world = w ∧ (w.perform c operation).calls = [] ∧ (w.perform c operation).handed = [] := by
  have idle : (w.conn c).state ≠ .connected := by rw [closing]; decide
  cases operation with
  | eventRead result => rw [perform, eventRead, if_pos idle]; exact ⟨rfl, rfl, rfl⟩
  | eventWrite answers => rw [perform, eventWrite, if_pos idle]; exact ⟨rfl, rfl, rfl⟩
  | eventError =>
    have active : (w.conn c).state ≠ .inactive := by rw [closing]; decide
    rw [perform, eventError, if_neg active, close_idle closing]
    exact ⟨rfl, rfl, rfl⟩
  | sendMessage message => rw [perform, sendMessage_idle idle]; exact ⟨rfl, rfl, rfl⟩
  | getMessages messages => rw [perform, getMessages, if_pos (.inl idle)]; exact ⟨rfl, rfl, rfl⟩
  | close => rw [perform, close_idle closing]; exact ⟨rfl, rfl, rfl⟩

end World

/-- In order, and nothing behind a message that is not persistent. -/
structure History.Ordered (history : History) : Prop where
  order : history.sent <+: history.queued
  last : World.OnlyLast history.sent

namespace World

variable {w middle after : World} {c : Nat} {fd : Int} {history : History}

/-- Before it is closed, a connection has its descriptor and the rest of its queue to send. -/
structure Opened (c : Nat) (fd : Int) (history : History) (w : World) : Prop where
  state : (w.conn c).state ≠ .closing
  held : (w.conn c).fd = fd
  watched : Poll.Watched (w.server.poll.eventMask fd)
  queue : history.queued = history.sent ++ (w.conn c).outgoing
  persistent : ∀ message ∈ history.sent, message.isPersistent

/-- What holds of a connection and its history at any time; no other connection has
its descriptor. -/
structure Lifetime (c : Nat) (fd : Int) (history : History) (w : World) : Prop where
  others : ∀ d, d ≠ c → (w.conn d).fd ≠ fd
  phase : Opened c fd history w ∨ Closed c fd w ∧ history.Ordered

theorem Opened.ordered (opened : Opened c fd history w) : history.Ordered where
  order := ⟨_, opened.queue.symm⟩
  last message member := opened.persistent message (List.mem_of_mem_dropLast member)

theorem Lifetime.ordered (lifetime : Lifetime c fd history w) : history.Ordered :=
  lifetime.phase.elim Opened.ordered And.right

theorem record_other {d : Nat} (other : d ≠ c) (history : History) (w : World) (operation : Operation) :
    history.record c w d operation = history := by
  rw [History.record, (perform_confined w d operation).others c other.symm, if_neg other, List.drop_length,
    List.append_nil, List.append_nil]

theorem record_closing (closing : (w.conn c).state = .closing) (history : History) (operation : Operation) :
    history.record c w c operation = history := by
  obtain ⟨same, calls, _⟩ := perform_closing closing operation
  rw [History.record, same, calls, List.drop_length, if_pos rfl, sentMessages, List.filterMap_nil, List.append_nil,
    List.append_nil]

theorem Lifetime.other (lifetime : Lifetime c fd history w) (valid : 0 ≤ fd) {d : Nat} (other : d ≠ c)
    (operation : Operation) : Lifetime c fd history (w.perform d operation).world := by
  have confined := perform_confined w d operation
  have same := confined.others c other.symm
  have mask := confined.elsewhere fd valid (lifetime.others d other).symm
  refine ⟨fun e differs => ?_, ?_⟩
  · by_cases performer : e = d
    · subst performer
      rcases confined.fd with kept | released
      · rw [kept]; exact lifetime.others e differs
      · rw [released]; omega
    · rw [confined.others e performer]
      exact lifetime.others e differs
  · rcases lifetime.phase with opened | ⟨closed, ordered⟩
    · refine .inl ⟨?_, ?_, ?_, ?_, opened.persistent⟩
      · rw [same]; exact opened.state
      · rw [same]; exact opened.held
      · rw [mask]; exact opened.watched
      · rw [same]; exact opened.queue
    · refine .inr ⟨⟨?_, ?_, ?_, ?_, ?_⟩, ordered⟩
      · rw [same]; exact closed.state
      · rw [same]; exact closed.released
      · exact fun member => closed.connections (confined.connections c member)
      · exact fun member => (confined.activity c member).elim closed.activity other.symm
      · rw [mask]; exact closed.mask

theorem Opened.serves (opened : Opened c fd history w) (served : Serves c w after) :
    Opened c fd { history with queued := history.queued ++ (after.conn c).outgoing.drop (w.conn c).outgoing.length }
      after := by
  obtain ⟨more, queue⟩ := served.queue
  have here := served.here
  rw [opened.held] at here
  refine ⟨?_, served.fd.trans opened.held, here opened.watched, ?_, opened.persistent⟩
  · rw [served.state]; exact opened.state
  · dsimp only
    rw [← queue, List.drop_left, opened.queue, List.append_assoc]

theorem Opened.close (opened : Opened c fd history w) (valid : 0 ≤ fd) (steady : Steady c w middle) :
    Closed c fd (middle.close c).world ∧ ((middle.close c).world.conn c).outgoing = (middle.conn c).outgoing := by
  obtain ⟨state, held, watched, _, _⟩ := opened
  subst held
  have here := steady.here watched
  rw [← steady.fd] at here valid ⊢
  exact close_open (by rw [steady.state]; exact state) valid here

/-- An operation that sends nothing serves, or serves and closes. -/
theorem Opened.quiet (opened : Opened c fd history w) (valid : 0 ≤ fd) {operation : Operation}
    (calls : (w.perform c operation).calls = []) (served : Serves c w middle)
    (outcome : (w.perform c operation).world = middle ∨ (w.perform c operation).world = (middle.close c).world) :
    Opened c fd (history.record c w c operation) (w.perform c operation).world ∨
      Closed c fd (w.perform c operation).world ∧ (history.record c w c operation).Ordered := by
  have next := opened.serves served
  have record (queue : ((w.perform c operation).world.conn c).outgoing = (middle.conn c).outgoing) :
      history.record c w c operation =
        { history with queued := history.queued ++ (middle.conn c).outgoing.drop (w.conn c).outgoing.length } := by
    rw [History.record, queue, calls, if_pos rfl, sentMessages, List.filterMap_nil, List.append_nil]
  rcases outcome with same | closed
  · left
    rw [record (by rw [same]), same]
    exact next
  · obtain ⟨final, queue⟩ := opened.close valid served.toSteady
    right
    rw [record (by rw [closed, queue]), closed]
    exact ⟨final, next.ordered⟩

/-- Writing out the queue: what is sent continues what was sent before. -/
theorem Opened.eventWrite (opened : Opened c fd history w) (valid : 0 ≤ fd) (connected : (w.conn c).state = .connected)
    (queued : (w.conn c).outgoing ≠ []) (answers : List SendResult) :
    (history.record c w c (.eventWrite answers)).Ordered ∧ ((w.perform c (.eventWrite answers)).returned →
      Opened c fd (history.record c w c (.eventWrite answers)) (w.perform c (.eventWrite answers)).world ∨
        Closed c fd (w.perform c (.eventWrite answers)).world ∧
          (history.record c w c (.eventWrite answers)).Ordered) := by
  have taken : Steady c w (w.modify c ({ · with outgoing := [] })) := steady_modify rfl rfl
  have nothing : ((w.modify c ({ · with outgoing := [] })).conn c).outgoing = [] := by rw [modify_conn]
  have writable : (w.modify c ({ · with outgoing := [] })).Writable c :=
    ⟨taken.state.trans connected, by rw [descriptor, taken.fd, opened.held]; exact valid⟩
  have same : w.eventWrite c answers =
      writeMessages c 0 (w.conn c).outgoing answers (w.modify c ({ · with outgoing := [] })) := by
    rw [World.eventWrite, if_neg (not_not_intro connected), if_neg queued]
  have final := opened.close valid taken
  generalize w.modify c ({ · with outgoing := [] }) = middle at taken nothing writable same final
  obtain ⟨order, last, outcome⟩ := @writeMessages_writes middle c writable (w.conn c).outgoing [] _ answers rfl
  rw [List.length_nil, ← same] at order last outcome
  have emptied : ((w.eventWrite c answers).world.conn c).outgoing = [] := by
    rcases outcome with ⟨stays, _⟩ | closed
    · rw [stays, nothing]
    · rw [closed, final.2, nothing]
  have record : history.record c w c (.eventWrite answers) =
      { queued := history.queued
        sent := history.sent ++ sentMessages (w.conn c).outgoing (w.eventWrite c answers).calls } := by
    rw [History.record, if_pos rfl]
    change History.mk (history.queued ++ ((w.eventWrite c answers).world.conn c).outgoing.drop _) _ = _
    rw [emptied, List.drop_nil, List.append_nil]
    rfl
  have ordered : (history.record c w c (.eventWrite answers)).Ordered := by
    rw [record]
    refine ⟨?_, OnlyLast.append opened.persistent last⟩
    dsimp only
    rw [opened.queue]
    exact (List.prefix_append_right_inj _).mpr order
  refine ⟨ordered, fun returned => ?_⟩
  change Opened c fd _ (w.eventWrite c answers).world ∨ Closed c fd (w.eventWrite c answers).world ∧ _
  rcases outcome with ⟨stays, persistent, all⟩ | closed
  · left
    rw [record, stays, all returned]
    have here := taken.here
    rw [opened.held] at here
    refine ⟨by rw [taken.state]; exact opened.state, taken.fd.trans opened.held, here opened.watched, ?_, ?_⟩
    · dsimp only
      rw [nothing, List.append_nil, opened.queue]
    · rw [all returned] at persistent
      exact fun message member => (List.mem_append.mp member).elim (opened.persistent message) (persistent message)
  · right
    rw [closed]
    exact ⟨final.1, ordered⟩

/-- One operation of an open connection: nothing it sends is out of order, and when it
returns the connection is open or closed for good. -/
theorem Opened.perform (opened : Opened c fd history w) (valid : 0 ≤ fd) (operation : Operation) :
    (history.record c w c operation).Ordered ∧ ((w.perform c operation).returned →
      Opened c fd (history.record c w c operation) (w.perform c operation).world ∨
        Closed c fd (w.perform c operation).world ∧ (history.record c w c operation).Ordered) := by
  have settle {operation : Operation} (phase : Opened c fd (history.record c w c operation) (w.perform c operation).world ∨
      Closed c fd (w.perform c operation).world ∧ (history.record c w c operation).Ordered) :
      (history.record c w c operation).Ordered ∧ ((w.perform c operation).returned → _) :=
    ⟨phase.elim Opened.ordered And.right, fun _ => phase⟩
  cases operation with
  | eventRead result =>
    cases done : w.eventRead c result with
    | none => 
      have same : w.perform c (.eventRead result) = { world := w, returned := false } := by rw [World.perform, done]
      exact settle (opened.quiet valid (by rw [same]) (.refl c w) (.inl (by rw [same])))
    | some ended =>
      have same : w.perform c (.eventRead result) = { world := ended.world } := by rw [World.perform, done]
      obtain ⟨middle, served, stays | ⟨_, rfl⟩⟩ := eventRead_serves done
      · exact settle (opened.quiet valid (by rw [same]) served (.inl (by rw [same]; exact stays)))
      · exact settle (opened.quiet valid (by rw [same]) served (.inr (by rw [same])))
  | eventWrite answers =>
    by_cases idle : (w.conn c).state ≠ .connected
    · have same : w.eventWrite c answers = ⟨w, [], true, none⟩ := if_pos idle
      exact settle (opened.quiet valid (by rw [World.perform, same]) (.refl c w) (.inl (by rw [World.perform, same])))
    · by_cases empty : (w.conn c).outgoing = []
      · have same : w.eventWrite c answers = ⟨w.poll (·.removeWrite (w.descriptor c)), [], true, none⟩ := by
          rw [World.eventWrite, if_neg idle, if_pos empty]
        have served : Serves c w (w.poll (·.removeWrite (w.descriptor c))) := ⟨steady_removeWrite w c, List.prefix_rfl⟩
        exact settle (opened.quiet valid (by rw [World.perform, same]) served (.inl (by rw [World.perform, same])))
      · exact opened.eventWrite valid (not_not.mp idle) empty answers
  | eventError =>
    by_cases inactive : (w.conn c).state = .inactive
    · exact settle (opened.quiet valid rfl (.refl c w) (.inl (by rw [World.perform, eventError, if_pos inactive])))
    · exact settle (opened.quiet valid rfl (.refl c w) (.inr (by rw [World.perform, eventError, if_neg inactive])))
  | sendMessage message => exact settle (opened.quiet valid rfl (serves_sendMessage w c message) (.inl rfl))
  | getMessages messages =>
    by_cases none : (w.conn c).state ≠ .connected ∨ (w.conn c).incoming = []
    · have same : w.getMessages c messages = (false, messages, w) := if_pos none
      exact settle (opened.quiet valid rfl (.refl c w) (.inl (by rw [World.perform, same])))
    · have same : w.getMessages c messages =
          (true, (w.conn c).incoming, w.modify c ({ · with incoming := messages })) := if_neg none
      have swapped : Serves c w (w.modify c ({ · with incoming := messages })) := serves_modify rfl rfl rfl
      exact settle (opened.quiet valid rfl swapped (.inl (by rw [World.perform, same])))
  | close => exact settle (opened.quiet valid rfl (.refl c w) (.inr rfl))

theorem Lifetime.step (lifetime : Lifetime c fd history w) (valid : 0 ≤ fd) (d : Nat) (operation : Operation) :
    (history.record c w d operation).Ordered ∧ ((w.perform d operation).returned →
      Lifetime c fd (history.record c w d operation) (w.perform d operation).world) := by
  by_cases other : d ≠ c
  · have kept := lifetime.other valid other operation
    rw [record_other other]
    exact ⟨kept.ordered, fun _ => kept⟩
  obtain rfl : d = c := not_not.mp other
  have others : ∀ e, e ≠ d → ((w.perform d operation).world.conn e).fd ≠ fd := by
    intro e differs
    rw [(perform_confined w d operation).others e differs]
    exact lifetime.others e differs
  rcases lifetime.phase with opened | ⟨closed, ordered⟩
  · obtain ⟨ordered, phase⟩ := opened.perform valid operation
    exact ⟨ordered, fun returned => ⟨others, phase returned⟩⟩
  · rw [record_closing closed.state]
    refine ⟨ordered, fun _ => ⟨others, .inr ⟨?_, ordered⟩⟩⟩
    rw [(perform_closing closed.state operation).1]
    exact closed

theorem Lifetime.run {start : World} {more : History} (lifetime : Lifetime c fd {} start) (valid : 0 ≤ fd)
    (run : Run c start more w) : Lifetime c fd more w := by
  induction run with
  | start => exact lifetime
  | step _ d operation returned ih => exact (ih.step valid d operation).2 returned

/-- From a closed connection on, a run changes nothing of it. -/
theorem Lifetime.closed_run {more : History} (lifetime : Lifetime c fd history w) (valid : 0 ≤ fd)
    (closing : (w.conn c).state = .closing) (run : Run c w more after) :
    after.conn c = w.conn c ∧ Lifetime c fd history after ∧ more = {} := by
  induction run with
  | start => exact ⟨rfl, lifetime, rfl⟩
  | @step more middle _ d operation returned ih =>
    obtain ⟨same, kept, rfl⟩ := ih
    by_cases other : d ≠ c
    · refine ⟨?_, kept.other valid other operation, record_other other _ _ _⟩
      rw [(perform_confined middle d operation).others c other.symm, same]
    · obtain rfl : d = c := not_not.mp other
      have closed : (middle.conn d).state = .closing := by rw [same]; exact closing
      have idle := (perform_closing closed operation).1
      exact ⟨by rw [idle, same], by rw [idle]; exact kept, record_closing closed _ _⟩

theorem lifetime_start {start : World} (fresh : w.conn c = Connection.create fd)
    (distinct : ∀ d, d ≠ c → (w.conn d).fd ≠ fd) (unwatched : w.server.poll.eventMask fd = 0)
    (begun : start = w ∨ w.initialise c = ⟨start, none⟩) : Lifetime c fd {} start := by
  have watched : Poll.Watched (w.server.poll.eventMask fd) := by rw [unwatched]; decide
  rcases begun with rfl | opened
  · refine ⟨distinct, .inl ⟨?_, ?_, watched, ?_, List.forall_mem_nil _⟩⟩ <;> rw [fresh]
    · exact State.noConfusion
    · rfl
    · rfl
  · unfold initialise at opened
    split at opened
    next => cases opened
    next =>
      cases opened
      have inserted : Poll.Watched ((((w.server.poll.insertRead fd).insertWrite fd).insertError fd).eventMask fd) :=
        Poll.watched_insert (Poll.watched_insert (Poll.watched_insert watched (by decide)) (by decide)) (by decide)
      have same : w.descriptor c = fd := by rw [descriptor, fresh]; rfl
      refine ⟨fun d other => ?_, .inl ⟨?_, ?_, ?_, ?_, List.forall_mem_nil _⟩⟩
      · rw [setState, modify_conn_ne other]
        exact distinct d other
      · rw [setState_conn]
        exact State.noConfusion
      · rw [setState_conn, poll_conn]
        exact same
      · rw [same]
        exact inserted
      · rw [setState_conn, poll_conn, fresh]
        rfl

/-- Close is final, and nothing is sent behind a message that is not persistent. -/
theorem run_close_final {start : World} (fresh : w.conn c = Connection.create fd) (valid : 0 ≤ fd)
    (distinct : ∀ d, d ≠ c → (w.conn d).fd ≠ fd) (unwatched : w.server.poll.eventMask fd = 0)
    (begun : start = w ∨ w.initialise c = ⟨start, none⟩) (run : Run c start history after) :
    ((after.conn c).state = .closing → ∀ later more, Run c after more later →
      later.conn c = after.conn c ∧ Closed c fd later ∧ more = {} ∧
        ∀ operation, (later.perform c operation).calls = [] ∧ (later.perform c operation).handed = []) ∧
    ∀ d operation, (history.record c after d operation).Ordered := by
  have lifetime := (lifetime_start fresh distinct unwatched begun).run valid run
  refine ⟨fun closing later more run => ?_, fun d operation => (lifetime.step valid d operation).1⟩
  obtain ⟨same, kept, none⟩ := lifetime.closed_run valid closing run
  have closed : (later.conn c).state = .closing := by rw [same]; exact closing
  refine ⟨same, ?_, none, fun operation => (perform_closing closed operation).2⟩
  rcases kept.phase with opened | ⟨final, _⟩
  · exact absurd closed opened.state
  · exact final

theorem run_close_final_badRequest :
    ∃ (history : History) (after : World), (after.conn 3).state = .closing ∧ history.sent ≠ [] ∧
      ((after.conn 3).state = .closing → ∀ later more, Run 3 after more later →
        later.conn 3 = after.conn 3 ∧ Closed 3 3 later ∧ more = {} ∧
          ∀ operation, (later.perform 3 operation).calls = [] ∧ (later.perform 3 operation).handed = []) ∧
      ∀ d operation, (history.record 3 after d operation).Ordered := by
  have distinct : ∀ d, d ≠ 3 → (vacant.conn d).fd ≠ 3 := by
    intro d other
    change (d : Int) ≠ 3
    omega
  have queued : Run 3 (vacant.initialise 3).world _ _ := .step .start 3 (.sendMessage .badRequest) rfl
  have more : Run 3 (vacant.initialise 3).world _ _ := .step queued 3 (.sendMessage (.ok [] true)) rfl
  have sent : Run 3 (vacant.initialise 3).world _ _ := .step more 3 (.eventWrite [.failed .eagain, .accepted 82]) (by decide +kernel)
  exact ⟨_, _, by decide +kernel, by decide +kernel, run_close_final rfl (by decide) distinct rfl (.inr rfl) sent⟩

end World
end LibWebserver
