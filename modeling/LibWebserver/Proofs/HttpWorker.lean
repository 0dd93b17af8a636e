import LibWebserver.HttpWorker
import LibWebserver.Proofs.Traffic

/-! What the worker of the demo does in a round: every connection with messages is
answered, once and in order, and its answers are waited for. -/

namespace LibWebserver

/-- Messages sent on a connection one after another. -/
def World.sendMessages (w : World) (c : Nat) (messages : List OutgoingHttpMessage) : World :=
  messages.foldl (fun w message => w.sendMessage c message) w

namespace World

variable {w : World} {c : Nat}

theorem sendMessages_conn (connected : (w.conn c).state = .connected) (messages : List OutgoingHttpMessage) :
    (w.sendMessages c messages).conn c =
      { w.conn c with outgoing := (w.conn c).outgoing ++ messages.map (·.serialize) } := by
  induction messages generalizing w with
  | nil => simp [sendMessages]
  | cons message messages ih =>
    have sent := sendMessage_conn connected message
    have later := @ih (w.sendMessage c message) (by rw [sent]; exact connected)
    rw [sent] at later
    simpa [sendMessages] using later

theorem serves_sendMessages (w : World) (c : Nat) (messages : List OutgoingHttpMessage) :
    Serves c w (w.sendMessages c messages) := by
  induction messages generalizing w with
  | nil => exact .refl c w
  | cons message messages ih => exact (serves_sendMessage w c message).trans (ih (w.sendMessage c message))

theorem sendMessage_activity (w : World) (c : Nat) (message : OutgoingHttpMessage) :
    (w.sendMessage c message).server.activity = w.server.activity := by
  unfold sendMessage
  split <;> rfl

theorem sendMessages_activity (w : World) (c : Nat) (messages : List OutgoingHttpMessage) :
    (w.sendMessages c messages).server.activity = w.server.activity := by
  induction messages generalizing w with
  | nil => rfl
  | cons message messages ih => exact (ih (w.sendMessage c message)).trans (sendMessage_activity w c message)

end World

theorem Traffic.Attended.sendMessages {traffic : Traffic} (attended : traffic.Attended) (c : Nat)
    (messages : List OutgoingHttpMessage) : Attended { traffic with world := traffic.world.sendMessages c messages } := by
  induction messages generalizing traffic with
  | nil => exact attended
  | cons message messages ih => exact ih (attended.sendMessage c message)

namespace HttpWorker
open World

/-- The messages of a batch that are answered: up to the first that is no GET request. -/
def heard : List IncomingHttpMessage → List IncomingHttpMessage
  | [] => []
  | request :: requests => if request.method = .get then request :: heard requests else [request]

/-- The answers to a batch, as they are queued. -/
def answers (isPersistent : Bool) (requests : List IncomingHttpMessage) : List OutgoingHttpMessage :=
  (heard requests).map fun request => (answer isPersistent request).serialize

/-- A connection whose messages have been taken and answered. -/
def answered (conn : Connection) : Connection :=
  { conn with incoming := [], outgoing := conn.outgoing ++ answers conn.isPersistent conn.incoming }

theorem answered_idle {conn : Connection} (none : conn.incoming = []) : answered conn = conn := by
  have silent : answers conn.isPersistent [] = [] := rfl
  rw [answered, none, silent, List.append_nil, ← none]

variable {w : World} {c : Nat}

/-- The loop sends the answers to what is heard, and the connection stays connected. -/
theorem respond_eq (connected : (w.conn c).state = .connected) (requests : List IncomingHttpMessage) :
    respond c requests w = w.sendMessages c ((heard requests).map (answer (w.conn c).isPersistent)) := by
  induction requests generalizing w with
  | nil => rfl
  | cons request requests ih =>
    have sent := sendMessage_conn connected (answer (w.conn c).isPersistent request)
    have still : ((w.sendMessage c (answer (w.conn c).isPersistent request)).conn c).state = .connected := by
      rw [sent]
      exact connected
    rw [respond, heard]
    by_cases get : request.method = .get
    · have later := ih still
      rw [sent] at later
      rw [if_neg fun both => both.1 get, if_pos get]
      exact later
    · rw [if_pos ⟨get, still⟩, if_neg get]
      rfl

theorem respond_conn (connected : (w.conn c).state = .connected) (requests : List IncomingHttpMessage) :
    (respond c requests w).conn c =
      { w.conn c with outgoing := (w.conn c).outgoing ++ answers (w.conn c).isPersistent requests } := by
  rw [respond_eq connected, sendMessages_conn connected, List.map_map]
  rfl

theorem passStep_active {activity : List Nat} (active : w.server.activity = c :: activity)
    (connected : (w.conn c).state = .connected) :
    ∃ after, passStep w = .next after ∧ after.server.activity = activity ∧ after.conn c = answered (w.conn c) ∧
      ∀ d, d ≠ c → after.conn d = w.conn d := by
  let popped : World := { w with server := { w.server with activity } }
  have taken : w.server.getActiveConnection = some (c, popped.server) := by rw [Server.getActiveConnection, active]
  rw [passStep, taken]
  by_cases waiting : (w.conn c).incoming = []
  · have nothing : popped.getMessages c [] = (false, [], popped) := if_pos (.inr waiting)
    refine ⟨popped, ?_, rfl, (answered_idle waiting).symm, fun _ _ => rfl⟩
    dsimp only
    rw [nothing]
    rfl
  · have found : popped.getMessages c [] =
        (true, (w.conn c).incoming, popped.modify c ({ · with incoming := [] })) :=
      if_neg (not_or.mpr ⟨not_not_intro connected, waiting⟩)
    let asked := popped.modify c ({ · with incoming := [] })
    have swapped : asked.conn c = { w.conn c with incoming := [] } := modify_conn _ _ _
    have still : (asked.conn c).state = .connected := by rw [swapped]; exact connected
    refine ⟨respond c (w.conn c).incoming asked, ?_, ?_, ?_, ?_⟩
    · dsimp only
      rw [found]
      rfl
    · rw [respond_eq still, sendMessages_activity]
      rfl
    · rw [respond_conn still, swapped]
      rfl
    · intro d other
      rw [respond_eq still, (serves_sendMessages _ _ _).others d other]
      exact modify_conn_ne other

theorem getMessages_found {asked : World} {requests : List IncomingHttpMessage}
    (found : w.getMessages c [] = (true, requests, asked)) : (asked.conn c).state = .connected := by
  unfold getMessages at found
  split at found
  · cases found
  next waiting =>
    cases found
    rw [modify_conn]
    exact not_not.mp (not_or.mp waiting).1

/-- The same pass as steps of the server: the connection is taken, asked and answered. -/
theorem passStep_serve {traffic : Traffic} {activity : List Nat} (free : traffic.popped = none)
    (active : traffic.world.server.activity = c :: activity) :
    ∃ messages, passStep traffic.world = .next (traffic.serve.serve.world.sendMessages c messages) ∧
      traffic.serve.serve = { traffic with
        world := traffic.serve.serve.world
        handed := Function.update traffic.handed c (traffic.handed c ++
          if (traffic.world.getMessages c []).1 then (traffic.world.getMessages c []).2.1 else []) } := by
  let popped : World := { traffic.world with server := { traffic.world.server with activity } }
  have taken : traffic.world.server.getActiveConnection = some (c, popped.server) := by
    rw [Server.getActiveConnection, active]
  have first := Traffic.serve_active free active
  have second : traffic.serve.serve = traffic.serve.ask c := Traffic.serve_taken (by rw [first])
  have alike : (traffic.world.getMessages c []).1 = (popped.getMessages c []).1 ∧
      (traffic.world.getMessages c []).2.1 = (popped.getMessages c []).2.1 := by
    unfold getMessages
    dsimp only [popped]
    split <;> exact ⟨rfl, rfl⟩
  rw [second, first, Traffic.ask, passStep, taken, alike.1, alike.2, free]
  dsimp only
  cases asks : popped.getMessages c [] with
  | mk found rest =>
    obtain ⟨requests, asked⟩ := rest
    cases found with
    | false => exact ⟨[], rfl, rfl⟩
    | true =>
      refine ⟨(heard requests).map (answer (asked.conn c).isPersistent), ?_, rfl⟩
      rw [← respond_eq (getMessages_found asks)]
      rfl

/-- The loop answers every active connection and no other, and leaves none active. -/
theorem serve_active (connected : ∀ c ∈ w.server.activity, (w.conn c).state = .connected) :
    ∃ after, serve w = some after ∧ after.server.activity = [] ∧
      (∀ c ∈ w.server.activity, after.conn c = answered (w.conn c)) ∧
      ∀ c, c ∉ w.server.activity → after.conn c = w.conn c := by
  unfold serve
  generalize same : w.server.activity = activity at connected ⊢
  induction activity generalizing w with
  | nil =>
    have exits : passStep w = .exit w := by rw [passStep, Server.getActiveConnection, same]
    exact ⟨w, Loop.run_exit 0 exits, same, List.forall_mem_nil _, fun _ _ => rfl⟩
  | cons c activity ih =>
    obtain ⟨middle, moves, rest, own, others⟩ := passStep_active same (connected c (by simp))
    have kept : ∀ d ∈ activity, (middle.conn d).state = .connected := by
      intro d member
      by_cases here : d = c
      · rw [here, own]
        exact connected c (by simp)
      · rw [others d here]
        exact connected d (by simp [member])
    obtain ⟨after, ends, idle, taken, left⟩ := ih rest kept
    refine ⟨after, (Loop.run_next _ moves).trans ends, idle, fun d member => ?_, fun d absent => ?_⟩
    · by_cases here : d = c
      · subst here
        by_cases again : d ∈ activity
        · rw [taken d again, own]
          exact answered_idle rfl
        · rw [left d again, own]
      · rw [taken d ((List.mem_cons.mp member).resolve_left here), others d here]
    · obtain ⟨here, later⟩ := not_or.mp (mt List.mem_cons.mpr absent)
      rw [left d later, others d here]

end HttpWorker
end LibWebserver
