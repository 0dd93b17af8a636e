import LibWebserver.Proofs.ClientFraming
import LibWebserver.Proofs.Exchange
import LibWebserver.Proofs.Reachable

/-! A connection from its creation on: well-formed requests, cut into reads in any way,
come back as their responses, complete and in order, whatever else the server does. -/

namespace LibWebserver

theorem World.modify_buffer {w : World} {c : Nat} {f : Connection → Connection}
    (same : (f (w.conn c)).buffer = (w.conn c).buffer) : ((w.modify c f).conn c).buffer = (w.conn c).buffer := by
  rw [modify_conn, same]

namespace Progress

variable (self : Progress) (c : Nat)

/-- The bytes a connection holds. -/
def held (self : Progress) (c : Nat) : CString := (self.world.conn c).buffer

variable {self c}

theorem closeDescriptor_held (self : Progress) (c : Nat) : (self.closeDescriptor c).held c = self.held c :=
  @World.modify_buffer self.world c ({ · with fd := -1 }) rfl

theorem setDescriptor_held (self : Progress) (c : Nat) (fd : Int) : (self.setDescriptor c fd).held c = self.held c :=
  @World.modify_buffer self.world c ({ · with fd }) rfl

theorem next_held {f : Progress → Progress} (keeps : ∀ progress, (f progress).held c = progress.held c) :
    (self.next f).held c = self.held c := by
  unfold next
  split
  · rfl
  · exact keeps self

theorem setOptions_held (self : Progress) (c : Nat) (options : Options) : (self.setOptions c options).held c = self.held c := by
  unfold setOptions
  split_ifs <;> first | rfl | exact closeDescriptor_held self c

theorem connect_held (self : Progress) (c : Nat) (peer : Outgoing) (fd : Nat) : (self.connect c peer fd).held c = self.held c := by
  unfold connect
  split
  · rfl
  · split
    · rfl
    · rfl
    · rfl
    · exact closeDescriptor_held self c

theorem dial_held (self : Progress) (c : Nat) (peer : Outgoing) : (self.dial c peer).held c = self.held c := by
  unfold dial
  split
  · rfl
  next fd _ =>
    split
    · rfl
    · split
      · rfl
      · rw [next_held fun progress => connect_held progress c peer fd, setOptions_held, setDescriptor_held]

theorem newConnection_held (self : Progress) (c maxConnects : Nat) : (self.newConnection c maxConnects).held c = self.held c := by
  unfold newConnection
  split <;> rfl

theorem initialise_held (self : Progress) (c : Nat) (answers : PollAnswers) :
    (self.initialise c answers).held c = self.held c := by
  unfold initialise held
  dsimp only
  split
  · rfl
  · rw [World.setState_conn]
    rfl

theorem destroySocket_held (self : Progress) (c : Nat) : (self.destroySocket c).held c = self.held c := by
  unfold destroySocket
  dsimp only
  split <;> rfl

theorem destroy_held (self : Progress) (c : Nat) (answers : PollAnswers) : (self.destroy c answers).held c = self.held c := by
  unfold destroy
  dsimp only
  rw [next_held fun progress => destroySocket_held progress c]
  split
  · rfl
  · rw [next_held fun progress => by split <;> first | rfl | exact closeDescriptor_held progress c]
    exact @World.modify_buffer self.world c ({ · with state := .closing }) rfl

end Progress

namespace Created

theorem drop_held (self : Created) (c : Nat) (answers : PollAnswers) :
    ((self.drop c answers).world.conn c).buffer = (self.world.conn c).buffer := by
  unfold drop
  dsimp only
  split
  · rfl
  · exact Progress.destroy_held _ c answers

end Created

namespace World

variable {w : World} {c maxConnects : Nat} {answers : PollAnswers}

private theorem admitted_held (self : Progress) (c maxConnects : Nat) (answers : PollAnswers) :
    ((self.newConnection c maxConnects).next (·.initialise c answers)).held c = self.held c := by
  rw [Progress.next_held fun progress => Progress.initialise_held progress c answers, Progress.newConnection_held]

private theorem leave_held (self : Progress) (c : Nat) (answers : PollAnswers) (error : Exception) :
    ((self.leave c answers error).world.conn c).buffer = self.held c := by
  unfold Progress.leave
  split
  · rfl
  · exact Progress.destroy_held _ c answers

theorem create_held (w : World) (maxConnects c : Nat) (answers : PollAnswers) (attempt : Attempt) :
    ((w.create maxConnects c answers attempt).world.conn c).buffer = .ofSize bufferLength := by
  have fresh : (w.allocate c).held c = .ofSize bufferLength := congrArg Connection.buffer (modify_conn w c fun _ => .create (-1))
  cases attempt with
  | incoming fd options =>
    have made : (((w.allocate c).setDescriptor c fd).setOptions c options).held c = .ofSize bufferLength := by
      rw [Progress.setOptions_held, Progress.setDescriptor_held, fresh]
    unfold create
    dsimp only
    split
    · exact (Progress.destroySocket_held _ c).trans made
    · unfold Progress.accept
      dsimp only
      split
      · exact (admitted_held _ c maxConnects answers).trans made
      · exact (sendMessage_buffer _ c _).trans ((admitted_held _ c maxConnects answers).trans made)
      · exact (leave_held _ c answers _).trans ((admitted_held _ c maxConnects answers).trans made)
  | outgoing peer =>
    have made : ((w.allocate c).dial c peer).held c = .ofSize bufferLength := by
      rw [Progress.dial_held, fresh]
    unfold create
    dsimp only
    split
    · exact (Progress.destroySocket_held _ c).trans made
    · have set (progress : Progress) : Progress.held { progress with world := progress.world.setPersistence c peer.isPersistent } c =
          progress.held c := @modify_buffer progress.world c ({ · with isPersistent := peer.isPersistent }) rfl
      unfold Progress.register
      dsimp only
      split
      · exact (admitted_held _ c maxConnects answers).trans ((set _).trans made)
      · exact (leave_held _ c answers _).trans ((admitted_held _ c maxConnects answers).trans ((set _).trans made))

/-- Messages are added to those that wait, and the last of them decides the persistence. -/
def Decides (c : Nat) (w after : World) : Prop :=
  ∃ messages, (after.conn c).incoming = (w.conn c).incoming ++ messages ∧
    ((∀ message ∈ messages, message.isPersistent) → messages ≠ [] ∨ (w.conn c).isPersistent → (after.conn c).isPersistent)

variable {after : World}

theorem Decides.of_eq {middle : World} (decides : Decides c w middle) (incoming : (after.conn c).incoming = (middle.conn c).incoming)
    (persistence : (after.conn c).isPersistent = (middle.conn c).isPersistent) : Decides c w after := by
  obtain ⟨messages, added, last⟩ := decides
  exact ⟨messages, incoming.trans added, fun all given => persistence ▸ last all given⟩

theorem decides_refl (c : Nat) (w : World) : Decides c w w :=
  ⟨[], (List.append_nil _).symm, fun _ given => given.resolve_left (absurd rfl)⟩

theorem badData_persistent (w : World) (c : Nat) (message : IncomingHttpMessage) :
    ((w.badData c message).conn c).isPersistent = (w.conn c).isPersistent := by
  rcases badData_cases w c message with same | ⟨response, same⟩
  · rw [same, modify_conn]
  · rw [same]
    by_cases connected : (w.conn c).state = .connected
    · rw [sendMessage_conn connected]
    · rw [sendMessage_idle connected]

theorem Decides.pass (decides : Decides c w after) {next : World} (moves : processStep c after = .next next) : Decides c w next := by
  obtain ⟨messages, added, _⟩ := decides
  obtain ⟨message, _, buffer, _, _, rfl⟩ := processStep_goes moves
  refine ⟨messages ++ [message], ?_, fun all _ => ?_⟩
  · rw [markActivity_conn, modify_conn, added, List.append_assoc]
  · rw [markActivity_conn, modify_conn]
    exact all message (by simp)

theorem eventRead_decides {result : RecvResult} (returned : w.eventRead c result = some ⟨after, none⟩) : Decides c w after := by
  have stored (buffer : CString) : Decides c w (w.setBuffer c buffer) := by
    refine (decides_refl c w).of_eq ?_ ?_ <;> rw [setBuffer_conn]
  rcases eventRead_cases returned with ⟨_, same⟩ | ⟨_, buffer, closed | ⟨_, same⟩ | processed⟩
  · cases same
    exact decides_refl c w
  · obtain ⟨fd, conn⟩ := close_conn (w.setBuffer c buffer) c
    have world : after = ((w.setBuffer c buffer).close c).world := congrArg Ended.world closed
    refine (stored buffer).of_eq ?_ ?_ <;> rw [world, conn]
  · cases same
    exact stored buffer
  · refine Loop.run_invariant (Decides c w) (fun result => ∀ after, result = some ⟨after, none⟩ → Decides c w after)
      (fun _ _ decides moves => decides.pass moves) (fun _ _ decides exits _ same => ?_) (stored buffer)
      (Option.join_eq_some_iff.mp processed) after rfl
    rcases processStep_ends (same ▸ exits) with same | ⟨message, same⟩ | ⟨_, same⟩ | ⟨_, _, same⟩
    · cases same
      refine decides.of_eq ?_ ?_ <;> rw [modify_conn]
    · cases same
      exact decides.of_eq (badData_incoming _ c message) (badData_persistent _ c message)
    · cases same
    · cases same

open SendResult in
/-- Persistent messages, none of them taken only in part and none refused, leave the
connection as it is and are all on the wire in the end. -/
theorem writeMessages_whole {queue done messages : List OutgoingHttpMessage} {sends : List SendResult} (writable : w.Writable c)
    (kept : ∀ message ∈ messages, message.isPersistent ∧ 0 < message.getLength) (clean : ∀ result ∈ sends, ¬ result.fails)
    (split : queue = done ++ messages) (unbroken : Unbroken messages sends) :
    (writeMessages c done.length messages sends w).world = w ∧
      ((writeMessages c done.length messages sends w).returned →
        taken queue (writeMessages c done.length messages sends w).calls = wireOf messages) := by
  induction messages generalizing done sends with
  | nil => exact ⟨rfl, fun _ => rfl⟩
  | cons message messages ih =>
    obtain ⟨persistent, nonempty⟩ := kept message (by simp)
    have here : queue[done.length]? = some message := by simp [split]
    have later {rest : List SendResult} := @ih (done ++ [message]) rest (fun other member => kept other (by simp [member]))
    simp only [List.length_append, List.length_cons, List.length_nil, Nat.zero_add] at later
    have turn : Turn c done.length message messages sends w _ := writeMessages_turn writable
    generalize writeMessages c done.length (message :: messages) sends w = run at turn ⊢
    cases turn with
    | empty empty => exact absurd empty (Nat.ne_of_gt nonempty)
    | waits => exact ⟨rfl, nofun⟩
    | @fails result rest found fails =>
      have member : result ∈ sends := (List.dropWhile_suffix _).subset (found ▸ List.mem_cons_self)
      exact absurd fails (clean result member)
    | last _ _ last => exact absurd persistent (by rw [last]; decide)
    | @next count rest found positive more =>
      have suffix : rest ⊆ sends := fun result member =>
        (List.dropWhile_suffix _).subset (found ▸ List.mem_cons_of_mem _ member)
      obtain ⟨whole, others⟩ := unbroken.decided found positive
      obtain ⟨stays, all⟩ := later (fun result member => clean result (suffix member)) (by rw [split, List.append_assoc]; rfl)
        (others persistent)
      refine ⟨stays, fun returned => ?_⟩
      dsimp only
      rw [taken_append, taken_callsFor, accepted_whole here whole, all returned]
      rfl

end World

namespace HttpWorker
open CStr OutgoingHttpMessage

theorem greeting_response (uri : Bytes) (isPersistent : Bool) : Response (greeting uri isPersistent) := by
  refine @Response.calls [.setMethod .response, .setPersistence isPersistent, .setData (HttpWorker.text ++ uri), .setResponseCode .ok]
    fun call member => ?_
  simp only [List.mem_cons, List.not_mem_nil, or_false] at member
  rcases member with rfl | rfl | rfl | rfl
  · exact .method
  · exact .persistence isPersistent
  · exact .data (HttpWorker.text ++ uri)
  · exact .code .ok

private theorem ascii_append (s s' : String) : ascii (s ++ s') = ascii s ++ ascii s' := by
  rw [ascii, ascii, ascii, String.toList_append, List.map_append]

private theorem length_ascii {s : String} {chars : List Char} (same : s = .ofList chars) : (ascii s).length = chars.length := by
  rw [ascii, List.length_map, String.length_toList, same, String.length_ofList]

theorem text_length : text.length = 591 := by
  unfold text
  simp only [ascii_append, List.length_append]
  have sum {a b c d e f : Nat} (first : a = 101) (second : b = 117) (third : c = 113) (fourth : d = 106) (fifth : e = 116)
      (sixth : f = 38) : a + b + c + d + e + f = 591 := by omega
  exact sum (length_ascii rfl) (length_ascii rfl) (length_ascii rfl) (length_ascii rfl) (length_ascii rfl) (length_ascii rfl)

theorem greeting_filled (uri : Bytes) (isPersistent : Bool) :
    ¬ ((greeting uri isPersistent).responseCode = .ok ∧ (greeting uri isPersistent).dataLen = 0) := by
  rintro ⟨_, empty⟩
  have size : (HttpWorker.text ++ uri).length = 0 := empty
  rw [List.length_append, text_length] at size
  omega

theorem greeting_status (uri : Bytes) (isPersistent : Bool) : status (greeting uri isPersistent) = .ok :=
  if_neg (greeting_filled uri isPersistent)

theorem greeting_data (uri : Bytes) (isPersistent : Bool) : (greeting uri isPersistent).data = HttpWorker.text ++ uri :=
  List.take_length

theorem greeting_stored (uri : Bytes) (isPersistent : Bool) :
    (greeting uri isPersistent).data.length = (greeting uri isPersistent).dataLen := by
  rw [greeting_data]
  rfl

theorem greeting_lengths (uri : Bytes) (isPersistent : Bool) : TrueLengths (greeting uri isPersistent) := by
  have fields : ∀ field ∈ headerFields (greeting uri isPersistent), ¬ Client.IsLength field := by
    cases isPersistent
    · exact (by decide +kernel : ∀ field ∈ headerFields { header := ascii "Connection: close\r\n" }, ¬ Client.IsLength field)
    · exact (by decide +kernel : ∀ field ∈ headerFields { header := ascii "Connection: keep-alive\r\n" }, ¬ Client.IsLength field)
  exact fun field member length => absurd length (fields field member)

theorem greeting_fits {uri : Bytes} (small : uri.length + 1000 < 2 ^ 64) (isPersistent : Bool) :
    (greeting uri isPersistent).text.length + 1 < 2 ^ 64 := by
  have digits : (decimal (HttpWorker.text ++ uri).length).length ≤ 20 := by
    rw [decimal, List.length_map, Nat.length_toDigits_le_iff (by decide) (by decide), List.length_append, text_length]
    omega
  have header : (greeting uri isPersistent).header.length ≤ 24 := by
    unfold greeting
    cases isPersistent
    · exact (by decide : (ascii "Connection: close\r\n").length ≤ 24)
    · exact (by decide : (ascii "Connection: keep-alive\r\n").length ≤ 24)
  have written : (greeting uri isPersistent).text = ascii "HTTP/1.1 " ++ HttpCode.ok.message ++ crlf ++
      (greeting uri isPersistent).header ++ contentLength (HttpWorker.text ++ uri).length ++ crlf ++ (HttpWorker.text ++ uri) := by
    rw [← greeting_data uri isPersistent, greeting_stored]
    exact if_neg (greeting_filled uri isPersistent)
  have start : (ascii "HTTP/1.1 " ++ HttpCode.ok.message ++ crlf).length = 17 := rfl
  have name : (ascii "Content-Length: ").length = 16 := rfl
  have size := text_length
  rw [written]
  simp only [List.length_append, contentLength, List.length_cons, List.length_nil, name] at start digits ⊢
  omega

/-- What is queued for a message of a persistent connection. -/
def reply (message : IncomingHttpMessage) : OutgoingHttpMessage := (answer true message).serialize

theorem reply_get {message : IncomingHttpMessage} (get : message.method = .get) :
    reply message = (greeting message.uri true).serialize := by
  rw [reply, answer, if_pos get]

theorem serialize_persistent (message : OutgoingHttpMessage) : message.serialize.isPersistent = message.isPersistent := by
  unfold serialize
  split
  · rfl
  · rfl
  · dsimp only
    split <;> rfl

theorem reply_kept {message : IncomingHttpMessage} (get : message.method = .get) (small : message.uri.length + 1000 < 2 ^ 64) :
    (reply message).isPersistent ∧ 0 < (reply message).getLength := by
  rw [reply_get get, serialize_persistent]
  refine ⟨rfl, ?_⟩
  rw [getLength_text (greeting_stored _ true) (greeting_fits small true)]
  exact length_text_pos _

theorem heard_gets {requests : List IncomingHttpMessage} (gets : ∀ request ∈ requests, request.method = .get) :
    heard requests = requests := by
  induction requests with
  | nil => rfl
  | cons request requests ih =>
    rw [heard, if_pos (gets request (by simp)), ih fun other member => gets other (by simp [member])]

end HttpWorker

namespace Exchange
open World CStr CString IncomingHttpMessage HttpWorker

/-- The peer of a connection sends and keeps the connection open, and takes every message
whole: no read is spurious, no error is reported. On the other connections anything happens. -/
def Faithful (c : Nat) (exchange : Exchange) : Event → Prop
  | .ready _ => True
  | .create d => d ≠ c
  | .eventRead d result => d = c → ∃ bytes, result = .received bytes ∧ bytes ≠ [] ∧ bytes.length ≤ bufferLength
  | .eventWrite d answers => d = c →
      Unbroken (exchange.world.conn c).outgoing answers ∧ ∀ answer ∈ answers, ¬ answer.fails
  | .eventError d => d ≠ c
  | .pass => True

/-- A connection that has received the start of a stream of requests: the complete ones
have arrived, the rest is held, and what was handed out is answered. -/
structure Conversing (requests : List Request) (c : Nat) (exchange : Exchange) : Prop where
  connected : (exchange.world.conn c).state = .connected
  received : ∃ done later held, requests = done ++ later ∧
    (exchange.log c).received = (done.map Request.bytes).flatten ++ held ∧
    Framing.Held (later.map Request.bytes) held ∧ Holds (exchange.world.conn c).buffer held ∧
    (exchange.log c).arrived = done.map Request.message
  persistent : (exchange.log c).arrived ≠ [] → (exchange.world.conn c).isPersistent
  queued : (exchange.log c).queued = (exchange.log c).handed.map reply
  wire : (exchange.log c).wire = wireOf (exchange.log c).sent

variable {requests : List Request} {exchange after : Exchange} {c maxConnects : Nat}

theorem Conversing.elsewhere (conversing : exchange.Conversing requests c)
    (conn : after.world.conn c = exchange.world.conn c) (log : after.log c = exchange.log c) : after.Conversing requests c := by
  obtain ⟨connected, received, persistent, queued, wire⟩ := conversing
  refine ⟨?_, ?_, ?_, ?_, ?_⟩
  · rw [conn]
    exact connected
  · rw [conn, log]
    exact received
  · rw [conn, log]
    exact persistent
  · rw [log]
    exact queued
  · rw [log]
    exact wire

private theorem framed_requests (fits : ∀ request ∈ requests, request.bytes.length + 1501 < 2 ^ 64) :
    ∀ frame ∈ requests.map fun request => (request.bytes, request.message), Framing.Frame verdict frame.1 frame.2 := by
  intro frame member
  obtain ⟨request, inside, rfl⟩ := List.mem_map.mp member
  exact request.frame (by have small := fits request inside; omega)

private theorem held_fits (fits : ∀ request ∈ requests, request.bytes.length + 1501 < 2 ^ 64) {held : Bytes}
    (kept : Framing.Held (requests.map Request.bytes) held) : held.length + 1501 < 2 ^ 64 := by
  cases requests with
  | nil =>
    rw [show held = [] from kept]
    decide
  | cons request requests =>
    have size : held.length ≤ request.bytes.length := kept.1.length_le
    have small := fits request (by simp)
    omega

private theorem Conversing.read (persistent : ∀ request ∈ requests, request.message.isPersistent)
    (fits : ∀ request ∈ requests, request.bytes.length + 1501 < 2 ^ 64)
    (conversing : exchange.Conversing requests c) {bytes : Bytes} {world : World}
    (nonempty : bytes ≠ []) (short : bytes.length ≤ bufferLength)
    (returned : exchange.world.eventRead c (.received bytes) = some ⟨world, none⟩)
    (stream : ((exchange.read c (.received bytes) world).log c).received <+: (requests.map Request.bytes).flatten) :
    (exchange.read c (.received bytes) world).Conversing requests c := by
  obtain ⟨connected, ⟨done, later, held, split, received, kept, holds, arrived⟩, last, queued, wire⟩ := conversing
  have fitsLater : ∀ request ∈ later, request.bytes.length + 1501 < 2 ^ 64 :=
    fun request member => fits request (by rw [split]; simp [member])
  have appended : ((exchange.read c (.received bytes) world).log c).received = (exchange.log c).received ++ bytes := by
    rw [Exchange.read, note_log, if_pos connected]
    rfl
  -- what is held and what is read are a start of the requests that are still to come
  have within : held ++ bytes <+: ((later.map fun request => (request.bytes, request.message)).map Prod.fst).flatten := by
    rw [appended, received, split, List.map_append, List.flatten_append, List.append_assoc] at stream
    rw [List.map_map]
    exact (List.prefix_append_right_inj _).mp stream
  obtain ⟨whole, rest, start, cut, same, stays, drains⟩ :=
    Framing.drains_within (framed_requests fitsLater) (verdict_incomplete_iff.mpr rfl) within
  obtain ⟨whole, rest, rfl, rfl, rfl⟩ := List.map_eq_append_iff.mp cut
  rw [List.map_map] at same stays drains
  obtain ⟨next, read, drained⟩ := eventRead_drains connected holds nonempty short (held_fits fitsLater kept) drains
  obtain rfl : next = world := congrArg Ended.world (Option.some.inj (read.symm.trans returned))
  have outgoing : (next.conn c).outgoing = (exchange.world.conn c).outgoing := by
    rw [drained.outgoing]
    exact List.append_nil _
  obtain ⟨messages, incoming, decides⟩ := eventRead_decides returned
  have messages_eq : messages = whole.map Request.message :=
    List.append_cancel_left (incoming.symm.trans drained.incoming)
  subst messages_eq
  have log : (exchange.read c (.received bytes) next).log c = { exchange.log c with
      received := (exchange.log c).received ++ bytes
      arrived := (exchange.log c).arrived ++ whole.map Request.message } := by
    rw [Exchange.read, note_log, if_pos connected, incoming, outgoing, List.drop_left, List.drop_length, List.append_nil]
    rfl
  refine ⟨drained.state.trans connected, ⟨done ++ whole, rest, start, ?_, ?_, stays, drained.buffer, ?_⟩, ?_, ?_, ?_⟩
  · rw [split, List.append_assoc]
  · rw [log, List.map_append, List.flatten_append, List.append_assoc]
    dsimp only
    rw [received, List.append_assoc, same]
    rfl
  · rw [log, List.map_append, ← arrived]
  · rw [log]
    intro some
    refine decides (fun message member => ?_) ?_
    · obtain ⟨request, inside, rfl⟩ := List.mem_map.mp member
      exact persistent request (by rw [split]; simp [inside])
    · by_cases none : whole.map Request.message = []
      · refine .inr (last ?_)
        dsimp only at some
        rwa [none, List.append_nil] at some
      · exact .inl none
  · rw [log]
    exact queued
  · rw [log]
    exact wire

/-- What is handed out belongs to requests of the stream. -/
private theorem Conversing.handed (conversing : exchange.Conversing requests c) (answered : exchange.Answered c) :
    ∃ k ≤ requests.length, (exchange.log c).handed = (requests.take k).map Request.message := by
  obtain ⟨done, later, held, split, _, _, _, arrived⟩ := conversing.received
  have handed := List.prefix_iff_eq_take.mp (arrived ▸ answered.handed)
  have inside := answered.handed.length_le
  rw [arrived, List.length_map] at inside
  refine ⟨(exchange.log c).handed.length, ?_, ?_⟩
  · rw [split, List.length_append]
    omega
  · rw [split, List.take_append_of_le_length inside, List.map_take]
    exact handed

private theorem uri_fits {request : Request} (small : request.bytes.length + 1501 < 2 ^ 64) :
    request.message.uri.length + 1000 < 2 ^ 64 := by
  have shorter : request.uri.length ≤ request.bytes.length := by
    simp only [Request.bytes, Request.firstLine, List.length_append]
    omega
  have same : request.message.uri = request.uri := rfl
  rw [same]
  omega

private theorem Conversing.waiting (fits : ∀ request ∈ requests, request.bytes.length + 1501 < 2 ^ 64)
    (conversing : exchange.Conversing requests c) (answered : exchange.Answered c) :
    ∀ message ∈ (exchange.world.conn c).outgoing, message.isPersistent ∧ 0 < message.getLength := by
  intro message member
  obtain ⟨k, _, handed⟩ := conversing.handed answered
  have queued := (answered.waiting conversing.connected).1
  have among : message ∈ (exchange.log c).handed.map reply := by
    rw [← conversing.queued, queued]
    exact List.mem_append_right _ member
  rw [handed, List.map_map] at among
  obtain ⟨request, inside, rfl⟩ := List.mem_map.mp among
  exact reply_kept rfl (uri_fits (fits request (List.mem_of_mem_take inside)))

private theorem Conversing.write (fits : ∀ request ∈ requests, request.bytes.length + 1501 < 2 ^ 64)
    (conversing : exchange.Conversing requests c) (answered : exchange.Answered c) (registry : exchange.world.Registry) {answers : List SendResult}
    (returned : (exchange.world.eventWrite c answers).returned)
    (unbroken : Unbroken (exchange.world.conn c).outgoing answers) (clean : ∀ answer ∈ answers, ¬ answer.fails) :
    (exchange.write c (exchange.world.eventWrite c answers)).Conversing requests c := by
  have kept := Conversing.waiting fits conversing answered
  obtain ⟨connected, received, last, queued, wire⟩ := conversing
  have writable : exchange.world.Writable c :=
    ⟨connected, (registry.inside c ((registry.connected c).mp connected)).1⟩
  -- the connection is left as it is but for its queue, which is on the wire
  have conn : (exchange.world.eventWrite c answers).world.conn c = { exchange.world.conn c with outgoing := [] } ∧
      taken (exchange.world.conn c).outgoing (exchange.world.eventWrite c answers).calls =
        wireOf (exchange.world.conn c).outgoing := by
    by_cases empty : (exchange.world.conn c).outgoing = []
    · have same : exchange.world.eventWrite c answers =
          ⟨exchange.world.poll (·.removeWrite (exchange.world.descriptor c)), [], true, none⟩ := by
        rw [eventWrite, if_neg (not_not_intro connected), if_pos empty]
      rw [same, empty, ← empty]
      exact ⟨rfl, by rw [empty]; rfl⟩
    · have same : exchange.world.eventWrite c answers = writeMessages c 0 (exchange.world.conn c).outgoing answers
          (exchange.world.modify c ({ · with outgoing := [] })) := by
        rw [eventWrite, if_neg (not_not_intro connected), if_neg empty]
      have swapped : (exchange.world.modify c ({ · with outgoing := [] })).conn c =
          { exchange.world.conn c with outgoing := [] } := modify_conn _ _ _
      have taking : (exchange.world.modify c ({ · with outgoing := [] })).Writable c :=
        ⟨by rw [swapped]; exact connected, by rw [descriptor, swapped]; exact writable.descriptor⟩
      have whole := @writeMessages_whole _ c (exchange.world.conn c).outgoing [] _ answers taking kept clean rfl unbroken
      rw [List.length_nil, ← same] at whole
      exact ⟨by rw [whole.1, swapped], whole.2 returned⟩
  have sent := (eventWrite_sends writable returned).all (by rw [conn.1]; exact connected)
  have log : (exchange.write c (exchange.world.eventWrite c answers)).log c = { exchange.log c with
      sent := (exchange.log c).sent ++ (exchange.world.conn c).outgoing
      wire := (exchange.log c).wire ++ wireOf (exchange.world.conn c).outgoing } := by
    rw [Exchange.write, note_log, sent.1, conn.2]
  refine ⟨?_, ?_, ?_, ?_, ?_⟩
  · exact (congrArg Connection.state conn.1).trans connected
  · rw [log]
    obtain ⟨done, later, held, split, stream, kept, holds, arrived⟩ := received
    refine ⟨done, later, held, split, stream, kept, ?_, arrived⟩
    exact (congrArg Connection.buffer conn.1) ▸ holds
  · rw [log]
    exact fun some => (congrArg Connection.isPersistent conn.1).trans (last some)
  · rw [log]
    exact queued
  · have more : wireOf ((exchange.log c).sent ++ (exchange.world.conn c).outgoing) =
        wireOf (exchange.log c).sent ++ wireOf (exchange.world.conn c).outgoing := by
      rw [wireOf, List.map_append, List.flatten_append]
      rfl
    rw [log]
    exact (congrArg (· ++ wireOf (exchange.world.conn c).outgoing) wire).trans more.symm

private theorem Conversing.attend (conversing : exchange.Conversing requests c) (answered : exchange.Answered c)
    {activity : List Nat} (active : exchange.world.server.activity = c :: activity) {world : World}
    (moves : passStep exchange.world = .next world) : (exchange.attend c world).Conversing requests c := by
  obtain ⟨connected, ⟨done, later, held, split, received, kept, holds, arrived⟩, last, queued, wire⟩ := conversing
  obtain ⟨_, same, _, conn, _⟩ := passStep_active active connected
  cases moves.symm.trans same
  have order := (answered.waiting connected).2
  have gets : ∀ message ∈ (exchange.world.conn c).incoming, message.method = .get := by
    intro message member
    have among : message ∈ done.map Request.message := by
      rw [← arrived, order]
      exact List.mem_append_right _ member
    obtain ⟨_, _, rfl⟩ := List.mem_map.mp among
    rfl
  have asks : exchange.world.getMessages c [] = if (exchange.world.conn c).incoming = [] then (false, [], exchange.world)
      else (true, (exchange.world.conn c).incoming, exchange.world.modify c ({ · with incoming := [] })) := by
    unfold getMessages
    simp [connected]
  by_cases none : (exchange.world.conn c).incoming = []
  · rw [answered_idle none] at conn
    refine Conversing.elsewhere ⟨connected, ⟨done, later, held, split, received, kept, holds, arrived⟩, last, queued, wire⟩
      conn ?_
    unfold Exchange.attend
    rw [asks, if_pos none]
    dsimp only
    rw [note_log, conn, List.drop_length]
    simp
  · have more : (exchange.world.conn c).isPersistent := by
      refine last fun empty => none ?_
      rw [order] at empty
      exact (List.append_eq_nil_iff.mp empty).2
    have replies : (world.conn c).outgoing = (exchange.world.conn c).outgoing ++ (exchange.world.conn c).incoming.map reply := by
      rw [conn]
      dsimp only [HttpWorker.answered]
      rw [answers, heard_gets gets, more]
      rfl
    have log : (exchange.attend c world).log c = { exchange.log c with
        batches := (exchange.log c).batches ++ [⟨(exchange.world.conn c).isPersistent, (exchange.world.conn c).incoming⟩]
        queued := (exchange.log c).queued ++ (exchange.world.conn c).incoming.map reply } := by
      unfold Exchange.attend
      rw [asks, if_neg none]
      dsimp only
      rw [note_log, replies, List.drop_left, if_pos rfl]
    refine ⟨?_, ⟨done, later, held, split, ?_, kept, ?_, ?_⟩, ?_, ?_, ?_⟩
    · exact (congrArg Connection.state conn).trans connected
    · rw [log]
      exact received
    · exact (congrArg Connection.buffer conn) ▸ holds
    · rw [log]
      exact arrived
    · rw [log]
      exact fun some => (congrArg Connection.isPersistent conn).trans (last some)
    · rw [log]
      dsimp only [Log.handed]
      rw [queued, List.flatMap_append, List.flatMap_singleton, List.map_append]
      rfl
    · rw [log]
      exact wire

theorem received_grows {event : Event} (step : Step maxConnects event exchange after) (faithful : Faithful c exchange event) :
    (exchange.log c).received <+: (after.log c).received := by
  cases step with
  | ready => exact List.prefix_rfl
  | create => rw [note_elsewhere (Ne.symm faithful)]
  | @eventRead _ d =>
    by_cases own : c = d
    · subst own
      rw [Exchange.read, note_log]
      exact List.prefix_append _ _
    · rw [Exchange.read, note_elsewhere own]
  | @eventWrite _ d =>
    by_cases own : c = d
    · subst own
      rw [Exchange.write, note_log]
    · rw [Exchange.write, note_elsewhere own]
  | eventError => exact List.prefix_rfl
  | pass =>
    unfold Exchange.pass
    split
    next d _ _ _ _ =>
      unfold Exchange.attend
      by_cases own : c = d
      · subst own
        dsimp only
        rw [note_log]
      · dsimp only
        rw [note_elsewhere own]
    next => exact List.prefix_rfl

theorem Conversing.step (persistent : ∀ request ∈ requests, request.message.isPersistent)
    (fits : ∀ request ∈ requests, request.bytes.length + 1501 < 2 ^ 64) (conversing : exchange.Conversing requests c)
    (attended : exchange.traffic.Attended) (answered : exchange.Answered c) {event : Event}
    (step : Step maxConnects event exchange after) (faithful : Faithful c exchange event)
    (stream : (after.log c).received <+: (requests.map Request.bytes).flatten) : after.Conversing requests c := by
  have registry : exchange.world.Registry := attended.registry
  cases step with
  | ready => exact conversing.elsewhere rfl rfl
  | @create _ d answers attempt unused returned straight =>
    have other : c ≠ d := Ne.symm faithful
    refine conversing.elsewhere ?_ (note_elsewhere other _ _)
    rcases create_drop registry unused returned straight with admitted | refused
    · exact admitted.others c other
    · exact refused.others c other
  | @eventRead _ d result world returned =>
    by_cases own : c = d
    · subst own
      obtain ⟨bytes, rfl, nonempty, short⟩ := faithful rfl
      exact Conversing.read persistent fits conversing nonempty short returned stream
    · have confined := perform_confined exchange.world d (.eventRead result)
      rw [perform, returned] at confined
      exact conversing.elsewhere (confined.others c own) (note_elsewhere own _ _)
  | @eventWrite _ d answers returned =>
    by_cases own : c = d
    · subst own
      obtain ⟨unbroken, clean⟩ := faithful rfl
      exact Conversing.write fits conversing answered registry returned unbroken clean
    · exact conversing.elsewhere ((eventWrite_confined exchange.world d answers).others c own) (note_elsewhere own _ _)
  | @eventError _ d =>
    exact conversing.elsewhere ((perform_confined exchange.world d .eventError).others c (Ne.symm faithful)) rfl
  | pass =>
    cases active : exchange.world.server.activity with
    | nil =>
      rw [pass_idle active]
      exact conversing
    | cons d activity =>
      have connected := (registry.connected d).mpr (registry.activity d (by rw [active]; exact List.mem_cons_self))
      obtain ⟨world, moves, _, _, others⟩ := passStep_active active connected
      rw [pass_active active moves]
      by_cases own : c = d
      · subst own
        exact conversing.attend answered active moves
      · exact conversing.elsewhere (others c own) (attend_elsewhere own world)

theorem conversing_fresh {world : World} (connected : (world.conn c).state = .connected)
    (buffer : (world.conn c).buffer = .ofSize bufferLength)
    (nonempty : ∀ request ∈ requests, request.bytes.length + 1501 < 2 ^ 64) :
    (exchange.note c world fun _ => {}).Conversing requests c := by
  have empty : (exchange.note c world fun _ => {}).log c = {} := note_log exchange c world _
  have held : Framing.Held (requests.map Request.bytes) [] := by
    refine Framing.Held.nil fun bytes member => ?_
    obtain ⟨request, inside, rfl⟩ := List.mem_map.mp member
    exact (request.frame (by have small := nonempty request inside; omega)).nonempty
  refine ⟨connected, ⟨[], requests, [], rfl, ?_, held, ?_, ?_⟩, ?_, ?_, ?_⟩
  · rw [empty]
    rfl
  · have same : ((exchange.note c world fun _ => {}).world.conn c).buffer = .ofSize bufferLength := buffer
    rw [same]
    exact ⟨valid_ofSize (by decide), content_ofSize _⟩
  · rw [empty]
    rfl
  · rw [empty]
    exact fun some => absurd rfl some
  · rw [empty]
    rfl
  · rw [empty]
    rfl

private theorem onWire_serialize (message : OutgoingHttpMessage) : message.serialize.onWire = message.wire := rfl

/-- What the client reads once the answers to the first requests are sent. -/
private theorem read_replies (fits : ∀ request ∈ requests, request.bytes.length + 1501 < 2 ^ 64) :
    Client.read (wireOf (requests.map fun request => reply request.message)) =
      some (requests.map fun request => (HttpCode.ok.code, HttpWorker.text ++ request.uri)) := by
  have wires : wireOf (requests.map fun request => reply request.message) =
      ((requests.map fun request => greeting request.uri true).map OutgoingHttpMessage.wire).flatten := by
    rw [wireOf, List.map_map, List.map_map]
    refine congrArg List.flatten (List.map_congr_left fun request _ => ?_)
    have get : reply request.message = (greeting request.message.uri true).serialize := reply_get rfl
    rw [Function.comp_apply, Function.comp_apply, get, onWire_serialize]
    rfl
  rw [wires, OutgoingHttpMessage.read_wires, List.map_map]
  · refine congrArg some (List.map_congr_left fun request _ => ?_)
    rw [Function.comp_apply, greeting_status, greeting_data]
  · intro message member
    obtain ⟨request, _, rfl⟩ := List.mem_map.mp member
    exact greeting_response request.uri true
  · intro message member
    obtain ⟨request, inside, rfl⟩ := List.mem_map.mp member
    exact greeting_fits (uri_fits (fits request inside)) true
  · intro message member bare
    obtain ⟨request, _, rfl⟩ := List.mem_map.mp member
    rw [greeting_status] at bare
    cases bare
  · intro message member
    obtain ⟨request, _, rfl⟩ := List.mem_map.mp member
    exact greeting_lengths request.uri true

/-- A connection is made among others and its client sends a stream of well-formed GET
requests that keep the connection, cut into reads anyhow, and takes every message whole.
Whatever the server does then and happens on its other connections, the connection stays,
and the client reads the answers to the first requests, whole and in order. They are all
answered when all have been received and nothing waits any more. -/
theorem conversation {requests : List Request} {exchange opened after : Exchange} {size c maxConnects : Nat}
    (persistent : ∀ request ∈ requests, request.message.isPersistent)
    (fits : ∀ request ∈ requests, request.bytes.length + 1501 < 2 ^ 64)
    (past : Run maxConnects (fun _ _ => True) (start size) exchange) (created : Step maxConnects (.create c) exchange opened)
    (connected : (opened.world.conn c).state = .connected) (run : Run maxConnects (Faithful c) opened after)
    (stream : (after.log c).received <+: (requests.map Request.bytes).flatten) :
    (after.world.conn c).state = .connected ∧
      ∃ n ≤ requests.length,
        Client.read (after.log c).wire =
          some ((requests.take n).map fun request => (HttpCode.ok.code, HttpWorker.text ++ request.uri)) ∧
        ((after.log c).received = (requests.map Request.bytes).flatten → (after.world.conn c).incoming = [] →
          (after.world.conn c).outgoing = [] → n = requests.length) := by
  have fresh : opened.Conversing requests c ∧ opened.traffic.Attended ∧ ∀ d, opened.Answered d := by
    have attended := @run_attended (start size) exchange maxConnects _ (Traffic.attended_start size) past
    have answered : ∀ d, exchange.Answered d := fun d => answered_run past d
    refine ⟨?_, attended_step attended created, Answered.step answered attended created⟩
    cases created
    exact conversing_fresh connected ((Created.drop_held _ c _).trans (create_held _ _ c _ _)) fits
  obtain ⟨conversing, attended, answered⟩ : after.Conversing requests c ∧ after.traffic.Attended ∧ ∀ d, after.Answered d := by
    induction run with
    | refl => exact fresh
    | @tail middle after _ last ih =>
      obtain ⟨event, faithful, step⟩ := last
      obtain ⟨conversing, attended, answered⟩ := ih ((received_grows step faithful).trans stream)
      exact ⟨conversing.step persistent fits attended (answered c) step faithful stream, attended_step attended step,
        Answered.step answered attended step⟩
  refine ⟨conversing.connected, ?_⟩
  obtain ⟨k, inside, handed⟩ := conversing.handed (answered c)
  have sent : (after.log c).sent = ((requests.take (after.log c).sent.length).map fun request => reply request.message) ∧
      (after.log c).sent.length ≤ k := by
    have start := (answered c).sent
    rw [conversing.queued, handed, List.map_map] at start
    have shorter := start.length_le
    rw [List.length_map, List.length_take, Nat.min_eq_left inside] at shorter
    have first := List.prefix_iff_eq_take.mp start
    rw [← List.map_take, List.take_take, Nat.min_eq_left shorter] at first
    exact ⟨first, shorter⟩
  refine ⟨(after.log c).sent.length, sent.2.trans inside, ?_, fun all incoming outgoing => ?_⟩
  · rw [conversing.wire, sent.1, read_replies fun request member => fits request (List.mem_of_mem_take member),
      List.length_map, List.length_take, Nat.min_eq_left (sent.2.trans inside)]
  · obtain ⟨queued, arrived⟩ := (answered c).waiting conversing.connected
    obtain ⟨done, later, held, split, received, kept, _, messages⟩ := conversing.received
    -- nothing but whole requests has been received
    have none : later = [] := by
      rw [all, split, List.map_append, List.flatten_append] at received
      have rest := List.append_cancel_left received
      cases later with
      | nil => rfl
      | cons request later =>
        have size := congrArg List.length rest
        have shorter := kept.1.length_le
        rw [List.map_cons, List.flatten_cons, List.length_append] at size
        exact absurd (kept.1.eq_of_length (by omega)) kept.2
    rw [outgoing, List.append_nil, conversing.queued] at queued
    rw [incoming, List.append_nil, messages] at arrived
    rw [← queued, List.length_map, ← arrived, List.length_map, split, none, List.append_nil]

/-- A request that keeps the connection. -/
def keeping : Request where
  uri := ascii "/"
  version := ascii "1"
  fields := [⟨ascii "Connection", ascii "keep-alive"⟩]
  uriClean := by decide
  versionClean := Request.sample.versionClean
  nonempty := by decide
  names := by decide
  values := by decide

/-- Two requests, the second of which is cut. -/
theorem conversation_keeping :
    let read := (opened.receive (ascii "GET / HTTP/1.1\r\nConnection: keep-alive\r\n\r\nGET ")).receive
      (ascii "/ HTTP/1.1\r\nConnection: keep-alive\r\n\r\n")
    (read.world.conn 0).incoming.length = 2 ∧ (read.pass.world.conn 0).state = .connected ∧
      ∃ n ≤ [keeping, keeping].length,
        Client.read (read.pass.log 0).wire =
          some (([keeping, keeping].take n).map fun request => (HttpCode.ok.code, HttpWorker.text ++ request.uri)) ∧
        ((read.pass.log 0).received = ([keeping, keeping].map Request.bytes).flatten →
          (read.pass.world.conn 0).incoming = [] → (read.pass.world.conn 0).outgoing = [] →
          n = [keeping, keeping].length) := by
  refine ⟨by decide +kernel, ?_⟩
  have reads {exchange : Exchange} {bytes : Bytes} (size : bytes ≠ [] ∧ bytes.length ≤ bufferLength)
      (returned : (exchange.world.eventRead 0 (.received bytes)).any fun ended => ended.thrown.isNone) :
      ∃ event, Faithful 0 exchange event ∧ Step 1 event exchange (exchange.receive bytes) :=
    ⟨.eventRead 0 (.received bytes), fun _ => ⟨bytes, rfl, size⟩, receive_step returned⟩
  exact conversation (by decide +kernel) (by decide +kernel) .refl opened_step (by decide +kernel)
    (.tail (.tail (.tail .refl (reads (by decide +kernel) (by decide +kernel))) (reads (by decide +kernel) (by decide +kernel)))
      ⟨.pass, trivial, .pass⟩) (by decide +kernel)

end Exchange
end LibWebserver
