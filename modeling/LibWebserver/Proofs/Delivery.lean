import LibWebserver.Proofs.Serialize
import LibWebserver.Proofs.World

/-! What `EventWrite` puts on the wire. A message whose `send` takes only a part of
it is not gone on with, so the stream is whole as long as no count is short. -/

namespace LibWebserver

namespace SendResult

/-- `send` is to be called again. -/
def again : SendResult → Bool
  | .accepted _ => false
  | .failed errno => errno = .eagain ∨ errno = .eintr

/-- The connection is lost; a socket that takes nothing counts as lost too. -/
def fails : SendResult → Bool
  | .accepted count => count = 0
  | .failed errno => errno ≠ .eagain ∧ errno ≠ .eintr

theorem writeStream_again {result : SendResult} (again : result.again) : writeStream result = .ok 0 := by
  cases result with
  | accepted count => cases again
  | failed errno =>
    obtain rfl | rfl := of_decide_eq_true again <;> rfl

theorem writeStream_fails {result : SendResult} (fails : result.fails) : ∃ error, writeStream result = .error error := by
  cases result with
  | accepted count =>
    obtain rfl : count = 0 := of_decide_eq_true fails
    exact ⟨_, rfl⟩
  | failed errno =>
    obtain ⟨one, two⟩ := of_decide_eq_true fails
    cases errno with
    | eagain => exact absurd rfl one
    | eintr => exact absurd rfl two
    | _ => exact ⟨_, rfl⟩

theorem writeStream_accepted {count : Nat} (positive : 0 < count) : writeStream (.accepted count) = .ok count := by
  cases count with
  | zero => cases positive
  | succ count => rfl

/-- An answer that ends the retries was an error or took something. -/
theorem cases_of_not_again {result : SendResult} (done : ¬ result.again) :
    result.fails ∨ ∃ count, 0 < count ∧ result = .accepted count := by
  cases result with
  | accepted count =>
    cases count with
    | zero => exact .inl rfl
    | succ count => exact .inr ⟨count + 1, Nat.succ_pos count, rfl⟩
  | failed errno =>
    refine .inl (decide_eq_true ?_)
    simpa [again] using done

theorem not_again_of_dropWhile {answers rest : List SendResult} {result : SendResult}
    (found : answers.dropWhile again = result :: rest) : ¬ result.again := by
  have first := List.head?_dropWhile_not again answers
  rw [found] at first
  exact Bool.eq_false_iff.mp first

end SendResult

open SendResult

/-- The calls for one message, up to and including the one that decided. -/
def callsFor (position : Nat) (answers : List SendResult) (last : Option SendResult) : List SendCall :=
  (answers.takeWhile again).map (⟨position, 0, some ·⟩) ++ [⟨position, 0, last⟩]

theorem retryWrite_eq (position : Nat) (answers : List SendResult) :
    retryWrite position answers =
      match answers.dropWhile again with
      | [] => ⟨callsFor position answers none, none, []⟩
      | result :: rest => ⟨callsFor position answers (some result), some (writeStream result), rest⟩ := by
  induction answers with
  | nil => rfl
  | cons result answers ih =>
    unfold callsFor at ih ⊢
    rw [retryWrite]
    by_cases retried : result.again
    · rw [writeStream_again retried, List.takeWhile_cons_of_pos retried, List.dropWhile_cons_of_pos retried]
      dsimp only
      rw [ih]
      cases answers.dropWhile again <;> rfl
    · rw [List.takeWhile_cons_of_neg retried, List.dropWhile_cons_of_neg retried]
      rcases cases_of_not_again retried with fails | ⟨count, positive, rfl⟩
      · obtain ⟨error, same⟩ := writeStream_fails fails
        dsimp only
        rw [same]
        rfl
      · dsimp only
        rw [writeStream_accepted positive]
        cases count with
        | zero => cases positive
        | succ count => rfl

namespace World

/-- The ways the loop goes at a message: over before a call, still waiting, over by an
error or by a message that is the last, or on to the next. -/
inductive Turn (c position : Nat) (message : OutgoingHttpMessage) (messages : List OutgoingHttpMessage)
    (answers : List SendResult) (w : World) : WriteRun → Prop where
  | empty (empty : message.getLength = 0) :
      Turn c position message messages answers w ⟨(w.close c).world, [], true, (w.close c).thrown⟩
  | waits (waits : answers.dropWhile again = []) :
      Turn c position message messages answers w ⟨w, callsFor position answers none, false, none⟩
  | fails {result rest} (found : answers.dropWhile again = result :: rest) (fails : result.fails) :
      Turn c position message messages answers w
        ⟨(w.close c).world, callsFor position answers (some result), true, (w.close c).thrown⟩
  | last {count rest} (found : answers.dropWhile again = .accepted count :: rest) (positive : 0 < count)
      (last : message.isPersistent = false) :
      Turn c position message messages answers w
        ⟨(w.close c).world, callsFor position answers (some (.accepted count)), true, (w.close c).thrown⟩
  | next {count rest} (found : answers.dropWhile again = .accepted count :: rest) (positive : 0 < count)
      (more : message.isPersistent = true) :
      Turn c position message messages answers w
        { writeMessages c (position + 1) messages rest w with
          calls := callsFor position answers (some (.accepted count)) ++
            (writeMessages c (position + 1) messages rest w).calls }

variable {w : World} {c position : Nat} {message : OutgoingHttpMessage} {messages : List OutgoingHttpMessage}
  {answers : List SendResult}

/-- The loop has a connection and a socket to write to. -/
structure Writable (w : World) (c : Nat) : Prop where
  connected : (w.conn c).state = .connected
  descriptor : 0 ≤ w.descriptor c

private theorem writeMessage_eq (writable : w.Writable c) (nonempty : 0 < message.getLength) :
    writeMessage (w.descriptor c) position message.getLength answers = retryWrite position answers := by
  rw [writeMessage, if_neg (Nat.ne_of_gt nonempty), if_neg (Int.not_lt.mpr writable.descriptor)]

theorem writeMessages_turn (writable : w.Writable c) :
    Turn c position message messages answers w (writeMessages c position (message :: messages) answers w) := by
  rcases Nat.eq_zero_or_pos message.getLength with empty | nonempty
  · rw [writeMessages, if_neg (not_not_intro writable.connected), writeMessage, if_pos empty]
    exact .empty empty
  rw [writeMessages, if_neg (not_not_intro writable.connected), writeMessage_eq writable nonempty, retryWrite_eq]
  cases found : answers.dropWhile again with
  | nil => exact .waits found
  | cons result rest =>
    rcases cases_of_not_again (not_again_of_dropWhile found) with fails | ⟨count, positive, rfl⟩
    · obtain ⟨error, same⟩ := writeStream_fails fails
      dsimp only
      rw [same]
      exact .fails found fails
    · dsimp only
      rw [writeStream_accepted positive]
      dsimp only
      split
      next more => exact .next found positive more
      next last => exact .last found positive (Bool.eq_false_iff.mpr last)

end World

/-- What a serialized message is on the wire, without the NUL. -/
def OutgoingHttpMessage.onWire (message : OutgoingHttpMessage) : Bytes :=
  message.getSerializedMessage.take message.getLength

/-- What the queue is to put on the wire: its messages up to and including the
first that is not persistent. -/
def upToLast : List OutgoingHttpMessage → List OutgoingHttpMessage
  | [] => []
  | message :: messages => if message.isPersistent then message :: upToLast messages else [message]

namespace SendCall

/-- The bytes of the queue a call moved to the socket. -/
def accepted (queue : List OutgoingHttpMessage) (call : SendCall) : Bytes :=
  match queue[call.position]?, call.result with
  | some message, some (.accepted count) => (message.onWire.drop call.offset).take count
  | _, _ => []

/-- Something was taken, and the message was not taken to its end. -/
def Short (queue : List OutgoingHttpMessage) (call : SendCall) (count : Nat) : Prop :=
  ∃ message, queue[call.position]? = some message ∧ call.result = some (.accepted count) ∧ 0 < count ∧
    call.offset + count < message.getLength

def Fails (call : SendCall) : Prop := ∃ result, call.result = some result ∧ result.fails

end SendCall

def taken (queue : List OutgoingHttpMessage) (calls : List SendCall) : Bytes := (calls.map (·.accepted queue)).flatten

def wireOf (messages : List OutgoingHttpMessage) : Bytes := (messages.map (·.onWire)).flatten

/-- Everything up to the last message is on the wire unless a call failed, a part of
it otherwise, and a short write is followed by the rest of its message. -/
structure Delivers (queue : List OutgoingHttpMessage) (calls : List SendCall) (returned : Bool) : Prop where
  whole : returned → (∀ call ∈ calls, ¬ call.Fails) → taken queue calls = wireOf (upToLast queue)
  start : taken queue calls <+: wireOf (upToLast queue)
  continued : ∀ i call count, calls[i]? = some call → call.Short queue count →
    ∃ next, calls[i + 1]? = some next ∧ next.position = call.position ∧ next.offset = call.offset + count

/-- No message that is reached has a `send` that takes only a part of it. -/
def Unbroken : List OutgoingHttpMessage → List SendResult → Prop
  | [], _ => True
  | message :: messages, answers => match answers.dropWhile again with
    | .accepted count :: rest =>
      count = 0 ∨ message.getLength ≤ count ∧ (message.isPersistent → Unbroken messages rest)
    | _ => True

theorem taken_append (queue : List OutgoingHttpMessage) (calls more : List SendCall) :
    taken queue (calls ++ more) = taken queue calls ++ taken queue more := by
  simp [taken]

theorem accepted_again {queue : List OutgoingHttpMessage} {position offset : Nat} {result : SendResult}
    (again : result.again) : SendCall.accepted queue ⟨position, offset, some result⟩ = [] := by
  cases result with
  | accepted count => cases again
  | failed errno => unfold SendCall.accepted; split <;> simp_all

theorem accepted_none (queue : List OutgoingHttpMessage) (position offset : Nat) :
    SendCall.accepted queue ⟨position, offset, none⟩ = [] := by
  unfold SendCall.accepted
  split
  next same => cases same
  next => rfl

theorem accepted_fails {queue : List OutgoingHttpMessage} {position offset : Nat} {result : SendResult}
    (fails : result.fails) : SendCall.accepted queue ⟨position, offset, some result⟩ = [] := by
  cases result with
  | accepted count =>
    obtain rfl : count = 0 := of_decide_eq_true fails
    unfold SendCall.accepted
    split <;> simp_all
  | failed errno => unfold SendCall.accepted; split <;> simp_all

theorem taken_callsFor (queue : List OutgoingHttpMessage) (position : Nat) (answers : List SendResult)
    (last : Option SendResult) :
    taken queue (callsFor position answers last) = SendCall.accepted queue ⟨position, 0, last⟩ := by
  have retries : ((answers.takeWhile again).map (⟨position, 0, some ·⟩)).map (SendCall.accepted queue) =
      (answers.takeWhile again).map fun _ => [] := by
    rw [List.map_map]
    exact List.map_congr_left fun result member => accepted_again (List.mem_takeWhile_imp member)
  rw [callsFor, taken_append, taken, retries]
  simp [taken]

theorem accepted_whole {queue : List OutgoingHttpMessage} {position count : Nat} {message : OutgoingHttpMessage}
    (here : queue[position]? = some message) (whole : message.getLength ≤ count) :
    SendCall.accepted queue ⟨position, 0, some (.accepted count)⟩ = message.onWire := by
  have size : message.onWire.length ≤ count := by
    rw [OutgoingHttpMessage.onWire, List.length_take]
    omega
  unfold SendCall.accepted
  dsimp only
  rw [here]
  dsimp only
  rw [List.drop_zero, List.take_of_length_le size]

theorem short_callsFor {queue : List OutgoingHttpMessage} {position : Nat} {message : OutgoingHttpMessage}
    (here : queue[position]? = some message) (answers : List SendResult) (last : Option SendResult) :
    (∀ call ∈ callsFor position answers last, ∀ count, ¬ call.Short queue count) ↔
      ∀ count, last = some (.accepted count) → count = 0 ∨ message.getLength ≤ count := by
  constructor
  · intro never count same
    by_contra between
    obtain ⟨positive, short⟩ := not_or.mp between
    exact never ⟨position, 0, last⟩ (by simp [callsFor]) count
      ⟨message, here, same, Nat.pos_of_ne_zero positive, by simpa using short⟩
  · intro whole call member count ⟨other, found, same, positive, short⟩
    rcases List.mem_append.mp member with inside | inside
    · obtain ⟨result, retried, rfl⟩ := List.mem_map.mp inside
      cases same
      cases List.mem_takeWhile_imp retried
    · rw [List.mem_singleton.mp inside] at found same short
      cases here.symm.trans found
      rcases whole count same with rfl | enough
      · cases positive
      · dsimp only at short; omega

theorem Unbroken.decided {message : OutgoingHttpMessage} {messages : List OutgoingHttpMessage}
    {answers rest : List SendResult} {count : Nat} (unbroken : Unbroken (message :: messages) answers)
    (found : answers.dropWhile again = .accepted count :: rest) (positive : 0 < count) :
    message.getLength ≤ count ∧ (message.isPersistent → Unbroken messages rest) := by
  rw [Unbroken, found] at unbroken
  exact unbroken.resolve_left (Nat.ne_of_gt positive)

namespace World

variable {w : World} {c position : Nat} {queue done messages : List OutgoingHttpMessage} {answers : List SendResult}

theorem writeMessages_taken (writable : w.Writable c) (nonempty : ∀ message ∈ messages, 0 < message.getLength)
    (split : queue = done ++ messages) (unbroken : Unbroken messages answers) :
    taken queue (writeMessages c done.length messages answers w).calls <+: wireOf (upToLast messages) ∧
      ((writeMessages c done.length messages answers w).returned →
        (∀ call ∈ (writeMessages c done.length messages answers w).calls, ¬ call.Fails) →
        taken queue (writeMessages c done.length messages answers w).calls = wireOf (upToLast messages)) := by
  induction messages generalizing done answers with
  | nil => exact ⟨List.prefix_rfl, fun _ _ => rfl⟩
  | cons message messages ih =>
    have here : queue[done.length]? = some message := by simp [split]
    have turn : Turn c done.length message messages answers w _ := writeMessages_turn writable
    have later {rest : List SendResult} := @ih (done ++ [message]) rest
      (fun other member => nonempty other (by simp [member])) (by rw [split, List.append_assoc]; rfl)
    simp only [List.length_append, List.length_cons, List.length_nil, Nat.zero_add] at later
    generalize writeMessages c done.length (message :: messages) answers w = run at turn ⊢
    cases turn with
    | empty empty => exact absurd empty (Nat.ne_of_gt (nonempty message (by simp)))
    | waits waits => exact ⟨by rw [taken_callsFor, accepted_none]; exact List.nil_prefix, by simp⟩
    | @fails result rest found fails =>
      refine ⟨by rw [taken_callsFor, accepted_fails fails]; exact List.nil_prefix, fun _ clean => ?_⟩
      exact absurd ⟨result, rfl, fails⟩ (clean ⟨done.length, 0, some result⟩ (by simp [callsFor]))
    | @last count rest found positive last =>
      have whole := (unbroken.decided found positive).1
      have sent : taken queue (callsFor done.length answers (some (.accepted count))) =
          wireOf (upToLast (message :: messages)) := by
        rw [taken_callsFor, accepted_whole here whole, upToLast, last]
        simp [wireOf]
      exact ⟨sent ▸ List.prefix_rfl, fun _ _ => sent⟩
    | @next count rest found positive more =>
      obtain ⟨whole, unbroken⟩ := unbroken.decided found positive
      obtain ⟨start, complete⟩ := later (unbroken more)
      have wire : wireOf (upToLast (message :: messages)) = message.onWire ++ wireOf (upToLast messages) := by
        rw [upToLast, if_pos more]
        simp [wireOf]
      dsimp only
      rw [taken_append, taken_callsFor, accepted_whole here whole, wire]
      refine ⟨(List.prefix_append_right_inj _).mpr start, fun returned clean => ?_⟩
      rw [complete returned fun call member => clean call (List.mem_append_right _ member)]

/-- Every call starts at the first byte of its message. -/
theorem writeMessages_offset (writable : w.Writable c) :
    ∀ call ∈ (writeMessages c position messages answers w).calls, call.offset = 0 := by
  have start (position : Nat) (answers : List SendResult) (last : Option SendResult) :
      ∀ call ∈ callsFor position answers last, call.offset = 0 := by
    intro call member
    rcases List.mem_append.mp member with inside | inside
    · obtain ⟨_, _, rfl⟩ := List.mem_map.mp inside
      rfl
    · rw [List.mem_singleton.mp inside]
  induction messages generalizing position answers with
  | nil => intro call member; cases member
  | cons message messages ih =>
    have turn : Turn c position message messages answers w _ := writeMessages_turn writable
    generalize writeMessages c position (message :: messages) answers w = run at turn ⊢
    cases turn with
    | empty => intro call member; cases member
    | waits | fails | last => exact start _ _ _
    | next =>
      intro call member
      rcases List.mem_append.mp member with inside | inside
      · exact start _ _ _ call inside
      · exact ih call inside

theorem unbroken_iff (writable : w.Writable c) (nonempty : ∀ message ∈ messages, 0 < message.getLength)
    (split : queue = done ++ messages) :
    Unbroken messages answers ↔
      ∀ call ∈ (writeMessages c done.length messages answers w).calls, ∀ count, ¬ call.Short queue count := by
  induction messages generalizing done answers with
  | nil => exact iff_of_true trivial (by intro call member; cases member)
  | cons message messages ih =>
    have here : queue[done.length]? = some message := by simp [split]
    have turn : Turn c done.length message messages answers w _ := writeMessages_turn writable
    have later {rest : List SendResult} := @ih (done ++ [message]) rest
      (fun other member => nonempty other (by simp [member])) (by rw [split, List.append_assoc]; rfl)
    simp only [List.length_append, List.length_cons, List.length_nil, Nat.zero_add] at later
    generalize writeMessages c done.length (message :: messages) answers w = run at turn ⊢
    cases turn with
    | empty empty => exact absurd empty (Nat.ne_of_gt (nonempty message (by simp)))
    | waits waits =>
      rw [Unbroken, waits, short_callsFor here]
      exact iff_of_true trivial (by simp)
    | @fails result rest found fails =>
      rw [Unbroken, found, short_callsFor here]
      cases result with
      | accepted count =>
        obtain rfl : count = 0 := of_decide_eq_true fails
        exact iff_of_true (.inl rfl) (by simp)
      | failed errno => exact iff_of_true trivial (by simp)
    | @last count rest found positive last =>
      rw [Unbroken, found, short_callsFor here]
      simp [last]
    | @next count rest found positive more =>
      have none := Nat.ne_of_gt positive
      simp only [Unbroken, found, none, false_or, more, true_imp_iff, List.forall_mem_append, short_callsFor here,
        Option.some.injEq, SendResult.accepted.injEq, forall_eq', ← later]

/-- The list is taken from the queue before anything is sent. -/
theorem eventWrite_calls (writable : w.Writable c) :
    let run := writeMessages c 0 (w.conn c).outgoing answers (w.modify c ({ · with outgoing := [] }))
    (w.eventWrite c answers).calls = run.calls ∧ (w.eventWrite c answers).returned = run.returned := by
  rw [eventWrite, if_neg (not_not_intro writable.connected)]
  split
  next empty => rw [empty]; exact ⟨rfl, rfl⟩
  next => exact ⟨rfl, rfl⟩

/-- A run delivers its queue exactly when no message is taken only in part. -/
theorem eventWrite_delivers_iff (writable : w.Writable c)
    (serialized : ∀ message ∈ (w.conn c).outgoing, ∃ built : OutgoingHttpMessage, message = built.serialize ∧
      built.data.length = built.dataLen ∧ built.text.length + 1 < 2 ^ 64) (answers : List SendResult) :
    Delivers (w.conn c).outgoing (w.eventWrite c answers).calls (w.eventWrite c answers).returned ↔
      Unbroken (w.conn c).outgoing answers := by
  have nonempty : ∀ message ∈ (w.conn c).outgoing, 0 < message.getLength := by
    intro message member
    obtain ⟨built, rfl, stored, fits⟩ := serialized message member
    rw [OutgoingHttpMessage.getLength_text stored fits]
    exact built.length_text_pos
  have taking : (w.modify c ({ · with outgoing := [] })).Writable c := by
    constructor
    · rw [modify_conn]; exact writable.connected
    · rw [descriptor, modify_conn]; exact writable.descriptor
  rw [(eventWrite_calls writable).1, (eventWrite_calls writable).2]
  generalize (w.conn c).outgoing = queue at nonempty ⊢
  generalize w.modify c ({ · with outgoing := [] }) = w at taking ⊢
  have shorts := @unbroken_iff w c queue [] queue answers taking nonempty rfl
  constructor
  · intro delivers
    rw [shorts]
    intro call member count short
    obtain ⟨i, same⟩ := List.mem_iff_getElem?.mp member
    obtain ⟨next, found, _, further⟩ := delivers.continued i call count same short
    rw [writeMessages_offset taking next (List.mem_of_getElem? found)] at further
    obtain ⟨_, _, _, positive, _⟩ := short
    omega
  · intro unbroken
    obtain ⟨start, whole⟩ := @writeMessages_taken w c queue [] queue answers taking nonempty rfl unbroken
    refine ⟨whole, start, fun i call count same short => ?_⟩
    exact absurd short (shorts.mp unbroken call (List.mem_of_getElem? same) count)

/-- A connection with two responses in its queue. -/
def responding : World :=
  ((vacant.initialise 3).world.sendMessage 3 (.ok [] true)).sendMessage 3 (.notFound true)

theorem eventWrite_delivers_two :
    Delivers (responding.conn 3).outgoing (responding.eventWrite 3 [.failed .eagain, .accepted 68, .accepted 83]).calls
        (responding.eventWrite 3 [.failed .eagain, .accepted 68, .accepted 83]).returned ↔
      Unbroken (responding.conn 3).outgoing [.failed .eagain, .accepted 68, .accepted 83] := by
  refine eventWrite_delivers_iff ⟨by decide +kernel, by decide +kernel⟩ ?_ _
  have queue : (responding.conn 3).outgoing =
      [(OutgoingHttpMessage.ok [] true).serialize, (OutgoingHttpMessage.notFound true).serialize] := by decide +kernel
  rw [queue]
  simp only [List.forall_mem_cons, List.not_mem_nil, false_imp_iff, implies_true, and_true]
  exact ⟨⟨.ok [] true, rfl, by decide +kernel, by decide +kernel⟩, .notFound true, rfl, by decide +kernel, by decide +kernel⟩

/-- After a short write the next message is sent. -/
theorem eventWrite_drops_rest :
    ¬ Delivers (responding.conn 3).outgoing (responding.eventWrite 3 [.accepted 10, .accepted 83]).calls
        (responding.eventWrite 3 [.accepted 10, .accepted 83]).returned := by
  intro delivers
  have calls : (responding.eventWrite 3 [.accepted 10, .accepted 83]).calls =
      [⟨0, 0, some (.accepted 10)⟩, ⟨1, 0, some (.accepted 83)⟩] := by decide +kernel
  have short : SendCall.Short (responding.conn 3).outgoing ⟨0, 0, some (.accepted 10)⟩ 10 :=
    ⟨(OutgoingHttpMessage.ok [] true).serialize, by decide +kernel, rfl, by decide, by decide +kernel⟩
  obtain ⟨next, found, position, _⟩ := delivers.continued 0 _ 10 (by rw [calls]; rfl) short
  rw [calls] at found
  cases found
  cases position

end World
end LibWebserver
