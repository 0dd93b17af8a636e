import LibWebserver.Proofs.Polling

/-! What a listener holds, seen from outside: its socket, and the poll behind its pointer
with what that waits for. A call with a socket and no poll is undefined. -/

namespace LibWebserver
open Polling

theorem rel_some {α β : Type} {relates : α → β → Prop} {here : Option α} {there : β}
    (related : Option.Rel relates here (some there)) : ∃ value, here = some value ∧ relates value there := by
  cases related with
  | some both => exact ⟨_, rfl, both⟩

theorem some_rel {α β : Type} {relates : α → β → Prop} {here : α} {there : Option β}
    (related : Option.Rel relates (some here) there) : ∃ value, there = some value ∧ relates here value := by
  cases related with
  | some both => exact ⟨_, rfl, both⟩

theorem rel_none {α β : Type} {relates : α → β → Prop} {here : Option α} (related : Option.Rel relates here (none : Option β)) :
    here = none := by
  cases related
  rfl

theorem Rel.map {α β γ δ : Type} {relates : α → β → Prop} {later : γ → δ → Prop} {here : Option α} {there : Option β}
    {f : α → γ} {g : β → δ} (related : Option.Rel relates here there)
    (each : ∀ value other, relates value other → later (f value) (g other)) :
    Option.Rel later (here.map f) (there.map g) := by
  cases related with
  | none => exact .none
  | some both => exact .some (each _ _ both)

theorem Rel.bind {α β γ δ : Type} {relates : α → β → Prop} {later : γ → δ → Prop} {here : Option α} {there : Option β}
    {f : α → Option γ} {g : β → Option δ} (related : Option.Rel relates here there)
    (each : ∀ value other, relates value other → Option.Rel later (f value) (g other)) :
    Option.Rel later (here.bind f) (there.bind g) := by
  cases related with
  | none => exact .none
  | some both => exact each _ _ both

structure Holding where
  fd : Int := -1
  poll : Option (Nat × (Int → Branch → Bool)) := none
  opened : List Int := []
  closed : List Int := []

namespace Holding

variable (self : Holding)

/-- A socket was opened, and `Open` left before it had a poll. -/
def Stranded : Prop := 0 ≤ self.fd ∧ self.poll = none

/-- What `Close` comes to, and whether it throws. -/
def close (answers : Removal) : Option (Holding × Bool) :=
  if self.fd < 0 then some (self, false)
  else self.poll.map fun (poll, interests) =>
    let left := mark interests self.fd .read false
    if interests self.fd .read ∧ answers.read.isSome then ({ self with poll := some (poll, left) }, true)
    else if interests self.fd .error ∧ answers.error.isSome then
      ({ self with poll := some (poll, mark left self.fd .error false) }, true)
    else ({ self with fd := -1, poll := none, closed := self.closed ++ [self.fd, (poll : Int)] }, false)

/-- A poll that was just made waits for reads, and an epoll for errors too once it got that far. -/
def watched (answers : Opening) (fd : Nat) : Int → Branch → Bool :=
  let read := mark (fun _ => noInterests) fd .read true
  if answers.kqueue = none ∧ answers.insertRead = none then mark read fd .error true else read

def openSocket (answers : Opening) : Holding :=
  match answers.socket with
  | none => { self with fd := -1 }
  | some fd =>
    let self := { self with fd := (fd : Int), opened := self.opened ++ [(fd : Int)] }
    if ¬ (answers.getFlags ∧ answers.setFlags ∧ answers.reuseAddress) then self
    else match answers.kqueue.or answers.epoll with
      | none => { self with poll := none }
      | some poll =>
        let self := { self with opened := self.opened ++ [(poll : Int)] }
        if answers.bind ∧ answers.listen then { self with poll := some (poll, watched answers fd) }
        else { self with fd := -1, poll := none, closed := self.closed ++ [(fd : Int), (poll : Int)] }

def run (rounds : List (Option Exception)) (answers : Removal) : Option Holding :=
  if rounds ≠ [] ∧ self.poll = none then none
  else if rounds.any (·.isSome) then some self
  else (self.close answers).map (·.1)

def step (self : Holding) : ListenerCall → Option Holding
  | .openSocket answers => some (self.openSocket answers)
  | .close answers => (self.close answers).map (·.1)
  | .run rounds answers => self.run rounds answers

def steps (calls : List ListenerCall) : Option Holding := calls.foldlM step {}

end Holding

namespace Listening

/-- What the listener holds when its pointer is followed. -/
structure Stands (listening : Listening) (holding : Holding) : Prop where
  fd : listening.fd = holding.fd
  opened : listening.opened = holding.opened
  closed : listening.closed = holding.closed
  poll : Option.Rel (fun object held => object.fd = held.1 ∧ object.polling.Waits held.2) listening.live holding.poll

variable {self : Listening} {holding : Holding} {object later : PollObject}

theorem live_cases (live : self.live = some object) :
    ∃ i, self.poll = some i ∧ self.polls[i]? = some object ∧ object.deleted = false := by
  obtain ⟨found, alive⟩ := Option.filter_eq_some_iff.mp live
  obtain ⟨i, pointer, here⟩ := Option.bind_eq_some_iff.mp found
  exact ⟨i, pointer, here, by simpa using alive⟩

theorem live_store (live : self.live = some object) (later : PollObject) :
    (self.store later).live = if later.deleted then none else some later := by
  obtain ⟨i, pointer, here, alive⟩ := live_cases live
  obtain ⟨inside, -⟩ := List.getElem?_eq_some_iff.mp here
  unfold Listening.live store
  rw [pointer]
  dsimp only
  rw [Option.bind_some, List.getElem?_set_self inside, Option.filter_some]
  cases later.deleted <;> rfl

theorem Stands.held (stands : Stands self holding) {fd : Nat} {interests : Int → Branch → Bool}
    (poll : holding.poll = some (fd, interests)) :
    ∃ object, self.live = some object ∧ object.fd = fd ∧ object.polling.Waits interests := by
  have related := stands.poll
  rw [poll] at related
  exact rel_some related

theorem Stands.lost (stands : Stands self holding) (poll : holding.poll = none) : self.live = none := by
  have related := stands.poll
  rw [poll] at related
  exact rel_none related

theorem call_live (live : self.live = some object) (f : Polling → Polling × Option Exception) :
    ∃ after : Listening, after.live = some { object with polling := (f object.polling).1 } ∧ after.fd = self.fd ∧
      after.opened = self.opened ∧ after.closed = self.closed ∧
      ((f object.polling).2 = none ∧ self.call f = after.returns () ∨
        ∃ error, (f object.polling).2 = some error ∧ self.call f = after.throws error) := by
  obtain ⟨-, -, -, alive⟩ := live_cases live
  refine ⟨self.store { object with polling := (f object.polling).1 }, ?_, rfl, rfl, rfl, ?_⟩
  · rw [live_store live, alive]
    rfl
  · unfold Listening.call
    rw [live, Option.bind_some]
    dsimp only
    cases threw : (f object.polling).2 with
    | none => exact .inl ⟨rfl, rfl⟩
    | some error => exact .inr ⟨error, rfl, rfl⟩

theorem Stands.call (stands : Stands self holding) {fd : Nat} {interests later : Int → Branch → Bool}
    (poll : holding.poll = some (fd, interests)) {f : Polling → Polling × Option Exception} {thrown : Prop}
    (does : ∀ polling, polling.Waits interests → (f polling).1.Waits later ∧ ((f polling).2.isSome ↔ thrown)) :
    ∃ after, Stands after { holding with poll := some (fd, later) } ∧
      (¬ thrown ∧ self.call f = after.returns () ∨ thrown ∧ ∃ error, self.call f = after.throws error) := by
  obtain ⟨object, live, same, waits⟩ := stands.held poll
  obtain ⟨waits, left⟩ := does object.polling waits
  obtain ⟨after, held, fd, opened, closed, calls⟩ := call_live live f
  refine ⟨after, ⟨fd.trans stands.fd, opened.trans stands.opened, closed.trans stands.closed, ?_⟩, ?_⟩
  · rw [held]
    exact .some ⟨same, waits⟩
  · rw [← left]
    rcases calls with ⟨quiet, calls⟩ | ⟨error, threw, calls⟩
    · exact .inl ⟨by rw [quiet]; exact Bool.false_ne_true, calls⟩
    · exact .inr ⟨by rw [threw]; rfl, error, calls⟩

theorem call_lost (live : self.live = none) (f : Polling → Polling × Option Exception) : self.call f = none := by
  unfold Listening.call
  rw [live]
  rfl

theorem next_returns {α β : Type} (after : Listening) (value : α) (f : Listening → Option (Left β)) :
    next (after.returns value) f = f after := rfl

theorem next_throws {α β : Type} (after : Listening) (error : Exception) (f : Listening → Option (Left β)) :
    next (after.throws error : Option (Left α)) f = after.throws error := rfl

theorem Stands.deletePoll (stands : Stands self holding) {fd : Nat} {interests : Int → Branch → Bool}
    (poll : holding.poll = some (fd, interests)) :
    ∃ after, self.deletePoll = after.returns () ∧
      Stands after { holding with poll := none, closed := holding.closed ++ [(fd : Int)] } := by
  obtain ⟨object, live, same, -⟩ := stands.held poll
  obtain ⟨i, pointer, -⟩ := live_cases live
  refine ⟨{ self.store { object with deleted := true } with closed := self.closed ++ [(object.fd : Int)] }, ?_,
    stands.fd, stands.opened, ?_, ?_⟩
  · unfold Listening.deletePoll
    rw [if_neg (by rw [pointer]; exact Bool.false_ne_true), live]
    rfl
  · rw [stands.closed, same]
  · have dead := live_store live { object with deleted := true }
    change Option.Rel _ (self.store { object with deleted := true }).live _
    rw [dead]
    exact .none

/-- How a function was left, from outside. -/
def LeavesAs {α : Type} (left : Left α) (outside : Holding × Bool) : Prop :=
  Stands left.listening outside.1 ∧ (outside.2 = true ↔ ∃ error, left.result = .error error)

theorem leavesAs_returns {α : Type} (stands : Stands self holding) (value : α) : LeavesAs ⟨self, .ok value⟩ (holding, false) :=
  ⟨stands, iff_of_false Bool.false_ne_true nofun⟩

theorem leavesAs_throws {α : Type} (stands : Stands self holding) (error : Exception) :
    LeavesAs (⟨self, .error error⟩ : Left α) (holding, true) :=
  ⟨stands, iff_of_true rfl ⟨error, rfl⟩⟩

theorem Stands.shut (stands : Stands self holding) {fd : Nat} {interests : Int → Branch → Bool}
    (poll : holding.poll = some (fd, interests)) {place : Int} (read : interests place .read = false)
    (error : interests place .error = false) :
    ∃ after, (next (self.call (·.closeEvent 0 place)) fun after =>
        ({ after with fd := -1, closed := after.closed ++ [place] }).deletePoll) = after.returns () ∧
      Stands after { holding with fd := -1, poll := none, closed := holding.closed ++ [place, (fd : Int)] } := by
  obtain ⟨idle, still, calls⟩ := stands.call poll (fun polling waits => by
    obtain ⟨waits, quiet⟩ := waits.closeEvent read error 0
    exact ⟨waits, iff_false_intro (by rw [quiet]; exact Bool.false_ne_true)⟩)
  rcases calls with ⟨-, calls⟩ | ⟨never, -⟩
  on_goal 2 => exact never.elim
  have dropped : Stands { idle with fd := -1, closed := idle.closed ++ [place] }
      { holding with fd := -1, poll := some (fd, interests), closed := holding.closed ++ [place] } :=
    ⟨rfl, still.opened, congrArg (· ++ [place]) still.closed, still.poll⟩
  obtain ⟨after, deleted, last⟩ := dropped.deletePoll rfl
  rw [calls, next_returns, deleted]
  exact ⟨after, rfl, last.fd, last.opened, last.closed.trans (List.append_assoc _ _ _), last.poll⟩

theorem Stands.close (stands : Stands self holding) (answers : Removal) :
    Option.Rel LeavesAs (self.close answers) (holding.close answers) := by
  unfold Listening.close Holding.close
  rw [stands.fd]
  by_cases shut : holding.fd < 0
  · rw [if_pos shut, if_pos shut]
    exact .some (leavesAs_returns stands ())
  rw [if_neg shut, if_neg shut]
  cases poll : holding.poll with
  | none =>
    rw [call_lost (stands.lost poll)]
    exact .none
  | some held =>
    obtain ⟨fd, interests⟩ := held
    rw [Option.map_some]
    dsimp only
    obtain ⟨unread, first, calls⟩ := stands.call poll
      fun polling waits => waits.remove (by decide) (removeRead_removes polling holding.fd answers.read)
    rcases calls with ⟨kept, calls⟩ | ⟨refused, error, calls⟩
    on_goal 2 =>
      rw [if_pos refused, calls, next_throws]
      exact .some (leavesAs_throws first error)
    rw [if_neg kept, calls, next_returns]
    have still : mark interests holding.fd .read false holding.fd .error = interests holding.fd .error :=
      mark_other (by decide) false holding.fd
    obtain ⟨unwatched, second, calls⟩ := first.call rfl
      fun polling waits => waits.remove (by decide) (removeError_removes polling holding.fd answers.error)
    rw [still] at calls
    rcases calls with ⟨kept, calls⟩ | ⟨refused, error, calls⟩
    on_goal 2 =>
      rw [if_pos refused, calls, next_throws]
      exact .some (leavesAs_throws second error)
    rw [if_neg kept, calls, next_returns]
    obtain ⟨after, left, ended⟩ := second.shut rfl
      ((mark_other (by decide) false holding.fd).trans (mark_own false)) (mark_own false)
    rw [left]
    exact .some (leavesAs_returns ended ())

/-- The `Close` of an `Open` that has registered nothing, so the kernel has nothing to refuse. -/
theorem Stands.cleanup (stands : Stands self holding) {fd : Nat} (poll : holding.poll = some (fd, fun _ => noInterests))
    (valid : 0 ≤ holding.fd) :
    ∃ after, self.close {} = after.returns () ∧
      Stands after { holding with fd := -1, poll := none, closed := holding.closed ++ [holding.fd, (fd : Int)] } := by
  have related := stands.close {}
  unfold Holding.close at related
  rw [if_neg (Int.not_lt.mpr valid), poll, Option.map_some] at related
  obtain ⟨⟨after, result⟩, done, same, threw⟩ := rel_some related
  cases result with
  | ok value => exact ⟨after, done, same⟩
  | error error => cases threw.mpr ⟨error, rfl⟩

theorem live_append (object : PollObject) (alive : object.deleted = false) (fd : Int) (state : State) (opened closed : List Int) :
    Listening.live { fd, state, poll := some self.polls.length, polls := self.polls ++ [object], opened, closed } = some object := by
  unfold Listening.live
  dsimp only
  rw [Option.bind_some, List.getElem?_concat_length, Option.filter_some, alive]
  rfl

/-- Behind the creation of the poll, once the socket listens. -/
theorem listen_stands {answers : Opening} {socket : Nat} (live : self.live = some object)
    (waits : object.polling.Waits fun _ => noInterests) (size : object.polling.size = socket + 1)
    (kind : object.polling.bit .error = 0 ↔ answers.kqueue ≠ none) :
    ∃ left, (next (self.call (·.openEvent socket)) fun after =>
        next (after.call (·.insertRead 0 socket answers.insertRead)) fun after =>
        next (after.call (·.insertError 0 socket answers.insertError)) fun after =>
        after.returns true) = some left ∧
      Stands left.listening { fd := self.fd, poll := some (object.fd, Holding.watched answers socket)
                              opened := self.opened, closed := self.closed } := by
  have inside : ∀ polling : Polling, polling.size = socket + 1 → (0 : Int) ≤ socket ∧ (socket : Int) < polling.size :=
    fun polling size => by rw [size]; omega
  obtain ⟨opened, first, fd, opens, closes, calls⟩ := call_live live (·.openEvent socket)
  rw [waits.openEvent rfl rfl] at first calls
  rcases calls with ⟨-, calls⟩ | ⟨error, never, -⟩
  on_goal 2 => cases never
  rw [calls, next_returns]
  have read := insertRead_inserts object.polling answers.insertRead (inside _ size)
    (by rw [waits.mask_zero rfl rfl, UInt32.zero_and])
  obtain ⟨reads, refused⟩ := waits.insert (by decide) (bit_read _) read
  obtain ⟨reading, second, fd', opens', closes', calls⟩ := call_live first (·.insertRead 0 socket answers.insertRead)
  rcases calls with ⟨granted, calls⟩ | ⟨error, threw, calls⟩
  on_goal 2 =>
    rw [calls, next_throws]
    refine ⟨_, rfl, fd'.trans fd, opens'.trans opens, closes'.trans closes, ?_⟩
    have refusal := refused.mp (by rw [threw]; rfl)
    have alone : ¬ (answers.kqueue = none ∧ answers.insertRead = none) := by
      intro both
      rw [both.2] at refusal
      exact Bool.false_ne_true refusal
    rw [Holding.watched, if_neg alone, second]
    exact .some ⟨rfl, reads⟩
  rw [calls, next_returns]
  rw [granted] at refused
  have accepted : answers.insertRead = none := Option.not_isSome_iff_eq_none.mp fun some => Bool.false_ne_true (refused.mpr some)
  have absent : (object.polling.insertRead 0 socket answers.insertRead).1.mask socket &&&
      (object.polling.insertRead 0 socket answers.insertRead).1.bit .error = 0 := by
    by_contra asked
    have waiting := (reads.asked socket (by decide)).mp asked
    rw [mark_other (by decide)] at waiting
    cases waiting
  have error := insertError_inserts _ answers.insertError (inside _ (read.size.trans size)) absent
  obtain ⟨watching, third, fd'', opens'', closes'', calls⟩ := call_live second (·.insertError 0 socket answers.insertError)
  have stands : Stands watching { fd := self.fd, poll := some (object.fd, Holding.watched answers socket)
                                  opened := self.opened, closed := self.closed } := by
    refine ⟨(fd''.trans fd').trans fd, (opens''.trans opens').trans opens, (closes''.trans closes').trans closes, ?_⟩
    rw [third]
    refine .some ⟨rfl, ?_⟩
    unfold Holding.watched
    by_cases kept : object.polling.bit .error = 0
    · rw [if_neg fun both => kind.mp kept both.1]
      exact (reads.insert_nothing ((congrFun read.bit .error).trans kept) error).1
    · rw [if_pos ⟨not_not.mp fun some => kept (kind.mpr some), accepted⟩]
      exact (reads.insert (by decide) (fun none => kept ((congrFun read.bit .error).symm.trans none)) error).1
  rcases calls with ⟨-, calls⟩ | ⟨error, -, calls⟩
  · rw [calls, next_returns]
    exact ⟨_, rfl, stands⟩
  · rw [calls, next_throws]
    exact ⟨_, rfl, stands⟩

theorem Stands.openSocket (stands : Stands self holding) (answers : Opening) :
    ∃ left, self.openSocket answers = some left ∧ Stands left.listening (holding.openSocket answers) := by
  unfold Listening.openSocket Holding.openSocket
  cases answers.socket with
  | none => exact ⟨_, rfl, rfl, stands.opened, stands.closed, stands.poll⟩
  | some socket =>
    have opened : Stands { self with fd := (socket : Int), opened := self.opened ++ [(socket : Int)] }
        { holding with fd := (socket : Int), opened := holding.opened ++ [(socket : Int)] } :=
      ⟨rfl, congrArg (· ++ [(socket : Int)]) stands.opened, stands.closed, stands.poll⟩
    dsimp only
    by_cases flags : answers.getFlags = true
    on_goal 2 =>
      rw [if_pos flags, if_pos fun all => flags all.1]
      exact ⟨_, rfl, opened⟩
    rw [if_neg (not_not.mpr flags)]
    by_cases options : answers.setFlags = true ∧ answers.reuseAddress = true
    on_goal 2 =>
      rw [if_pos (by tauto), if_pos (by tauto)]
      exact ⟨_, rfl, opened⟩
    rw [if_neg (by tauto), if_neg (by tauto)]
    rw [← Opening.create_fd answers (socket + 1)]
    cases created : answers.create (socket + 1) with
    | none => exact ⟨_, rfl, rfl, opened.opened, opened.closed, .none⟩
    | some object =>
      obtain ⟨waits, size, alive, kind⟩ := Opening.create_waits created
      rw [Option.map_some]
      dsimp only
      have both : self.opened ++ [(socket : Int)] ++ [(object.fd : Int)] = holding.opened ++ [(socket : Int)] ++ [(object.fd : Int)] := by
        rw [stands.opened]
      by_cases listens : answers.bind = true ∧ answers.listen = true
      · rw [if_pos listens, if_pos listens]
        obtain ⟨left, done, later⟩ := listen_stands (live_append object alive _ .listening _ _) waits size kind
        exact ⟨left, done, later.fd, later.opened.trans both, later.closed.trans stands.closed, later.poll⟩
      · rw [if_neg listens, if_neg listens]
        have made : Stands
            { self with fd := (socket : Int), poll := some self.polls.length, polls := self.polls ++ [object]
                        opened := self.opened ++ [(socket : Int)] ++ [(object.fd : Int)] }
            { holding with fd := (socket : Int), poll := some (object.fd, fun _ => noInterests)
                           opened := holding.opened ++ [(socket : Int)] ++ [(object.fd : Int)] } :=
          ⟨rfl, both, stands.closed, by rw [live_append object alive]; exact .some ⟨rfl, waits⟩⟩
        obtain ⟨after, done, same⟩ := made.cleanup rfl (Int.natCast_nonneg socket)
        rw [done, next_returns]
        exact ⟨_, rfl, same⟩

theorem loop_cons (self : Listening) (thrown : Option Exception) (rounds : List (Option Exception)) :
    self.loop (thrown :: rounds) = next (self.call fun polling => (polling, thrown)) (loop · rounds) := rfl

theorem Stands.loop (stands : Stands self holding) (rounds : List (Option Exception)) :
    Option.Rel LeavesAs (self.loop rounds)
      (if rounds ≠ [] ∧ holding.poll = none then none else some (holding, rounds.any (·.isSome))) := by
  induction rounds generalizing self with
  | nil => exact .some (leavesAs_returns stands ())
  | cons thrown rounds ih =>
    cases poll : holding.poll with
    | none =>
      rw [if_pos ⟨List.cons_ne_nil _ _, rfl⟩, loop_cons, call_lost (stands.lost poll)]
      exact .none
    | some held =>
      obtain ⟨fd, interests⟩ := held
      rw [if_neg fun lost => nomatch lost.2]
      obtain ⟨after, still, calls⟩ := @Stands.call self holding stands fd interests interests poll
        (fun polling => (polling, thrown)) thrown.isSome fun polling waits => ⟨waits, Iff.rfl⟩
      have same : { holding with poll := some (fd, interests) } = holding := by rw [← poll]
      rw [same] at still
      rw [loop_cons]
      rcases calls with ⟨quiet, calls⟩ | ⟨threw, error, calls⟩
      · rw [calls, next_returns]
        have later := ih still
        rw [poll, if_neg fun lost => nomatch lost.2] at later
        rw [List.any_cons, Bool.not_eq_true _ |>.mp quiet, Bool.false_or]
        exact later
      · rw [calls, next_throws, List.any_cons, threw, Bool.true_or]
        exact .some (leavesAs_throws still error)

theorem Stands.run (stands : Stands self holding) (rounds : List (Option Exception)) (answers : Removal) :
    Option.Rel Stands ((self.run rounds answers).map (·.listening)) (holding.run rounds answers) := by
  have looped := stands.loop rounds
  unfold Listening.run Holding.run
  by_cases lost : rounds ≠ [] ∧ holding.poll = none
  · rw [if_pos lost] at looped ⊢
    rw [rel_none looped]
    exact .none
  · rw [if_neg lost] at looped ⊢
    obtain ⟨⟨after, result⟩, done, still, left⟩ := rel_some looped
    rw [done]
    cases result with
    | error error =>
      rw [if_pos (left.mpr ⟨error, rfl⟩)]
      exact .some still
    | ok value =>
      rw [if_neg fun threw => nomatch left.mp threw]
      exact Rel.map (still.close answers) fun _ _ same => same.1

theorem Stands.step (stands : Stands self holding) (call : ListenerCall) :
    Option.Rel Stands (self.step call) (holding.step call) := by
  cases call with
  | openSocket answers =>
    obtain ⟨left, done, same⟩ := stands.openSocket answers
    rw [Listening.step, done]
    exact .some same
  | close answers => exact Rel.map (stands.close answers) fun _ _ same => same.1
  | run rounds answers => exact stands.run rounds answers

/-- Whatever is called and whatever the kernel answers, the pointer is followed to a poll
exactly as long as the listener, seen from outside, holds one where it is asked for. -/
theorem steps_stand (calls : List ListenerCall) : Option.Rel Stands (steps calls) (Holding.steps calls) := by
  have run : ∀ {self holding}, Stands self holding →
      Option.Rel Stands (calls.foldlM Listening.step self) (calls.foldlM Holding.step holding) := by
    induction calls with
    | nil => exact fun stands => .some stands
    | cons call calls ih =>
      intro self holding stands
      rw [List.foldlM_cons, List.foldlM_cons]
      exact Rel.bind (stands.step call) fun _ _ same => ih same
  exact run ⟨rfl, rfl, rfl, .none⟩

/-- An `Open` finds no socket. -/
def admits (self : Listening) : ListenerCall → Bool
  | .openSocket _ => self.fd < 0
  | .close _ | .run _ _ => true

def careful (self : Listening) : List ListenerCall → Bool
  | [] => true
  | call :: calls => self.admits call && (self.step call).all (careful · calls)

theorem careful_cons {after : Listening} {call : ListenerCall} (stepped : self.step call = some after)
    (calls : List ListenerCall) : self.careful (call :: calls) ↔ self.admits call ∧ after.careful calls := by
  rw [careful, stepped, Bool.and_eq_true]
  rfl

end Listening

/-- `Open` gets a socket, and leaves before it has a poll for it. -/
def Opening.Strands (self : Opening) : Prop :=
  self.socket.isSome ∧
    (¬ (self.getFlags ∧ self.setFlags ∧ self.reuseAddress) ∨ self.kqueue = none ∧ self.epoll = none)

instance (self : Opening) : Decidable self.Strands := inferInstanceAs (Decidable (_ ∧ _))

namespace Holding

variable {self after : Holding} {leaked : List Int}

/-- The descriptors still in use. -/
def sockets (self : Holding) : List Int := if 0 ≤ self.fd then [self.fd] else []

def pollers (self : Holding) : List Int := (self.poll.map fun poll => (poll.1 : Int)).toList

def held (self : Holding) : List Int := self.sockets ++ self.pollers

theorem sockets_nil : self.sockets = [] ↔ self.fd < 0 := by
  unfold sockets
  by_cases valid : 0 ≤ self.fd
  · rw [if_pos valid]
    exact iff_of_false (List.cons_ne_nil _ _) (Int.not_lt.mpr valid)
  · rw [if_neg valid]
    exact iff_of_true rfl (Int.not_le.mp valid)

/-- Every descriptor the kernel handed out was closed, is in use or was forgotten. -/
structure Ledger (holding : Holding) (leaked : List Int) : Prop where
  opened : holding.opened.Perm (holding.closed ++ holding.held ++ leaked)
  alone : leaked = [] → holding.fd < 0 → holding.poll = none

theorem Ledger.close (ledger : Ledger self leaked) {answers : Removal} {threw : Bool}
    (closes : self.close answers = some (after, threw)) :
    Ledger after leaked ∧ (0 ≤ after.fd → after.poll ≠ none) ∧ (threw = false → after.fd < 0) := by
  unfold Holding.close at closes
  by_cases shut : self.fd < 0
  · rw [if_pos shut] at closes
    cases closes
    exact ⟨ledger, fun valid => absurd shut (Int.not_lt.mpr valid), fun _ => shut⟩
  rw [if_neg shut] at closes
  obtain ⟨⟨fd, interests⟩, poll, closes⟩ := Option.map_eq_some_iff.mp closes
  have held : self.held = [self.fd, (fd : Int)] := by
    rw [Holding.held, sockets, if_pos (Int.not_lt.mp shut), pollers, poll]
    rfl
  have books := ledger.opened
  have kept : ∀ left : Int → Branch → Bool, Ledger { self with poll := some (fd, left) } leaked := by
    intro left
    refine ⟨?_, fun _ valid => absurd valid shut⟩
    have same : Holding.held { self with poll := some (fd, left) } = self.held := by
      rw [held, Holding.held, sockets, if_pos (Int.not_lt.mp shut)]
      rfl
    rw [same]
    exact books
  dsimp only at closes
  split_ifs at closes
  · cases closes
    exact ⟨kept _, fun _ => Option.some_ne_none _, nofun⟩
  · cases closes
    exact ⟨kept _, fun _ => Option.some_ne_none _, nofun⟩
  · cases closes
    refine ⟨⟨?_, fun _ _ => rfl⟩, fun valid => absurd valid (by decide : ¬ (0 : Int) ≤ -1), fun _ => (by decide : (-1 : Int) < 0)⟩
    rw [held] at books
    have nothing : Holding.held { self with fd := -1, poll := none, closed := self.closed ++ [self.fd, (fd : Int)] } = [] := rfl
    rw [nothing, List.append_nil]
    exact books

theorem Ledger.moves (ledger : Ledger self leaked) {more : List Int}
    (moved : ∀ fd, after.opened.count fd + (self.closed ++ self.held ++ leaked).count fd =
      self.opened.count fd + (after.closed ++ after.held ++ more).count fd) :
    after.opened.Perm (after.closed ++ after.held ++ more) := by
  apply List.perm_iff_count.mpr
  intro fd
  have before := List.perm_iff_count.mp ledger.opened fd
  have later := moved fd
  omega

/-- What `Open` puts another descriptor in the place of is forgotten. -/
theorem Ledger.openSocket (ledger : Ledger self leaked) (answers : Opening) :
    ∃ more, Ledger (self.openSocket answers) more ∧ (more = [] ↔ leaked = [] ∧ self.fd < 0) := by
  have pollers_nil : leaked = [] → self.fd < 0 → self.pollers = [] := fun none shut => by
    rw [pollers, ledger.alone none shut]
    rfl
  have partly : self.sockets ++ leaked = [] ↔ leaked = [] ∧ self.fd < 0 := by
    rw [List.append_eq_nil_iff, sockets_nil, and_comm]
  have wholly : self.held ++ leaked = [] ↔ leaked = [] ∧ self.fd < 0 := by
    rw [List.append_eq_nil_iff, held, List.append_eq_nil_iff, sockets_nil]
    exact ⟨fun all => ⟨all.2, all.1.1⟩, fun both => ⟨⟨both.2, pollers_nil both.1 both.2⟩, both.1⟩⟩
  unfold Holding.openSocket
  cases answers.socket with
  | none =>
    refine ⟨self.sockets ++ leaked, ⟨ledger.moves fun fd => ?_, fun none _ => ?_⟩, partly⟩
    · simp [held, sockets, pollers, List.count_append]
      omega
    · exact ledger.alone (partly.mp none).1 (partly.mp none).2
  | some socket =>
    dsimp only
    by_cases refused : ¬ (answers.getFlags ∧ answers.setFlags ∧ answers.reuseAddress)
    · rw [if_pos refused]
      refine ⟨self.sockets ++ leaked, ⟨ledger.moves fun fd => ?_, fun _ shut => ?_⟩, partly⟩
      · simp [held, sockets, pollers, List.count_append, List.count_cons]
        omega
      · exact absurd shut (by simp)
    · rw [if_neg refused]
      refine ⟨self.held ++ leaked, ?_, wholly⟩
      cases answers.kqueue.or answers.epoll with
      | none =>
        refine ⟨ledger.moves fun fd => ?_, fun _ _ => rfl⟩
        simp [held, sockets, pollers, List.count_append, List.count_cons]
        omega
      | some poll =>
        dsimp only
        split_ifs
        · refine ⟨ledger.moves fun fd => ?_, fun _ shut => absurd shut (by simp)⟩
          simp [held, sockets, pollers, List.count_append, List.count_cons]
          omega
        · refine ⟨ledger.moves fun fd => ?_, fun _ _ => rfl⟩
          simp [held, sockets, pollers, List.count_append, List.count_cons]
          omega

theorem Ledger.run (ledger : Ledger self leaked) {rounds : List (Option Exception)} {answers : Removal}
    (ran : self.run rounds answers = some after) : Ledger after leaked ∧ (0 ≤ after.fd → after.poll ≠ none) := by
  unfold Holding.run at ran
  by_cases lost : rounds ≠ [] ∧ self.poll = none
  · rw [if_pos lost] at ran
    cases ran
  rw [if_neg lost] at ran
  split_ifs at ran with threw
  · cases ran
    have some : rounds ≠ [] := by
      rintro rfl
      exact Bool.false_ne_true threw
    exact ⟨ledger, fun _ none => lost ⟨some, none⟩⟩
  · obtain ⟨⟨closed, threw⟩, closes, rfl⟩ := Option.map_eq_some_iff.mp ran
    exact ⟨(ledger.close closes).1, (ledger.close closes).2.1⟩

/-- A socket without a poll is what such an `Open` leaves, as long as the listener had nothing. -/
theorem openSocket_stranded (alone : self.poll = none) (answers : Opening) :
    (self.openSocket answers).Stranded ↔ answers.Strands := by
  unfold Holding.openSocket Opening.Strands Stranded
  cases answers.socket with
  | none => simp
  | some socket =>
    dsimp only
    by_cases refused : ¬ (answers.getFlags ∧ answers.setFlags ∧ answers.reuseAddress)
    · rw [if_pos refused]
      exact iff_of_true ⟨by simp, alone⟩ ⟨rfl, .inl refused⟩
    · rw [if_neg refused]
      cases kqueue : answers.kqueue <;> cases epoll : answers.epoll <;> simp [refused] <;> split_ifs <;> simp

end Holding

namespace Listening

variable {self after : Listening} {holding : Holding}

theorem Stands.steps {leaked : List Int} (stands : Stands self holding) (ledger : holding.Ledger leaked)
    {calls : List ListenerCall} (ran : calls.foldlM Listening.step self = some after) :
    ∃ outside more, Stands after outside ∧ outside.Ledger more ∧ (more = [] ↔ leaked = [] ∧ self.careful calls) := by
  induction calls generalizing self holding leaked with
  | nil =>
    cases ran
    exact ⟨holding, leaked, stands, ledger, (and_iff_left rfl).symm⟩
  | cons call calls ih =>
    rw [List.foldlM_cons] at ran
    obtain ⟨middle, stepped, rest⟩ := Option.bind_eq_some_iff.mp ran
    have related := stands.step call
    rw [stepped] at related
    obtain ⟨there, outside, same⟩ := some_rel related
    rw [careful_cons stepped]
    cases call with
    | openSocket answers =>
      cases outside
      obtain ⟨forgotten, books, none⟩ := ledger.openSocket answers
      obtain ⟨last, more, stands', ledger', all⟩ := ih same books rest
      refine ⟨last, more, stands', ledger', all.trans ?_⟩
      rw [none, ← stands.fd, and_assoc]
      simp [admits]
    | close answers =>
      obtain ⟨⟨closed, threw⟩, closes, rfl⟩ := Option.map_eq_some_iff.mp outside
      obtain ⟨last, more, stands', ledger', all⟩ := ih same (ledger.close closes).1 rest
      exact ⟨last, more, stands', ledger', all.trans (by simp [admits])⟩
    | run rounds answers =>
      obtain ⟨last, more, stands', ledger', all⟩ := ih same (ledger.run outside).1 rest
      exact ⟨last, more, stands', ledger', all.trans (by simp [admits])⟩

theorem start_stands : Stands {} {} := ⟨rfl, rfl, rfl, .none⟩

theorem start_ledger : Holding.Ledger {} [] := ⟨List.Perm.refl [], fun _ _ => rfl⟩

theorem careful_concat {calls : List ListenerCall} {call : ListenerCall} (ok : self.careful (calls ++ [call]))
    (ran : calls.foldlM Listening.step self = some after) : self.careful calls ∧ after.admits call := by
  induction calls generalizing self with
  | nil =>
    cases ran
    rw [List.nil_append, careful, Bool.and_eq_true] at ok
    exact ⟨rfl, ok.1⟩
  | cons first calls ih =>
    rw [List.foldlM_cons] at ran
    obtain ⟨middle, stepped, rest⟩ := Option.bind_eq_some_iff.mp ran
    rw [List.cons_append, careful_cons stepped] at ok
    rw [careful_cons stepped]
    exact ⟨⟨ok.1, (ih ok.2 rest).1⟩, (ih ok.2 rest).2⟩

theorem Stands.destroy_none (stands : Stands self holding) (answers : Removal) :
    self.destroy answers = none ↔ holding.Stranded := by
  have related := stands.close answers
  unfold Listening.destroy
  unfold Holding.close at related
  unfold Holding.Stranded
  by_cases shut : holding.fd < 0
  · rw [if_pos shut] at related
    obtain ⟨left, done, -⟩ := rel_some related
    rw [done]
    exact iff_of_false (Option.some_ne_none _) fun stranded => absurd stranded.1 (Int.not_le.mpr shut)
  · rw [if_neg shut] at related
    cases poll : holding.poll with
    | none =>
      rw [poll] at related
      exact iff_of_true (rel_none related) ⟨Int.not_lt.mp shut, rfl⟩
    | some held =>
      rw [poll] at related
      obtain ⟨left, done, -⟩ := rel_some related
      rw [done]
      exact iff_of_false (Option.some_ne_none _) fun stranded => nomatch stranded.2

/-- A listener that was opened only while it had no socket cannot be destroyed exactly if
the last call was an `Open` that got a socket and left before it had a poll. -/
theorem destroy_undefined_iff (calls : List ListenerCall) (answers : Removal) (ran : steps calls = some self)
    (ok : careful {} calls) :
    self.destroy answers = none ↔ ∃ opening, calls.getLast? = some (.openSocket opening) ∧ opening.Strands := by
  rcases List.eq_nil_or_concat calls with rfl | ⟨before, call, rfl⟩
  · cases ran
    rw [start_stands.destroy_none]
    exact iff_of_false (fun stranded => absurd stranded.1 (by decide)) (by simp)
  rw [List.concat_eq_append] at ran ok ⊢
  rw [steps, List.foldlM_append] at ran
  obtain ⟨middle, earlier, last⟩ := Option.bind_eq_some_iff.mp ran
  obtain ⟨cautious, now⟩ := careful_concat ok earlier
  obtain ⟨holding, leaked, stands, ledger, none⟩ := start_stands.steps start_ledger earlier
  rw [List.foldlM_cons] at last
  obtain ⟨done, stepped, same⟩ := Option.bind_eq_some_iff.mp last
  cases same
  have related := stands.step call
  rw [stepped] at related
  obtain ⟨there, outside, stands'⟩ := some_rel related
  rw [List.getLast?_concat, stands'.destroy_none]
  cases call with
  | openSocket opening =>
    cases outside
    have shut : holding.fd < 0 := by
      rw [← stands.fd]
      exact of_decide_eq_true now
    have alone := ledger.alone (none.mpr ⟨rfl, cautious⟩) shut
    rw [Holding.openSocket_stranded alone]
    simp
  | close removal =>
    obtain ⟨⟨closed, threw⟩, closes, rfl⟩ := Option.map_eq_some_iff.mp outside
    exact iff_of_false (fun stranded => (ledger.close closes).2.1 stranded.1 stranded.2) (by simp)
  | run rounds removal =>
    exact iff_of_false (fun stranded => (ledger.run outside).2 stranded.1 stranded.2) (by simp)

/-- Everything is granted, by an epoll. -/
def granted : Opening where
  socket := some 3
  getFlags := true
  setFlags := true
  reuseAddress := true
  kqueue := none
  epoll := some 4
  bind := true
  listen := true
  insertRead := none
  insertError := none

/-- The second `Open` fails to set an option. -/
def reopened : List ListenerCall := [.openSocket granted, .close {}, .openSocket { granted with reuseAddress := false }]

theorem destroy_undefined_reopened :
    ∃ self, steps reopened = some self ∧
      (self.destroy {} = none ↔ ∃ opening : Opening, reopened.getLast? = some (.openSocket opening) ∧ opening.Strands) := by
  obtain ⟨self, ran⟩ : ∃ self, steps reopened = some self := Option.isSome_iff_exists.mp (by decide)
  exact ⟨self, ran, destroy_undefined_iff reopened {} ran (by decide)⟩

/-- A listener that was destroyed has closed no descriptor more often than the kernel
handed it out, and each of them exactly if it was opened only while it had no socket. -/
theorem released (calls : List ListenerCall) (answers : Removal) (ran : steps calls = some self)
    (ended : self.destroy answers = after.returns ()) :
    after.closed.Subperm after.opened ∧ (after.opened.Perm after.closed ↔ careful {} calls) := by
  obtain ⟨holding, leaked, stands, ledger, none⟩ := start_stands.steps start_ledger ran
  have related := stands.close answers
  rw [show self.close answers = after.returns () from ended] at related
  obtain ⟨⟨outside, threw⟩, closes, same, left⟩ := some_rel related
  obtain ⟨books, -, shut⟩ := ledger.close closes
  have returned : threw = false := by
    by_contra other
    obtain ⟨error, never⟩ := left.mp (by simpa using other)
    cases never
  have empty := shut returned
  rw [same.opened, same.closed]
  have whole := books.opened
  rw [List.append_assoc] at whole
  refine ⟨(List.sublist_append_left _ _).subperm.trans whole.symm.subperm, ?_⟩
  have forgotten : outside.opened.Perm outside.closed ↔ leaked = [] := by
    constructor
    · intro all
      have sizes := (all.symm.trans whole).length_eq
      rw [List.length_append, List.length_append] at sizes
      exact List.length_eq_zero_iff.mp (by omega)
    · intro all
      have nothing : outside.held = [] := by
        rw [Holding.held, Holding.sockets_nil.mpr empty, Holding.pollers, books.alone all empty]
        rfl
      rwa [all, nothing, List.append_nil, List.append_nil] at whole
  rw [forgotten, none]
  exact and_iff_right rfl

/-- A listener that serves a round. -/
def served : List ListenerCall := [.openSocket granted, .run [none] {}]

theorem released_served :
    ∃ self after : Listening, steps served = some self ∧ self.destroy {} = after.returns () ∧
      after.closed.Subperm after.opened ∧ (after.opened.Perm after.closed ↔ careful {} served) := by
  obtain ⟨self, ran⟩ : ∃ self, steps served = some self := Option.isSome_iff_exists.mp (by decide)
  obtain ⟨after, ended⟩ : ∃ after : Listening, self.destroy {} = after.returns () := by
    cases ran
    exact ⟨_, rfl⟩
  exact ⟨self, after, ran, ended, released served {} ran ended⟩

end Listening
end LibWebserver
