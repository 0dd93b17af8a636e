import LibWebserver.Programs
import LibWebserver.Proofs.Registrations
import LibWebserver.Proofs.Dispatch

/-! The two polls are one to a program: on a batch without errors kqueue calls the handlers
epoll calls, in the same order, and leaves the same events in the same states. -/

namespace LibWebserver

variable {size : Nat} {program : Program}

theorem calls_concat (trace : List Touch) (touch : Touch) : calls (trace ++ [touch]) = calls trace ++ touch.called.toList := by
  rw [calls, List.filterMap_append]
  cases told : touch.called <;> simp [told, calls]

theorem board_getD (bit : Branch → UInt32) (size : Nat) (interests : Int → Branch → Bool) (fd : Int) :
    (if 0 ≤ fd then (board bit size interests).getD fd.toNat 0 else 0) =
      if 0 ≤ fd ∧ fd < size then encode bit (interests fd) else 0 := by
  by_cases low : 0 ≤ fd
  · obtain ⟨n, rfl⟩ := Int.eq_ofNat_of_zero_le low
    rw [if_pos low, Int.toNat_natCast, board, List.getD_eq_getElem?_getD, List.getElem?_map]
    by_cases inside : n < size
    · rw [List.getElem?_range inside, if_pos ⟨low, by exact_mod_cast inside⟩]
      rfl
    · rw [List.getElem?_eq_none (by simpa using inside), if_neg fun both => inside (by exact_mod_cast both.2)]
      rfl
  · rw [if_neg low, if_neg fun both => low both.1]

/-- The masks of the two polls are alike where it matters. -/
theorem encode_zero {interests : Branch → Bool} (audible : Audible interests) :
    encode (Tabled.bit Poll) interests = 0 ↔ encode (Tabled.bit PollKQueue) interests = 0 := by
  unfold Audible at audible
  unfold encode
  revert audible
  cases interests .error <;> cases interests .read <;> cases interests .write <;> decide

theorem encode_listens (interests : Branch → Bool) {branch : Branch} (own : branch ≠ .error) :
    encode (Tabled.bit Poll) interests &&& Multiplexer.bit Poll branch = 0 ↔
      encode (Tabled.bit PollKQueue) interests &&& Multiplexer.bit PollKQueue branch = 0 := by
  unfold encode
  revert own
  cases interests .error <;> cases interests .read <;> cases interests .write <;> cases branch <;> decide

/-- The same moment under either poll. -/
structure Twin (size : Nat) (epoll : Dispatch Poll) (kqueue : Dispatch PollKQueue) : Prop where
  state : kqueue.state = epoll.state
  descriptor : kqueue.descriptor = epoll.descriptor
  returned : kqueue.returned = epoll.returned
  called : calls kqueue.trace = calls epoll.trace
  table : ∃ interests, (∀ fd, Audible (interests fd)) ∧ epoll.poll.table = board (Tabled.bit Poll) size interests ∧
    kqueue.poll.table = board (Tabled.bit PollKQueue) size interests
  events : kqueue.poll.events = epoll.poll.events.flatMap split

namespace Twin

variable {epoll : Dispatch Poll} {kqueue : Dispatch PollKQueue}

theorem silent (twin : Twin size epoll kqueue) (fd : Int) :
    Multiplexer.eventMask epoll.poll fd = 0 ↔ Multiplexer.eventMask kqueue.poll fd = 0 := by
  obtain ⟨interests, audible, left, right⟩ := twin.table
  change (if 0 ≤ fd then epoll.poll.table.getD fd.toNat 0 else 0) = 0 ↔
    (if 0 ≤ fd then kqueue.poll.table.getD fd.toNat 0 else 0) = 0
  rw [left, right, board_getD, board_getD]
  split
  · exact encode_zero (audible fd)
  · exact Iff.rfl

theorem listens (twin : Twin size epoll kqueue) {branch : Branch} (own : branch ≠ .error) (fd : Int) :
    Multiplexer.eventMask epoll.poll fd &&& Multiplexer.bit Poll branch = 0 ↔
      Multiplexer.eventMask kqueue.poll fd &&& Multiplexer.bit PollKQueue branch = 0 := by
  obtain ⟨interests, -, left, right⟩ := twin.table
  change (if 0 ≤ fd then epoll.poll.table.getD fd.toNat 0 else 0) &&& _ = 0 ↔
    (if 0 ≤ fd then kqueue.poll.table.getD fd.toNat 0 else 0) &&& _ = 0
  rw [left, right, board_getD, board_getD]
  split
  · exact encode_listens (interests fd) own
  · simp

theorem closeEvent (twin : Twin size epoll kqueue) (event : Nat) :
    (∃ left right, Multiplexer.closeEvent epoll.poll event (epoll.descriptor event) = .error left ∧
      Multiplexer.closeEvent kqueue.poll event (kqueue.descriptor event) = .error right) ∨
    ∃ left right, Multiplexer.closeEvent epoll.poll event (epoll.descriptor event) = .ok left ∧
      Multiplexer.closeEvent kqueue.poll event (kqueue.descriptor event) = .ok right ∧
      Twin size { epoll with poll := left } { kqueue with poll := right } := by
  have silent : Multiplexer.eventMask epoll.poll (epoll.descriptor event) = 0 ↔
      Multiplexer.eventMask kqueue.poll (kqueue.descriptor event) = 0 := by
    rw [twin.descriptor]
    exact twin.silent _
  change (∃ left right, Poll.closeEvent _ _ _ = _ ∧ PollKQueue.closeEvent _ _ _ = _) ∨
    ∃ left right, Poll.closeEvent _ _ _ = _ ∧ PollKQueue.closeEvent _ _ _ = _ ∧ _
  unfold Poll.closeEvent PollKQueue.closeEvent
  change epoll.poll.eventMask _ = 0 ↔ kqueue.poll.eventMask _ = 0 at silent
  by_cases active : epoll.poll.eventMask (epoll.descriptor event) = 0
  · right
    rw [if_neg (not_not.mpr active), if_neg (not_not.mpr (silent.mp active))]
    refine ⟨_, _, rfl, rfl, ⟨twin.state, twin.descriptor, twin.returned, twin.called, twin.table, ?_⟩⟩
    change kqueue.poll.events.map _ = (epoll.poll.events.map _).flatMap split
    rw [twin.events, List.map_flatMap, List.flatMap_map]
    refine List.flatMap_congr fun ready _ => ?_
    by_cases own : ready.ptr = some event
    · simp [split, own]
    · simp [split, own]
  · left
    rw [if_pos active, if_pos fun quiet => active (silent.mpr quiet)]
    exact ⟨_, _, rfl, rfl⟩

theorem perform (twin : Twin size epoll kqueue) {deeds : List Deed}
    (audible : ∀ state descriptor interests, .change state descriptor interests ∈ deeds → ∀ fd, Audible (interests fd)) :
    Twin size (epoll.perform (deeds.map (Deed.effect (Tabled.bit Poll) size))).1
        (kqueue.perform (deeds.map (Deed.effect (Tabled.bit PollKQueue) size))).1 ∧
      (kqueue.perform (deeds.map (Deed.effect (Tabled.bit PollKQueue) size))).2 =
        (epoll.perform (deeds.map (Deed.effect (Tabled.bit Poll) size))).2 := by
  induction deeds generalizing epoll kqueue with
  | nil => exact ⟨twin, rfl⟩
  | cons deed deeds ih =>
    have rest : ∀ state descriptor interests, .change state descriptor interests ∈ deeds → ∀ fd, Audible (interests fd) :=
      fun state descriptor interests member => audible state descriptor interests (List.mem_cons_of_mem _ member)
    cases deed with
    | throw => exact ⟨⟨twin.state, twin.descriptor, rfl, twin.called, twin.table, twin.events⟩, rfl⟩
    | change state descriptor interests =>
      refine ih ⟨rfl, rfl, twin.returned, twin.called, ⟨interests, ?_, rfl, rfl⟩, twin.events⟩ rest
      exact audible state descriptor interests List.mem_cons_self
    | close event =>
      rw [List.map_cons, List.map_cons]
      change Twin size (epoll.perform (.close event :: _)).1 (kqueue.perform (.close event :: _)).1 ∧
        (kqueue.perform (.close event :: _)).2 = (epoll.perform (.close event :: _)).2
      rcases twin.closeEvent event with ⟨left, right, one, other⟩ | ⟨left, right, one, other, after⟩
      · unfold Dispatch.perform
        rw [one, other]
        exact ⟨⟨twin.state, twin.descriptor, rfl, twin.called, twin.table, twin.events⟩, rfl⟩
      · obtain ⟨later, closed⟩ := ih after rest
        unfold Dispatch.perform
        rw [one, other]
        exact ⟨later, congrArg (event :: ·) closed⟩

theorem branch (twin : Twin size epoll kqueue) (portable : program.Portable) (ptr : Option Nat) {left right : List Branch}
    {branch : Branch} (own : branch ≠ .error) (first : branch ∈ left) (second : branch ∈ right) :
    Twin size (epoll.branch (program.handlers (Tabled.bit Poll) size) ptr left branch)
      (kqueue.branch (program.handlers (Tabled.bit PollKQueue) size) ptr right branch) := by
  unfold Dispatch.branch
  by_cases returned : epoll.returned = true
  · rw [if_neg (by simp [returned, first]), if_neg (by simp [twin.returned, returned, second])]
    cases ptr with
    | none => exact twin
    | some event =>
      have looked : calls (kqueue.trace ++ [.look event]) = calls (epoll.trace ++ [.look event]) := by
        rw [calls_concat, calls_concat, twin.called]
      have watches : Twin size { epoll with trace := epoll.trace ++ [.look event] }
          { kqueue with trace := kqueue.trace ++ [.look event] } :=
        ⟨twin.state, twin.descriptor, twin.returned, looked, twin.table, twin.events⟩
      have inactive : kqueue.isInactive event = epoll.isInactive event := by
        unfold Dispatch.isInactive
        rw [twin.state]
      have wanted : Multiplexer.eventMask epoll.poll (epoll.descriptor event) &&& Multiplexer.bit Poll branch = 0 ↔
          Multiplexer.eventMask kqueue.poll (kqueue.descriptor event) &&& Multiplexer.bit PollKQueue branch = 0 := by
        rw [twin.descriptor]
        exact twin.listens own _
      dsimp only
      by_cases idle : epoll.isInactive event = true
      · rw [if_pos idle, if_pos (inactive.trans idle)]
        exact watches
      · rw [if_neg idle, if_neg fun quiet => idle (inactive.symm.trans quiet)]
        by_cases unwanted : Multiplexer.eventMask epoll.poll (epoll.descriptor event) &&& Multiplexer.bit Poll branch = 0
        · rw [if_pos unwanted, if_pos (wanted.mp unwanted)]
          exact watches
        · rw [if_neg unwanted, if_neg fun quiet => unwanted (wanted.mpr quiet)]
          have same : program (calls (kqueue.trace ++ [.look event])) branch event =
              program (calls (epoll.trace ++ [.look event])) branch event := by rw [looked]
          obtain ⟨after, closed⟩ := watches.perform (portable.audible (calls (epoll.trace ++ [.look event])) branch event)
          unfold Dispatch.call Program.handlers
          dsimp only
          rw [same]
          refine ⟨after.state, after.descriptor, after.returned, ?_, after.table, after.events⟩
          refine (calls_concat _ _).trans ((congrArg₂ (· ++ ·) looked ?_).trans (calls_concat _ _).symm)
          rw [closed, after.returned]
          rfl
  · rw [if_pos (.inl returned), if_pos (.inl fun back => returned (twin.returned.symm.trans back))]
    exact twin

end Twin

theorem perform_settles (self : Dispatch Poll) (deeds : List Deed)
    (returned : (self.perform (deeds.map (Deed.effect (Tabled.bit Poll) size))).1.returned) :
    (∀ event ∈ (self.perform (deeds.map (Deed.effect (Tabled.bit Poll) size))).2, .close event ∈ deeds) ∧
      (self.perform (deeds.map (Deed.effect (Tabled.bit Poll) size))).1.state = settle self.state deeds := by
  induction deeds generalizing self with
  | nil => exact ⟨nofun, rfl⟩
  | cons deed deeds ih =>
    cases deed with
    | throw => cases returned
    | change state descriptor interests =>
      obtain ⟨closed, settled⟩ := ih _ returned
      exact ⟨fun event member => List.mem_cons_of_mem _ (closed event member), settled⟩
    | close event =>
      rw [List.map_cons] at returned ⊢
      change (self.perform (.close event :: _)).1.returned at returned
      change (∀ other ∈ (self.perform (.close event :: _)).2, _) ∧ (self.perform (.close event :: _)).1.state = _
      unfold Dispatch.perform at returned ⊢
      cases done : Multiplexer.closeEvent self.poll event (self.descriptor event) with
      | error why =>
        rw [done] at returned
        cases returned
      | ok poll =>
        rw [done] at returned
        obtain ⟨closed, settled⟩ := ih _ returned
        refine ⟨fun other member => ?_, settled⟩
        cases List.mem_cons.mp member with
        | inl same => exact same ▸ List.mem_cons_self
        | inr later => exact List.mem_cons_of_mem _ (closed other later)

theorem perform_shape (self : Dispatch Poll) (effects : List Effect) :
    (self.perform effects).1.poll.events.map (·.events) = self.poll.events.map (·.events) := by
  induction effects generalizing self with
  | nil => rfl
  | cons effect effects ih =>
    cases effect with
    | throw => rfl
    | change state descriptor table => exact ih _
    | close event =>
      unfold Dispatch.perform
      cases done : Multiplexer.closeEvent self.poll event (self.descriptor event) with
      | error why => rfl
      | ok poll =>
        refine (ih _).trans ?_
        change Poll.closeEvent self.poll event _ = _ at done
        unfold Poll.closeEvent at done
        split at done
        · cases done
        · obtain rfl := Except.ok.inj done
          rw [List.map_map]
          refine List.map_congr_left fun ready _ => ?_
          by_cases own : ready.ptr = some event <;> simp [own]

theorem branch_shape (handlers : Dispatch.Handlers) (ptr : Option Nat) (reported : List Branch) (self : Dispatch Poll)
    (branch : Branch) : (self.branch handlers ptr reported branch).poll.events.map (·.events) = self.poll.events.map (·.events) := by
  unfold Dispatch.branch
  split
  · rfl
  · cases ptr with
    | none => rfl
    | some event =>
      dsimp only
      split
      · rfl
      · split
        · rfl
        · exact perform_shape _ _

/-- An event that a handler closes in its own entry is inactive then. -/
theorem branch_leaves (portable : program.Portable) (self : Dispatch Poll) (ptr : Option Nat) (reported : List Branch)
    (branch : Branch) {i : Nat} (loaded : Multiplexer.event self.poll i = ptr)
    (returned : (self.branch (program.handlers (Tabled.bit Poll) size) ptr reported branch).returned) :
    Multiplexer.event (self.branch (program.handlers (Tabled.bit Poll) size) ptr reported branch).poll i = ptr ∨
      ∃ event, ptr = some event ∧
        Multiplexer.event (self.branch (program.handlers (Tabled.bit Poll) size) ptr reported branch).poll i = none ∧
        (self.branch (program.handlers (Tabled.bit Poll) size) ptr reported branch).isInactive event := by
  unfold Dispatch.branch at returned ⊢
  by_cases passed : ¬ self.returned ∨ branch ∉ reported
  · rw [if_pos passed]
    exact .inl loaded
  · rw [if_neg passed] at returned ⊢
    cases ptr with
    | none => exact .inl loaded
    | some event =>
      dsimp only at returned ⊢
      split_ifs at returned ⊢ with idle unwanted
      · exact .inl loaded
      · exact .inl loaded
      · have kept := Dispatch.perform_event _ _ returned i
        obtain ⟨closed, settled⟩ := perform_settles _ _ returned
        change Multiplexer.event self.poll i = some event at loaded
        refine (em (event ∈ ((({ self with trace := self.trace ++ [.look event] } : Dispatch Poll).perform
          (program.handlers (Tabled.bit Poll) size (self.trace ++ [.look event]) branch event))).2)).symm.imp (fun spared => ?_) fun shut => ?_
        · refine kept.trans ?_
          change (Multiplexer.event self.poll i).filter _ = _
          rw [loaded, Option.filter_some, if_pos (by simpa using spared)]
        · refine ⟨event, rfl, kept.trans ?_, ?_⟩
          · change (Multiplexer.event self.poll i).filter _ = _
            rw [loaded, Option.filter_some, if_neg (by simpa using shut)]
          · have left := portable.leaves (calls (self.trace ++ [.look event])) branch event self.state (closed event shut)
            unfold Dispatch.isInactive Dispatch.call
            rw [decide_eq_true_iff]
            exact settled ▸ left

/-- Where the pieces of an entry begin. -/
def offset (shape : List UInt32) (i : Nat) : Nat := ((shape.take i).flatMap pieces).length

theorem piece_at {epoll : Dispatch Poll} {kqueue : Dispatch PollKQueue} (twin : Twin size epoll kqueue) {i : Nat}
    {ready : ReadyEvent} (there : epoll.poll.events[i]? = some ready) {done rest : List Branch} {branch : Branch}
    (whole : pieces ready.events = done ++ branch :: rest) :
    kqueue.poll.events[offset (epoll.poll.events.map (·.events)) i + done.length]? =
      some { udata := ready.ptr, filter := if branch = .read then .read else .write, error := none } := by
  obtain ⟨inside, is⟩ := List.getElem?_eq_some_iff.mp there
  have cut : epoll.poll.events = epoll.poll.events.take i ++ ready :: epoll.poll.events.drop (i + 1) := by
    rw [← is, List.getElem_cons_drop, List.take_append_drop]
  have start : offset (epoll.poll.events.map (·.events)) i = ((epoll.poll.events.take i).flatMap split).length := by
    rw [offset, ← List.map_take, List.length_flatMap, List.length_flatMap, List.map_map]
    refine congrArg List.sum (List.map_congr_left fun one _ => ?_)
    exact (List.length_map _).symm
  have parts : epoll.poll.events.flatMap split = (epoll.poll.events.take i).flatMap split ++
      (split ready ++ (epoll.poll.events.drop (i + 1)).flatMap split) :=
    (congrArg (List.flatMap split) cut).trans (by rw [List.flatMap_append, List.flatMap_cons])
  rw [twin.events, start, parts, List.getElem?_append_right (Nat.le_add_right _ _), Nat.add_sub_cancel_left, split, whole]
  simp

theorem entry_piece (handlers : Dispatch.Handlers) {kqueue : Dispatch PollKQueue} (back : kqueue.returned) {j : Nat}
    {ptr : Option Nat} {branch : Branch} (own : branch ≠ .error)
    (here : kqueue.poll.events[j]? =
      some { udata := ptr, filter := if branch = .read then .read else .write, error := none }) :
    PollKQueue.entry handlers kqueue j = kqueue.branch handlers ptr [branch] branch := by
  unfold PollKQueue.entry
  rw [if_neg (not_not.mpr back), here]
  cases branch with
  | error => exact absurd rfl own
  | read => simp [PollKQueue.reported, Dispatch.branch]
  | write => simp [PollKQueue.reported, Dispatch.branch]

theorem pieces_twin (portable : program.Portable) {i : Nat} {ptr : Option Nat} {events : UInt32} {done rest : List Branch}
    (whole : pieces events = done ++ rest) {epoll : Dispatch Poll} {kqueue : Dispatch PollKQueue} (twin : Twin size epoll kqueue)
    (there : (epoll.poll.events.map (·.events))[i]? = some events)
    (loaded : epoll.returned → Multiplexer.event epoll.poll i = ptr ∨
      ∃ event, ptr = some event ∧ Multiplexer.event epoll.poll i = none ∧ epoll.isInactive event) :
    Twin size (rest.foldl (Dispatch.branch (program.handlers (Tabled.bit Poll) size) ptr (Poll.reported events)) epoll)
      ((List.range' (offset (epoll.poll.events.map (·.events)) i + done.length) rest.length).foldl
        (PollKQueue.entry (program.handlers (Tabled.bit PollKQueue) size)) kqueue) := by
  induction rest generalizing done epoll kqueue with
  | nil => exact twin
  | cons branch rest ih =>
    have member : branch ∈ pieces events := whole ▸ List.mem_append_right done List.mem_cons_self
    obtain ⟨reported, own⟩ : branch ∈ Poll.reported events ∧ branch ≠ .error := by simpa [pieces] using member
    rw [List.length_cons, List.range'_succ, List.foldl_cons, List.foldl_cons]
    obtain ⟨ready, entry, same⟩ : ∃ ready, epoll.poll.events[i]? = some ready ∧ ready.events = events := by
      rw [List.getElem?_map] at there
      exact Option.map_eq_some_iff.mp there
    have now := piece_at twin entry (same.symm ▸ whole)
    have held : Multiplexer.event epoll.poll i = ready.ptr := congrArg (Option.bind · _) entry
    have shape := branch_shape (program.handlers (Tabled.bit Poll) size) ptr (Poll.reported events) epoll branch
    have later := @ih (done ++ [branch]) (by simpa using whole)
      (epoll.branch (program.handlers (Tabled.bit Poll) size) ptr (Poll.reported events) branch)
      (PollKQueue.entry (program.handlers (Tabled.bit PollKQueue) size) kqueue
        (offset (epoll.poll.events.map (·.events)) i + done.length))
    rw [shape, List.length_append, List.length_singleton, ← Nat.add_assoc] at later
    by_cases back : epoll.returned = true
    · rcases loaded back with present | ⟨event, points, gone, idle⟩
      · have pointer : ready.ptr = ptr := held.symm.trans present
        rw [entry_piece _ (twin.returned.trans back) own now, pointer] at later ⊢
        refine later (twin.branch portable ptr own reported (List.mem_singleton_self _)) there fun returned => ?_
        exact branch_leaves portable epoll ptr (Poll.reported events) branch present returned
      · have pointer : ready.ptr = none := held.symm.trans gone
        rw [entry_piece _ (twin.returned.trans back) own now, pointer] at later ⊢
        have looks : epoll.branch (program.handlers (Tabled.bit Poll) size) ptr (Poll.reported events) branch =
            { epoll with trace := epoll.trace ++ [.look event] } := by
          unfold Dispatch.branch
          rw [if_neg (by simp [back, reported]), points]
          exact if_pos idle
        have rests : kqueue.branch (program.handlers (Tabled.bit PollKQueue) size) none [branch] branch = kqueue := by
          unfold Dispatch.branch
          rw [if_neg (by simp [twin.returned, back])]
        rw [looks, rests] at later ⊢
        refine later ⟨twin.state, twin.descriptor, twin.returned, ?_, twin.table, twin.events⟩ there
          fun _ => .inr ⟨event, points, gone, idle⟩
        refine twin.called.trans ((calls_concat _ _).trans (List.append_nil _)).symm
    · have stays : epoll.branch (program.handlers (Tabled.bit Poll) size) ptr (Poll.reported events) branch = epoll := by
        unfold Dispatch.branch
        exact if_pos (.inl back)
      have rests : PollKQueue.entry (program.handlers (Tabled.bit PollKQueue) size) kqueue
          (offset (epoll.poll.events.map (·.events)) i + done.length) = kqueue := by
        unfold PollKQueue.entry
        exact if_pos fun returned => back (twin.returned.symm.trans returned)
      rw [stays, rests] at later ⊢
      exact later twin there fun returned => absurd returned back

theorem entry_twin (portable : program.Portable) {epoll : Dispatch Poll} {kqueue : Dispatch PollKQueue}
    (twin : Twin size epoll kqueue) {i : Nat} {events : UInt32}
    (there : (epoll.poll.events.map (·.events))[i]? = some events) (quiet : events &&& Poll.EPOLLERR = 0) :
    Twin size (Poll.entry (program.handlers (Tabled.bit Poll) size) epoll i)
      ((List.range' (offset (epoll.poll.events.map (·.events)) i) (pieces events).length).foldl
        (PollKQueue.entry (program.handlers (Tabled.bit PollKQueue) size)) kqueue) := by
  obtain ⟨ready, entry, rfl⟩ : ∃ ready, epoll.poll.events[i]? = some ready ∧ ready.events = events := by
    rw [List.getElem?_map] at there
    exact Option.map_eq_some_iff.mp there
  have held : Multiplexer.event epoll.poll i = ready.ptr := congrArg (Option.bind · _) entry
  have walk : Poll.entry (program.handlers (Tabled.bit Poll) size) epoll i =
      (pieces ready.events).foldl
        (Dispatch.branch (program.handlers (Tabled.bit Poll) size) ready.ptr (Poll.reported ready.events)) epoll := by
    have silent : .error ∉ Poll.reported ready.events := fun member => (of_decide_eq_true (List.mem_filter.mp member).2) quiet
    have skips (branch : Branch) (self : Dispatch Poll) (absent : branch ∉ Poll.reported ready.events) :
        self.branch (program.handlers (Tabled.bit Poll) size) ready.ptr (Poll.reported ready.events) branch = self :=
      if_pos (.inr absent)
    have listed : pieces ready.events = [.error, .read, .write].filter (· ∈ Poll.reported ready.events) := by
      unfold pieces Poll.reported
      rw [List.filter_filter]
      refine List.filter_congr fun branch _ => ?_
      cases branch with
      | error => simpa [Poll.reported] using silent
      | read => simp
      | write => simp
    unfold Poll.entry
    rw [entry, listed, List.foldl_filter]
    refine List.foldl_ext _ _ _ fun self branch _ => ?_
    by_cases member : branch ∈ Poll.reported ready.events
    · rw [if_pos (decide_eq_true member)]
    · rw [if_neg (by simpa using member), skips branch self member]
  rw [walk]
  exact @pieces_twin size program portable i ready.ptr ready.events [] (pieces ready.events) rfl epoll kqueue twin there
    fun _ => .inl held

theorem entry_shape (handlers : Dispatch.Handlers) (self : Dispatch Poll) (i : Nat) :
    (Poll.entry handlers self i).poll.events.map (·.events) = self.poll.events.map (·.events) := by
  unfold Poll.entry
  cases self.poll.events[i]? with
  | none => rfl
  | some ready =>
    dsimp only [List.foldl_cons, List.foldl_nil]
    rw [branch_shape, branch_shape, branch_shape]

theorem entries_twin (portable : program.Portable) {epoll : Dispatch Poll} {kqueue : Dispatch PollKQueue}
    (twin : Twin size epoll kqueue) (quiet : ∀ ready ∈ epoll.poll.events, ready.events &&& Poll.EPOLLERR = 0) {n : Nat}
    (within : n ≤ epoll.poll.events.length) :
    ((List.range n).foldl (Poll.entry (program.handlers (Tabled.bit Poll) size)) epoll).poll.events.map (·.events) =
        epoll.poll.events.map (·.events) ∧
      Twin size ((List.range n).foldl (Poll.entry (program.handlers (Tabled.bit Poll) size)) epoll)
        ((List.range (offset (epoll.poll.events.map (·.events)) n)).foldl
          (PollKQueue.entry (program.handlers (Tabled.bit PollKQueue) size)) kqueue) := by
  induction n with
  | zero => exact ⟨rfl, twin⟩
  | succ n ih =>
    obtain ⟨shape, reached⟩ := ih (by omega)
    have inside : n < epoll.poll.events.length := within
    have here : (epoll.poll.events.map (·.events))[n]? = some epoll.poll.events[n].events := by
      rw [List.getElem?_map, List.getElem?_eq_getElem inside]
      rfl
    have further : offset (epoll.poll.events.map (·.events)) (n + 1) =
        offset (epoll.poll.events.map (·.events)) n + (pieces epoll.poll.events[n].events).length := by
      rw [offset, List.take_add_one, here, List.flatMap_append, List.length_append]
      simp [offset]
    have next := entry_twin portable reached (shape ▸ here) (quiet _ (List.getElem_mem inside))
    rw [shape] at next
    have pieced (start count : Nat) : List.range (start + count) = List.range start ++ List.range' start count := by
      have cut := @List.range'_append_1 0 start count
      rwa [Nat.zero_add, ← List.range_eq_range', ← List.range_eq_range', eq_comm] at cut
    rw [List.range_succ, List.foldl_append, List.foldl_cons, List.foldl_nil, further, pieced, List.foldl_append]
    exact ⟨(entry_shape _ _ _).trans shape, next⟩

/-- The batch is forgotten when no handler threw. -/
theorem Twin.ended {epoll : Dispatch Poll} {kqueue : Dispatch PollKQueue} (twin : Twin size epoll kqueue) :
    Twin size (if epoll.returned then { epoll with poll := { epoll.poll with events := [] } } else epoll)
      (if kqueue.returned then { kqueue with poll := { kqueue.poll with events := [] } } else kqueue) := by
  by_cases back : epoll.returned = true
  · rw [if_pos back, if_pos (twin.returned.trans back)]
    exact ⟨twin.state, twin.descriptor, twin.returned, twin.called, twin.table, rfl⟩
  · rw [if_neg back, if_neg fun returned => back (twin.returned.symm.trans returned)]
    exact twin

theorem perform_twin (portable : program.Portable) {epoll : Dispatch Poll} {kqueue : Dispatch PollKQueue}
    (twin : Twin size epoll kqueue) (quiet : ∀ ready ∈ epoll.poll.events, ready.events &&& Poll.EPOLLERR = 0) :
    Twin size (Poll.perform (program.handlers (Tabled.bit Poll) size) epoll)
      (PollKQueue.perform (program.handlers (Tabled.bit PollKQueue) size) kqueue) := by
  have all := (entries_twin portable twin quiet le_rfl).2
  have total : offset (epoll.poll.events.map (·.events)) epoll.poll.events.length = kqueue.poll.events.length := by
    rw [twin.events, offset, List.take_of_length_le (by simp), List.length_flatMap, List.length_flatMap, List.map_map]
    exact congrArg List.sum (List.map_congr_left fun one _ => (List.length_map _).symm)
  rw [total] at all
  exact all.ended

variable {looping : Looping}

theorem Twin.worked {epoll : Dispatch Poll} {kqueue : Dispatch PollKQueue} (twin : Twin size epoll kqueue)
    (portable : looping.Portable) :
    Twin size
      (if ¬ epoll.returned then epoll
        else (epoll.perform ((looping.work (calls epoll.trace)).map (Deed.effect (Tabled.bit Poll) size))).1)
      (if ¬ kqueue.returned then kqueue
        else (kqueue.perform ((looping.work (calls kqueue.trace)).map (Deed.effect (Tabled.bit PollKQueue) size))).1) := by
  by_cases back : epoll.returned = true
  · rw [if_neg (not_not.mpr back), if_neg (not_not.mpr (twin.returned.trans back)), twin.called]
    exact (twin.perform (portable.work _)).1
  · rw [if_pos back, if_pos fun returned => back (twin.returned.symm.trans returned)]
    exact twin

theorem round_twin (portable : looping.Portable) {epoll : Dispatch Poll} {kqueue : Dispatch PollKQueue}
    (twin : Twin size epoll kqueue) {batch : List ReadyEvent} (quiet : ∀ ready ∈ batch, ready.events &&& Poll.EPOLLERR = 0) :
    Twin size (looping.epollRound size epoll batch) (looping.kqueueRound size kqueue (batch.flatMap split)) := by
  unfold Looping.epollRound Looping.kqueueRound
  by_cases back : epoll.returned = true
  · rw [if_neg (not_not.mpr back), if_neg (not_not.mpr (twin.returned.trans back))]
    have loaded : Twin size { epoll with poll := { epoll.poll with events := batch } }
        { kqueue with poll := { kqueue.poll with events := batch.flatMap split } } :=
      ⟨twin.state, twin.descriptor, twin.returned, twin.called, twin.table, rfl⟩
    exact (perform_twin portable.handlers loaded quiet).worked portable
  · rw [if_pos back, if_pos fun returned => back (twin.returned.symm.trans returned)]
    exact twin

/-- Whatever a thread does, as long as it waits for no event's errors alone and its handlers
leave the events they close inactive: over any batches without errors it runs alike under
either poll. -/
theorem polls_alike (size : Nat) (looping : Looping) (portable : looping.Portable) (state : Nat → State) (descriptor : Nat → Int)
    (interests : Int → Branch → Bool) (audible : ∀ fd, Audible (interests fd)) (batches : List (List ReadyEvent))
    (quiet : ∀ batch ∈ batches, ∀ ready ∈ batch, ready.events &&& Poll.EPOLLERR = 0) :
    let epoll := batches.foldl (looping.epollRound size)
      { poll := { table := board (Tabled.bit Poll) size interests, events := [] }, state, descriptor }
    let kqueue := (batches.map (List.flatMap split)).foldl (looping.kqueueRound size)
      { poll := { table := board (Tabled.bit PollKQueue) size interests, events := [] }, state, descriptor }
    calls kqueue.trace = calls epoll.trace ∧ kqueue.returned = epoll.returned ∧ kqueue.state = epoll.state ∧
      kqueue.descriptor = epoll.descriptor ∧
      ∃ after, epoll.poll.table = board (Tabled.bit Poll) size after ∧
        kqueue.poll.table = board (Tabled.bit PollKQueue) size after := by
  have start : Twin size { poll := { table := board (Tabled.bit Poll) size interests, events := [] }, state, descriptor }
      { poll := { table := board (Tabled.bit PollKQueue) size interests, events := [] }, state, descriptor } :=
    ⟨rfl, rfl, rfl, rfl, ⟨interests, audible, rfl, rfl⟩, rfl⟩
  have run : ∀ {epoll kqueue}, Twin size epoll kqueue → Twin size (batches.foldl (looping.epollRound size) epoll)
      ((batches.map (List.flatMap split)).foldl (looping.kqueueRound size) kqueue) := by
    induction batches with
    | nil => exact fun twin => twin
    | cons batch batches ih =>
      intro epoll kqueue twin
      exact ih (fun later member => quiet later (List.mem_cons_of_mem _ member))
        (round_twin portable twin (quiet batch List.mem_cons_self))
  have twin := run start
  obtain ⟨after, -, left, right⟩ := twin.table
  exact ⟨twin.called, twin.returned, twin.state, twin.descriptor, after, left, right⟩

/-- Connections that are closed by what they read. -/
def closesRead : Program := fun _ branch event =>
  if branch = .read then
    [.change (fun other => if other = event then .closing else .connected) Int.ofNat
      (fun fd branch => fd ≠ event ∧ branch ≠ .error), .close event]
  else []

theorem closesRead_portable : closesRead.Portable := by
  constructor
  · intro calls branch event state descriptor interests member fd error
    unfold closesRead at member
    split at member
    · obtain ⟨-, -, rfl⟩ : _ ∧ _ ∧ _ := by simpa using member
      simp at error
    · cases member
  · intro calls branch event state member
    unfold closesRead at member ⊢
    split at member
    · rename_i reads
      rw [if_pos reads]
      exact .inr (if_pos rfl)
    · cases member

/-- Two batches, with a reader that closes and a thread that adds nothing. -/
theorem polls_alike_closes :
    let looping : Looping := ⟨closesRead, fun _ => []⟩
    let batches : List (List ReadyEvent) := [[⟨some 1, 5⟩, ⟨none, 1⟩, ⟨some 2, 4⟩], [⟨some 2, 5⟩]]
    let epoll := batches.foldl (looping.epollRound 3)
      { poll := { table := board (Tabled.bit Poll) 3 fun _ branch => branch ≠ .error, events := [] }
        state := fun _ => .connected, descriptor := Int.ofNat }
    let kqueue := (batches.map (List.flatMap split)).foldl (looping.kqueueRound 3)
      { poll := { table := board (Tabled.bit PollKQueue) 3 fun _ branch => branch ≠ .error, events := [] }
        state := fun _ => .connected, descriptor := Int.ofNat }
    calls kqueue.trace = calls epoll.trace ∧ kqueue.returned = epoll.returned ∧ kqueue.state = epoll.state ∧
      kqueue.descriptor = epoll.descriptor ∧
      ∃ after, epoll.poll.table = board (Tabled.bit Poll) 3 after ∧
        kqueue.poll.table = board (Tabled.bit PollKQueue) 3 after :=
  polls_alike 3 ⟨closesRead, fun _ => []⟩ ⟨closesRead_portable, fun _ _ _ _ member => absurd member List.not_mem_nil⟩
    (fun _ => .connected) Int.ofNat (fun _ branch => branch ≠ .error) (fun _ error => by simp at error)
    [[⟨some 1, 5⟩, ⟨none, 1⟩, ⟨some 2, 4⟩], [⟨some 2, 5⟩]] (by decide)

end LibWebserver
