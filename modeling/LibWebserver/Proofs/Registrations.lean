import LibWebserver.Proofs.Interests

/-! The interest table and the kernel's registrations agree, for epoll and for kqueue. -/

namespace LibWebserver

theorem mask_or_and (mask bit : UInt32) : (mask ||| bit) &&& bit = bit := by
  apply UInt32.toBitVec_inj.mp
  ext i inside
  simp only [UInt32.toBitVec_and, UInt32.toBitVec_or, BitVec.getElem_and, BitVec.getElem_or]
  cases bit.toBitVec[i] <;> simp

theorem mask_and_not_and (mask bit : UInt32) : mask &&& ~~~bit &&& bit = 0 := by
  apply UInt32.toBitVec_inj.mp
  ext i inside
  simp only [UInt32.toBitVec_and, UInt32.toBitVec_not, BitVec.getElem_and, BitVec.getElem_not]
  cases bit.toBitVec[i] <;> simp

/-- Setting and clearing the bit of a branch is setting and clearing its interest. -/
structure Separate (bit : Branch → UInt32) : Prop where
  insert (interests : Branch → Bool) (branch : Branch) :
    encode bit interests ||| bit branch = encode bit (Function.update interests branch true)
  remove (interests : Branch → Bool) (branch : Branch) :
    encode bit interests &&& ~~~bit branch = encode bit (Function.update interests branch false)

private theorem separate_of (bit : Branch → UInt32)
    (bits : ∀ error read write : Bool, ∀ branch : Branch, ∀ value : Bool,
      (let mask := (if error then bit .error else 0) ||| (if read then bit .read else 0) ||| if write then bit .write else 0
        if value then mask ||| bit branch else mask &&& ~~~bit branch) =
      (if (if branch = .error then value else error) then bit .error else 0) |||
        (if (if branch = .read then value else read) then bit .read else 0) |||
          if (if branch = .write then value else write) then bit .write else 0) : Separate bit where
  insert interests branch := by
    refine (bits (interests .error) (interests .read) (interests .write) branch true).trans ?_
    cases branch <;> rfl
  remove interests branch := by
    refine (bits (interests .error) (interests .read) (interests .write) branch false).trans ?_
    cases branch <;> rfl

theorem Poll.separate : Separate (Multiplexer.bit Poll) :=
  separate_of _ fun error read write branch value => by revert error read write value; cases branch <;> decide

theorem PollKQueue.separate : Separate PollKQueue.bit :=
  separate_of _ fun error read write branch value => by revert error read write value; cases branch <;> decide

private theorem table_set {table : List UInt32} {fd : Int} (inside : 0 ≤ fd ∧ fd < table.length) (mask : UInt32) :
    (fun other : Int => if 0 ≤ other then (table.set fd.toNat mask).getD other.toNat 0 else 0) =
      Function.update (fun other : Int => if 0 ≤ other then table.getD other.toNat 0 else 0) fd mask := by
  funext other
  rw [Function.update_apply]
  simp only [List.getD_eq_getElem?_getD, List.getElem?_set]
  split_ifs <;> first | rfl | omega

theorem Poll.eventMask_setEventMask {self : Poll} {fd : Int} (inside : 0 ≤ fd ∧ fd < self.table.length) (mask : UInt32) :
    (self.setEventMask fd mask).eventMask = Function.update self.eventMask fd mask := by
  rw [setEventMask, if_pos inside.1]
  exact table_set inside mask

theorem PollKQueue.eventMask_setEventMask {self : PollKQueue} {fd : Int} (inside : 0 ≤ fd ∧ fd < self.table.length)
    (mask : UInt32) : (self.setEventMask fd mask).eventMask = Function.update self.eventMask fd mask := by
  rw [setEventMask, if_pos inside.1]
  exact table_set inside mask

namespace Poll

variable {size : Nat} {self : Poll} {kernel : Epoll} {client : Client} {event : Nat} {fd : Int}

/-- The operation the masks ask for is the one the kernel accepts. -/
theorem modifyCtl_agrees (agrees : Agrees size ⟨self, kernel⟩ client) {before : Branch → Bool}
    (owned : client fd = .active event before) (after : Branch → Bool) {op : CtlOp}
    (suits : self.eventMask fd ≠ encode (Multiplexer.bit Poll) after →
      op = if self.eventMask fd = 0 then .add else if encode (Multiplexer.bit Poll) after = 0 then .del else .mod) :
    ∃ subscribed, Subscribed.ofControlled
        (self.modifyCtl Epoll.ctl kernel event fd op (encode (Multiplexer.bit Poll) after)) = some subscribed ∧
      Agrees size subscribed (Function.update client fd (.active event after)) := by
  have inside := agrees.range fd (by rw [owned]; exact Slot.noConfusion)
  have held : kernel fd = registration (self.eventMask fd) (.active event before) :=
    (congrFun agrees.kernel fd).trans (congrArg (registration (self.eventMask fd)) owned)
  unfold Poll.modifyCtl
  split_ifs with same
  · refine ⟨⟨self, kernel⟩, rfl, ?_⟩
    have changed := @Agrees.update Poll _ _ size self kernel client fd agrees self (.active event after) (kernel fd) rfl
      (fun _ => inside) (by change _ = Function.update self.eventMask fd (encode (Multiplexer.bit Poll) after)
                            rw [← same, Function.update_eq_self]; rfl)
      (by rw [held, same]; rfl)
    rwa [Function.update_eq_self] at changed
  · have accepted : Epoll.ctl kernel op fd { events := encode (Multiplexer.bit Poll) after, ptr := event } =
        (Function.update kernel fd (registration (encode (Multiplexer.bit Poll) after) (.active event after)), true) := by
      rw [suits same]
      unfold registration at held ⊢
      dsimp only at held ⊢
      by_cases absent : self.eventMask fd = 0
      · have wanted : encode (Multiplexer.bit Poll) after ≠ 0 := fun none => same (absent.trans none.symm)
        rw [if_pos absent] at held ⊢
        rw [if_neg wanted]
        simp only [Epoll.ctl, held]
      · rw [if_neg absent] at held ⊢
        by_cases last : encode (Multiplexer.bit Poll) after = 0
        · rw [if_pos last, if_pos last]
          simp only [Epoll.ctl, held]
        · rw [if_neg last, if_neg last]
          simp only [Epoll.ctl, held]
    rw [accepted]
    refine ⟨_, rfl, agrees.update ?_ (fun _ => inside) ?_ rfl⟩
    · change (self.setEventMask fd _).table.length = self.table.length
      rw [Poll.setEventMask, if_pos inside.1, List.length_set]
    · exact Poll.eventMask_setEventMask ⟨inside.1, by rw [show self.table.length = size from agrees.length]; exact inside.2⟩ _

theorem insertCtl_agrees (agrees : Agrees size ⟨self, kernel⟩ client) {before : Branch → Bool}
    (owned : client fd = .active event before) (branch : Branch) :
    ∃ subscribed, Subscribed.ofControlled
        (self.insertCtl Epoll.ctl kernel event fd (Multiplexer.bit Poll branch)) = some subscribed ∧
      Agrees size subscribed (client.setInterest fd branch true) := by
  have mask : self.eventMask fd = encode (Multiplexer.bit Poll) before := agrees.mask_active owned
  have wanted : self.eventMask fd ||| Multiplexer.bit Poll branch =
      encode (Multiplexer.bit Poll) (Function.update before branch true) := by
    rw [mask, Poll.separate.insert]
  unfold Poll.insertCtl Client.setInterest
  rw [wanted, owned]
  refine modifyCtl_agrees agrees owned _ fun changed => ?_
  rw [ite_not]
  split_ifs with none empty
  · rfl
  · rw [← wanted] at empty
    exact absurd (UInt32.or_eq_zero_iff.mp empty).1 none
  · rfl

theorem removeCtl_agrees (agrees : Agrees size ⟨self, kernel⟩ client) {before : Branch → Bool}
    (owned : client fd = .active event before) (branch : Branch) :
    ∃ subscribed, Subscribed.ofControlled
        (self.removeCtl Epoll.ctl kernel event fd (Multiplexer.bit Poll branch)) = some subscribed ∧
      Agrees size subscribed (client.setInterest fd branch false) := by
  have mask : self.eventMask fd = encode (Multiplexer.bit Poll) before := agrees.mask_active owned
  have wanted : self.eventMask fd &&& ~~~Multiplexer.bit Poll branch =
      encode (Multiplexer.bit Poll) (Function.update before branch false) := by
    rw [mask, Poll.separate.remove]
  unfold Poll.removeCtl Client.setInterest
  dsimp only
  rw [wanted, owned]
  refine modifyCtl_agrees agrees owned _ fun changed => ?_
  have present : self.eventMask fd ≠ 0 := by
    intro none
    rw [none, UInt32.zero_and] at wanted
    exact changed (none.trans wanted)
  rw [ite_not, if_neg present]

theorem removeCtl_none (event : Nat) (none : self.eventMask fd = 0) (bit : UInt32) :
    Subscribed.ofControlled (self.removeCtl Epoll.ctl kernel event fd bit) = some ⟨self, kernel⟩ := by
  unfold Poll.removeCtl Poll.modifyCtl
  dsimp only
  rw [none, UInt32.zero_and, if_pos rfl]
  rfl

end Poll

instance : LawfulTabled Poll where
  blank slot := by cases slot <;> rfl
  openEvent none := if_neg (not_not.mpr none)
  closeEvent event none := ⟨_, if_neg (not_not.mpr none), rfl, rfl⟩
  closeDescriptor kernel fd := rfl
  insert agrees owned branch := by
    cases branch with
    | error => exact Poll.insertCtl_agrees agrees owned .error
    | read => exact Poll.insertCtl_agrees agrees owned .read
    | write => exact Poll.insertCtl_agrees agrees owned .write
  remove agrees owned branch := by
    cases branch with
    | error => exact Poll.removeCtl_agrees agrees owned .error
    | read => exact Poll.removeCtl_agrees agrees owned .read
    | write => exact Poll.removeCtl_agrees agrees owned .write
  remove_none event none branch := by
    cases branch with
    | error => exact Poll.removeCtl_none event none Poll.EPOLLERR
    | read => exact Poll.removeCtl_none event none Poll.EPOLLIN
    | write => exact Poll.removeCtl_none event none Poll.EPOLLOUT

namespace PollKQueue

/-- The flag and the filter of a branch that has one. -/
def filter : Branch → Filter
  | .error => .other 0
  | .read => .read
  | .write => .write

theorem encode_and (interests : Branch → Bool) {branch : Branch} (own : branch ≠ .error) :
    encode bit interests &&& bit branch ≠ 0 ↔ interests branch := by
  unfold encode
  generalize interests .error = error
  cases read : interests .read <;> cases write : interests .write <;> cases error <;> cases branch <;>
    simp only [read, write, ne_eq, not_true] at own ⊢ <;> decide

theorem decide_read (interests : Branch → Bool) :
    decide (encode bit interests &&& flagRead ≠ 0) = interests .read :=
  Bool.eq_iff_iff.mpr (decide_eq_true_iff.trans (@encode_and interests .read nofun))

theorem decide_write (interests : Branch → Bool) :
    decide (encode bit interests &&& flagWrite ≠ 0) = interests .write :=
  Bool.eq_iff_iff.mpr (decide_eq_true_iff.trans (@encode_and interests .write nofun))

variable {size : Nat} {self : PollKQueue} {kernel : KQueue} {client : Client} {event : Nat} {fd : Int}

theorem held (agrees : Agrees size ⟨self, kernel⟩ client) {before : Branch → Bool}
    (owned : client fd = .active event before) :
    kernel fd = filters (before .read) (before .write) (.active event before) := by
  have mask : self.eventMask fd = encode bit before := agrees.mask_active owned
  refine (congrFun agrees.kernel fd).trans ?_
  change filters (self.eventMask fd &&& flagRead ≠ 0) (self.eventMask fd &&& flagWrite ≠ 0) (client fd) = _
  rw [mask, owned, decide_read, decide_write]

/-- One interest and its filter change together. -/
theorem switch_agrees (agrees : Agrees size ⟨self, kernel⟩ client) {before : Branch → Bool}
    (owned : client fd = .active event before) {branch : Branch} (own : branch ≠ .error) (value : Bool) :
    Agrees size
      ⟨self.setEventMask fd (encode bit (Function.update before branch value)),
        Function.update kernel fd (Function.update (kernel fd) (filter branch) (if value then some event else none))⟩
      (client.setInterest fd branch value) := by
  have inside := agrees.range fd (by rw [owned]; exact Slot.noConfusion)
  rw [Client.setInterest, owned]
  refine agrees.update ?_ (fun _ => inside) ?_ ?_
  · change (self.setEventMask fd _).table.length = self.table.length
    rw [setEventMask, if_pos inside.1, List.length_set]
  · exact eventMask_setEventMask ⟨inside.1, by rw [show self.table.length = size from agrees.length]; exact inside.2⟩ _
  · change _ = filters (encode bit (Function.update before branch value) &&& flagRead ≠ 0)
      (encode bit (Function.update before branch value) &&& flagWrite ≠ 0) _
    rw [held agrees owned, decide_read, decide_write]
    funext filter
    rw [Function.update_apply]
    cases branch with
    | error => exact absurd rfl own
    | read | write => cases filter <;> cases value <;> rfl

theorem setInterest_error (agrees : Agrees size ⟨self, kernel⟩ client) {before : Branch → Bool}
    (owned : client fd = .active event before) (value : Bool) :
    Agrees size ⟨self, kernel⟩ (client.setInterest fd .error value) := by
  have mask : self.eventMask fd = encode bit before := agrees.mask_active owned
  have same : encode bit (Function.update before .error value) = encode bit before := by
    simp [encode, bit]
  have inside := agrees.range fd (by rw [owned]; exact Slot.noConfusion)
  rw [Client.setInterest, owned]
  have changed := @Agrees.update PollKQueue _ _ size self kernel client fd agrees self
    (.active event (Function.update before .error value)) (kernel fd) rfl (fun _ => inside)
    (by change _ = Function.update self.eventMask fd (encode bit (Function.update before .error value))
        rw [same, ← mask, Function.update_eq_self]; rfl)
    (by refine (congrFun agrees.kernel fd).trans ?_
        change _ = filters (encode bit (Function.update before .error value) &&& flagRead ≠ 0)
          (encode bit (Function.update before .error value) &&& flagWrite ≠ 0) _
        rw [same, ← mask, owned]
        funext filter
        cases filter <;> rfl)
  rwa [Function.update_eq_self] at changed

theorem insertCtl_agrees (agrees : Agrees size ⟨self, kernel⟩ client) {before : Branch → Bool}
    (owned : client fd = .active event before) {branch : Branch} (own : branch ≠ .error) :
    ∃ subscribed, Subscribed.ofControlled
        (self.insertCtl KQueue.kevent kernel event fd (bit branch) (filter branch)) = some subscribed ∧
      Agrees size subscribed (client.setInterest fd branch true) := by
  have mask : self.eventMask fd = encode bit before := agrees.mask_active owned
  unfold PollKQueue.insertCtl
  split_ifs with there
  · rw [mask, encode_and before own] at there
    rw [Client.setInterest_same owned there]
    exact ⟨⟨self, kernel⟩, rfl, agrees⟩
  · rw [mask, separate.insert]
    exact ⟨_, rfl, switch_agrees agrees owned own true⟩

theorem removeCtl_agrees (agrees : Agrees size ⟨self, kernel⟩ client) {before : Branch → Bool}
    (owned : client fd = .active event before) {branch : Branch} (own : branch ≠ .error) :
    ∃ subscribed, Subscribed.ofControlled
        (self.removeCtl KQueue.kevent kernel event fd (bit branch) (filter branch)) = some subscribed ∧
      Agrees size subscribed (client.setInterest fd branch false) := by
  have mask : self.eventMask fd = encode bit before := agrees.mask_active owned
  have listed := encode_and before own
  unfold PollKQueue.removeCtl
  split_ifs with absent
  · rw [mask] at absent
    have off : before branch = false := by
      by_contra on
      exact (listed.mpr (by simpa using on)) absent
    rw [Client.setInterest_same owned off]
    exact ⟨⟨self, kernel⟩, rfl, agrees⟩
  · rw [mask] at absent
    have on : before branch = true := listed.mp absent
    have present : kernel fd (filter branch) = some event := by
      rw [held agrees owned]
      cases branch with
      | error => exact absurd rfl own
      | read | write => simp only [filter, filters, on, if_true]
    have accepted : KQueue.kevent kernel false (filter branch) fd event =
        (Function.update kernel fd (Function.update (kernel fd) (filter branch) none), none) := by
      simp only [KQueue.kevent, present, Bool.false_eq_true, if_false]
    rw [mask, separate.remove, modifyCtl, accepted]
    exact ⟨_, rfl, switch_agrees agrees owned own false⟩

theorem removeCtl_none (event : Nat) (none : self.eventMask fd = 0) (flag : UInt32) (filter : Filter) :
    Subscribed.ofControlled (self.removeCtl KQueue.kevent kernel event fd flag filter) = some ⟨self, kernel⟩ := by
  rw [removeCtl, none, UInt32.zero_and, if_pos rfl]
  rfl

end PollKQueue

instance : LawfulTabled PollKQueue where
  blank slot := by
    funext filter
    cases slot <;> cases filter <;> rfl
  openEvent none := if_neg (not_not.mpr none)
  closeEvent event none := ⟨_, if_neg (not_not.mpr none), rfl, rfl⟩
  closeDescriptor kernel fd := rfl
  insert agrees owned branch := by
    cases branch with
    | error => exact ⟨_, rfl, PollKQueue.setInterest_error agrees owned true⟩
    | read =>
      have own : Branch.read ≠ .error := Branch.noConfusion
      have changed := PollKQueue.insertCtl_agrees agrees owned own
      exact changed
    | write =>
      have own : Branch.write ≠ .error := Branch.noConfusion
      have changed := PollKQueue.insertCtl_agrees agrees owned own
      exact changed
  remove agrees owned branch := by
    cases branch with
    | error => exact ⟨_, rfl, PollKQueue.setInterest_error agrees owned false⟩
    | read =>
      have own : Branch.read ≠ .error := Branch.noConfusion
      have changed := PollKQueue.removeCtl_agrees agrees owned own
      exact changed
    | write =>
      have own : Branch.write ≠ .error := Branch.noConfusion
      have changed := PollKQueue.removeCtl_agrees agrees owned own
      exact changed
  remove_none event none branch := by
    cases branch with
    | error => rfl
    | read => exact PollKQueue.removeCtl_none event none PollKQueue.flagRead .read
    | write => exact PollKQueue.removeCtl_none event none PollKQueue.flagWrite .write

/-- A run the protocol allows, step by step. -/
abbrev Client.Follows (size : Nat) (operations : List Subscription) : Prop :=
  Refinement.Along (fun client operation => some (Client.next client operation)) (Client.Legal size) .start operations

theorem eventMask_replicate (size : Nat) (fd : Int) :
    (if 0 ≤ fd then (List.replicate size (0 : UInt32)).getD fd.toNat 0 else 0) = 0 := by
  rw [List.getD_eq_getElem?_getD, List.getElem?_replicate]
  split_ifs <;> rfl

theorem table_start (size : Nat) (bit : Branch → UInt32) :
    (fun fd : Int => if 0 ≤ fd then (List.replicate size (0 : UInt32)).getD fd.toNat 0 else 0) =
      fun fd => encode bit (Client.interests .start fd) := by
  funext fd
  exact (eventMask_replicate size fd).trans (encode_none _).symm

/-- No call of the kernel fails and no event is found active, and after every operation
the table holds the interests and the kernel what the table says. -/
theorem registrations_agree (size : Nat) (operations : List Subscription) (follows : Client.Follows size operations) :
    (∀ events, Refinement.Throughout Subscribed.step Client.next (Agrees size) (.epoll size events) .start operations) ∧
    ∀ events, Refinement.Throughout Subscribed.step Client.next (Agrees size) (.kqueue size events) .start operations := by
  constructor
  · intro events
    refine Refinement.throughout_of_legal (fun _ _ operation agrees legal => agrees.step operation legal) ?_ follows
    exact ⟨List.length_replicate, fun _ used => absurd rfl used, table_start size _, rfl⟩
  · intro events
    refine Refinement.throughout_of_legal (fun _ _ operation agrees legal => agrees.step operation legal) ?_ follows
    exact ⟨List.length_replicate, fun _ used => absurd rfl used, table_start size _, rfl⟩

theorem registrations_agree_reused :
    (∀ events, Refinement.Throughout Subscribed.step Client.next (Agrees 8) (.epoll 8 events) .start
      [.socket 5, .openEvent 1 5, .insert .read 1 5, .remove .read 1 5, .closeEvent 1 5, .closeSocket 5, .socket 5]) ∧
    ∀ events, Refinement.Throughout Subscribed.step Client.next (Agrees 8) (.kqueue 8 events) .start
      [.socket 5, .openEvent 1 5, .insert .read 1 5, .remove .read 1 5, .closeEvent 1 5, .closeSocket 5, .socket 5] := by
  refine registrations_agree 8 _ ?_
  simp [Client.Follows, Refinement.Along, Client.Legal, Client.next, Client.setInterest, Client.start,
    noInterests]

end LibWebserver
