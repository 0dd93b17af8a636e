import LibWebserver.Listening
import LibWebserver.Proofs.Descriptors

/-! The calls of `io::Poll` that a listener makes, by what the poll waits for after them. -/

namespace LibWebserver

theorem and_not_eq_iff (mask bit : UInt32) : mask &&& ~~~bit = mask ↔ mask &&& bit = 0 := by
  constructor
  · intro same
    rw [← same]
    exact mask_and_not_and mask bit
  · intro none
    have whole : mask &&& ~~~bit = mask &&& ~~~(mask &&& bit) := by
      apply UInt32.toBitVec_inj.mp
      ext i inside
      simp only [UInt32.toBitVec_and, UInt32.toBitVec_not, BitVec.getElem_and, BitVec.getElem_not]
      cases mask.toBitVec[i] <;> simp
    rw [whole, none]
    simp

theorem PollKQueue.eventMask_outside {self : PollKQueue} {fd : Int} (outside : ¬ (0 ≤ fd ∧ fd < self.table.length)) :
    self.eventMask fd = 0 :=
  @Poll.eventMask_outside { table := self.table, events := [] } fd outside

theorem Poll.inside_of_asked {self : Poll} {fd : Int} {bit : UInt32} (asked : ¬ self.eventMask fd &&& bit = 0) :
    0 ≤ fd ∧ fd < self.table.length := by
  by_contra outside
  rw [eventMask_outside outside, UInt32.zero_and] at asked
  exact asked rfl

theorem PollKQueue.inside_of_asked {self : PollKQueue} {fd : Int} {bit : UInt32} (asked : ¬ self.eventMask fd &&& bit = 0) :
    0 ≤ fd ∧ fd < self.table.length :=
  @Poll.inside_of_asked { table := self.table, events := [] } fd bit asked

namespace Polling

def bit : Polling → Branch → UInt32
  | .kqueue _ => PollKQueue.bit
  | .epoll _ => Multiplexer.bit Poll

def mask : Polling → Int → UInt32
  | .kqueue poll => poll.eventMask
  | .epoll poll => poll.eventMask

def size : Polling → Nat
  | .kqueue poll => poll.table.length
  | .epoll poll => poll.table.length

variable {self : Polling} {fd : Int} {branch : Branch} {refused : Option Nat} {after : Polling × Option Exception}
  {interests : Int → Branch → Bool}

/-- An interest is taken away, and the kernel asked if it was there. -/
structure Removes (polling : Polling) (fd : Int) (branch : Branch) (refused : Option Nat) (after : Polling × Option Exception) :
    Prop where
  bit : after.1.bit = polling.bit
  mask : after.1.mask = Function.update polling.mask fd (polling.mask fd &&& ~~~polling.bit branch)
  thrown : after.2.isSome ↔ polling.mask fd &&& polling.bit branch ≠ 0 ∧ refused.isSome

/-- An interest that was not there is added to an entry of the table. -/
structure Inserts (polling : Polling) (fd : Int) (branch : Branch) (refused : Option Nat) (after : Polling × Option Exception) :
    Prop where
  bit : after.1.bit = polling.bit
  size : after.1.size = polling.size
  mask : after.1.mask = Function.update polling.mask fd (polling.mask fd ||| polling.bit branch)
  thrown : after.2.isSome ↔ polling.bit branch ≠ 0 ∧ refused.isSome

theorem removeCtl_removes (poll : Poll) (fd : Int) (branch : Branch) (refused : Option Nat) :
    Removes (.epoll poll) fd branch refused
      (ofEPoll (poll.removeCtl (ctl refused) () 0 fd (Multiplexer.bit Poll branch))) := by
  unfold Poll.removeCtl Poll.modifyCtl
  dsimp only
  by_cases none : poll.eventMask fd &&& Multiplexer.bit Poll branch = 0
  · have same := (and_not_eq_iff _ _).mpr none
    rw [if_pos same.symm]
    refine ⟨rfl, ?_, ?_⟩
    · change poll.eventMask = Function.update poll.eventMask fd (poll.eventMask fd &&& ~~~Multiplexer.bit Poll branch)
      rw [same, Function.update_eq_self]
    · exact iff_of_false (by simp [ofEPoll]) fun asked => asked.1 none
  · rw [if_neg fun same => none ((and_not_eq_iff _ _).mp same.symm)]
    refine ⟨rfl, Poll.eventMask_setEventMask (Poll.inside_of_asked none) _, ?_⟩
    change (if refused.isNone then _ else _ : Option Exception).isSome ↔ _
    cases refused with
    | none => exact iff_of_false (by simp) (by simp)
    | some errno => exact iff_of_true rfl ⟨none, rfl⟩

theorem kremoveCtl_removes (poll : PollKQueue) (fd : Int) (branch : Branch) (filter : Filter) (refused : Option Nat) :
    Removes (.kqueue poll) fd branch refused
      (ofKQueue (poll.removeCtl (answer refused) () 0 fd (PollKQueue.bit branch) filter)) := by
  unfold PollKQueue.removeCtl
  by_cases none : poll.eventMask fd &&& PollKQueue.bit branch = 0
  · rw [if_pos none]
    refine ⟨rfl, ?_, iff_of_false (by simp [ofKQueue]) fun asked => asked.1 none⟩
    change poll.eventMask = Function.update poll.eventMask fd (poll.eventMask fd &&& ~~~PollKQueue.bit branch)
    rw [(and_not_eq_iff _ _).mpr none, Function.update_eq_self]
  · rw [if_neg none]
    refine ⟨rfl, PollKQueue.eventMask_setEventMask (PollKQueue.inside_of_asked none) _, ?_⟩
    change (refused.map _ : Option Exception).isSome ↔ _
    rw [Option.isSome_map]
    exact ⟨fun some => ⟨none, some⟩, fun asked => asked.2⟩

theorem removeRead_removes (self : Polling) (fd : Int) (refused : Option Nat) :
    Removes self fd .read refused (self.removeRead 0 fd refused) := by
  cases self with
  | kqueue poll => exact kremoveCtl_removes poll fd .read .read refused
  | epoll poll => exact removeCtl_removes poll fd .read refused

/-- A kqueue has nothing to remove. -/
theorem removeError_removes (self : Polling) (fd : Int) (refused : Option Nat) :
    Removes self fd .error refused (self.removeError 0 fd refused) := by
  cases self with
  | kqueue poll =>
    refine ⟨rfl, ?_, iff_of_false (by simp [removeError, ofKQueue, PollKQueue.removeErrorCtl]) ?_⟩
    · change poll.eventMask = Function.update poll.eventMask fd (poll.eventMask fd &&& ~~~0)
      rw [UInt32.not_zero, UInt32.and_neg_one, Function.update_eq_self]
    · exact fun asked => asked.1 UInt32.and_zero
  | epoll poll => exact removeCtl_removes poll fd .error refused

theorem insertCtl_inserts (poll : Poll) {branch : Branch} (refused : Option Nat)
    (inside : 0 ≤ fd ∧ fd < poll.table.length) (absent : poll.eventMask fd &&& Multiplexer.bit Poll branch = 0) :
    Inserts (.epoll poll) fd branch refused
      (ofEPoll (poll.insertCtl (ctl refused) () 0 fd (Multiplexer.bit Poll branch))) := by
  have own : Multiplexer.bit Poll branch ≠ 0 := by cases branch <;> decide
  have new : poll.eventMask fd ≠ poll.eventMask fd ||| Multiplexer.bit Poll branch := by
    intro same
    rw [same, mask_or_and] at absent
    exact own absent
  unfold Poll.insertCtl Poll.modifyCtl
  rw [if_neg new]
  refine ⟨rfl, ?_, Poll.eventMask_setEventMask inside _, ?_⟩
  · change (poll.setEventMask fd _).table.length = poll.table.length
    rw [Poll.setEventMask, if_pos inside.1, List.length_set]
  · change (if refused.isNone then _ else _ : Option Exception).isSome ↔ _
    cases refused with
    | none => exact iff_of_false (by simp) (by simp)
    | some errno => exact iff_of_true rfl ⟨own, rfl⟩

theorem insertRead_inserts (self : Polling) (refused : Option Nat) (inside : 0 ≤ fd ∧ fd < self.size)
    (absent : self.mask fd &&& self.bit .read = 0) : Inserts self fd .read refused (self.insertRead 0 fd refused) := by
  cases self with
  | kqueue poll =>
    have gone : poll.eventMask fd &&& PollKQueue.flagRead = 0 := absent
    unfold insertRead PollKQueue.insertReadCtl PollKQueue.insertCtl
    dsimp only
    rw [if_neg (not_not.mpr gone)]
    refine ⟨rfl, ?_, PollKQueue.eventMask_setEventMask inside _, ?_⟩
    · change (poll.setEventMask fd _).table.length = poll.table.length
      rw [PollKQueue.setEventMask, if_pos inside.1, List.length_set]
    · change (refused.map _ : Option Exception).isSome ↔ _
      rw [Option.isSome_map]
      exact ⟨fun some => ⟨(by decide : PollKQueue.flagRead ≠ 0), some⟩, fun asked => asked.2⟩
  | epoll poll => exact insertCtl_inserts poll refused inside absent

theorem insertError_inserts (self : Polling) (refused : Option Nat) (inside : 0 ≤ fd ∧ fd < self.size)
    (absent : self.mask fd &&& self.bit .error = 0) : Inserts self fd .error refused (self.insertError 0 fd refused) := by
  cases self with
  | kqueue poll =>
    refine ⟨rfl, rfl, ?_, iff_of_false (by simp [insertError, ofKQueue, PollKQueue.insertErrorCtl]) fun asked => asked.1 rfl⟩
    change poll.eventMask = Function.update poll.eventMask fd (poll.eventMask fd ||| 0)
    rw [UInt32.or_zero, Function.update_eq_self]
  | epoll poll => exact insertCtl_inserts poll refused inside absent

/-- The masks are those of some interests. A listener does not wait to write. -/
structure Waits (polling : Polling) (interests : Int → Branch → Bool) : Prop where
  mask (fd : Int) : polling.mask fd = encode polling.bit (interests fd)
  write (fd : Int) : interests fd .write = false
  kept : polling.bit .error = 0 → ∀ fd, interests fd .error = false

theorem separate (self : Polling) : Separate self.bit := by
  cases self with
  | kqueue poll => exact PollKQueue.separate
  | epoll poll => exact Poll.separate

theorem bit_read (self : Polling) : self.bit .read ≠ 0 := by
  cases self with
  | kqueue poll => exact (by decide : PollKQueue.flagRead ≠ 0)
  | epoll poll => exact (by decide : Poll.EPOLLIN ≠ 0)

theorem Waits.asked (waits : self.Waits interests) (fd : Int) (own : branch ≠ .write) :
    self.mask fd &&& self.bit branch ≠ 0 ↔ interests fd branch := by
  rw [waits.mask]
  cases self with
  | kqueue poll => cases branch with
    | write => exact absurd rfl own
    | read => exact @PollKQueue.encode_and (interests fd) .read nofun
    | error => exact iff_of_false (fun some => some UInt32.and_zero) (by rw [waits.kept rfl fd]; exact Bool.false_ne_true)
  | epoll poll =>
    change encode (Multiplexer.bit Poll) (interests fd) &&& Multiplexer.bit Poll branch ≠ 0 ↔ _
    have quiet := waits.write fd
    unfold encode
    cases branch with
    | write => exact absurd rfl own
    | read | error =>
      rw [quiet]
      cases interests fd .error <;> cases interests fd .read <;> decide

/-- An interest in a descriptor, given or taken. -/
def mark (interests : Int → Branch → Bool) (fd : Int) (branch : Branch) (value : Bool) : Int → Branch → Bool :=
  Function.update interests fd (Function.update (interests fd) branch value)

theorem mark_own (value : Bool) : mark interests fd branch value fd branch = value := by
  rw [mark, Function.update_self, Function.update_self]

theorem mark_other {other : Branch} (different : other ≠ branch) (value : Bool) (place : Int) :
    mark interests fd branch value place other = interests place other := by
  unfold mark
  rw [Function.update_apply]
  split_ifs with here
  · rw [Function.update_of_ne different, here]
  · rfl

theorem Waits.remove (waits : self.Waits interests) (own : branch ≠ .write) (removes : Removes self fd branch refused after) :
    after.1.Waits (mark interests fd branch false) ∧ (after.2.isSome ↔ interests fd branch ∧ refused.isSome) := by
  refine ⟨⟨fun other => ?_, fun other => ?_, fun none other => ?_⟩, ?_⟩
  · rw [removes.mask, removes.bit]
    unfold mark
    rw [Function.update_apply, Function.update_apply]
    split_ifs with here
    · rw [waits.mask, self.separate.remove]
    · exact waits.mask other
  · rw [mark_other own.symm]
    exact waits.write other
  · rw [removes.bit] at none
    unfold mark
    rw [Function.update_apply]
    split_ifs with here
    · rw [Function.update_apply]
      split_ifs
      · rfl
      · exact waits.kept none fd
    · exact waits.kept none other
  · rw [removes.thrown, waits.asked fd own]

theorem Waits.insert (waits : self.Waits interests) (own : branch ≠ .write) (kept : self.bit branch ≠ 0)
    (inserts : Inserts self fd branch refused after) :
    after.1.Waits (mark interests fd branch true) ∧ (after.2.isSome ↔ refused.isSome) := by
  refine ⟨⟨fun other => ?_, fun other => ?_, fun none other => ?_⟩, ?_⟩
  · rw [inserts.mask, inserts.bit]
    unfold mark
    rw [Function.update_apply, Function.update_apply]
    split_ifs with here
    · rw [waits.mask, self.separate.insert]
    · exact waits.mask other
  · rw [mark_other own.symm]
    exact waits.write other
  · rw [inserts.bit] at none
    have different : Branch.error ≠ branch := by
      rintro rfl
      exact kept none
    rw [mark_other different]
    exact waits.kept none other
  · rw [inserts.thrown]
    exact and_iff_right kept

/-- What a poll waits for is told by its bits and its masks. -/
theorem Waits.same (waits : self.Waits interests) {later : Polling} (bit : later.bit = self.bit) (mask : later.mask = self.mask) :
    later.Waits interests := by
  refine ⟨fun other => ?_, waits.write, fun none => waits.kept (bit ▸ none)⟩
  rw [mask, bit]
  exact waits.mask other

theorem Waits.insert_nothing (waits : self.Waits interests) (lost : self.bit branch = 0)
    (inserts : Inserts self fd branch refused after) : after.1.Waits interests ∧ after.2 = none := by
  have same : after.1.mask = self.mask := by rw [inserts.mask, lost, UInt32.or_zero, Function.update_eq_self]
  refine ⟨waits.same inserts.bit same, ?_⟩
  rw [← Option.not_isSome_iff_eq_none, inserts.thrown]
  exact fun asked => asked.1 lost

theorem Waits.mask_zero (waits : self.Waits interests) (read : interests fd .read = false) (error : interests fd .error = false) :
    self.mask fd = 0 := by
  rw [waits.mask]
  unfold encode
  rw [read, error, waits.write]
  simp

theorem Waits.openEvent (waits : self.Waits interests) (read : interests fd .read = false) (error : interests fd .error = false) :
    self.openEvent fd = (self, none) := by
  have none := waits.mask_zero read error
  cases self with
  | kqueue poll =>
    have opened : poll.openEvent fd = .ok poll := if_neg (not_not.mpr none)
    simp only [Polling.openEvent, opened]
  | epoll poll =>
    have opened : poll.openEvent fd = .ok poll := if_neg (not_not.mpr none)
    simp only [Polling.openEvent, opened]

theorem Waits.closeEvent (waits : self.Waits interests) (read : interests fd .read = false) (error : interests fd .error = false)
    (event : Nat) : (self.closeEvent event fd).1.Waits interests ∧ (self.closeEvent event fd).2 = none := by
  have none := waits.mask_zero read error
  cases self with
  | kqueue poll =>
    obtain ⟨later, closed, same⟩ : ∃ later, poll.closeEvent event fd = .ok later ∧ (kqueue later).mask = (kqueue poll).mask :=
      ⟨_, if_neg (not_not.mpr none), rfl⟩
    simp only [Polling.closeEvent, closed]
    exact ⟨waits.same rfl same, trivial⟩
  | epoll poll =>
    obtain ⟨later, closed, same⟩ : ∃ later, poll.closeEvent event fd = .ok later ∧ (epoll later).mask = (epoll poll).mask :=
      ⟨_, if_neg (not_not.mpr none), rfl⟩
    simp only [Polling.closeEvent, closed]
    exact ⟨waits.same rfl same, trivial⟩

end Polling

theorem Opening.create_fd (self : Opening) (size : Nat) : (self.create size).map (·.fd) = self.kqueue.or self.epoll := by
  unfold create
  cases self.kqueue with
  | some fd => rfl
  | none => cases self.epoll <;> rfl

theorem Opening.create_waits {self : Opening} {size : Nat} {object : PollObject} (created : self.create size = some object) :
    object.polling.Waits (fun _ => noInterests) ∧ object.polling.size = size ∧ object.deleted = false ∧
      (object.polling.bit .error = 0 ↔ self.kqueue ≠ none) := by
  unfold create at created
  cases kqueue : self.kqueue with
  | some fd =>
    rw [kqueue] at created
    cases created
    exact ⟨⟨fun fd => (eventMask_replicate size fd).trans (encode_none _).symm, fun _ => rfl, fun _ _ => rfl⟩,
      List.length_replicate, rfl, iff_of_true rfl nofun⟩
  | none =>
    rw [kqueue] at created
    cases epoll : self.epoll with
    | none =>
      rw [epoll] at created
      cases created
    | some fd =>
      rw [epoll] at created
      cases created
      exact ⟨⟨fun fd => (eventMask_replicate size fd).trans (encode_none _).symm, fun _ => rfl, fun _ _ => rfl⟩,
        List.length_replicate, rfl, iff_of_false (by decide : ¬ Poll.EPOLLERR = 0) (fun some => some rfl)⟩

end LibWebserver
