import LibWebserver.Proofs.Registrations

/-! What a refused change of interest leaves behind. The table has the new mask before the
kernel is asked and keeps it, so that the same operation, tried again, does not ask. -/

namespace LibWebserver

/-- A call of an operation that throws has changed nothing: no entry outside the table was
written, the table is as before, and so is what the operation does when tried again. -/
structure Undone {π κ : Type} (operation : π → κ → Controlled π κ) (poll : π) (kernel : κ) (size : Nat) (fd : Int) :
    Prop where
  inside : (operation poll kernel).thrown.isSome → 0 ≤ fd ∧ fd < size
  table : (operation poll kernel).thrown.isSome → (operation poll kernel).poll = poll
  retry : (operation poll kernel).thrown.isSome → operation (operation poll kernel).poll = operation poll

/-- An operation that has changed the table when it throws is undone only by not throwing. -/
theorem undone_iff_of_changes {π κ : Type} {operation : π → κ → Controlled π κ} {poll : π} {kernel : κ} {size : Nat}
    {fd : Int} (changes : (operation poll kernel).thrown.isSome → 0 ≤ fd ∧ fd < size → (operation poll kernel).poll ≠ poll) :
    Undone operation poll kernel size fd ↔ ¬ (operation poll kernel).thrown.isSome := by
  constructor
  · intro undone thrown
    exact changes thrown (undone.inside thrown) (undone.table thrown)
  · intro silent
    constructor
    all_goals
      intro thrown
      exact absurd thrown silent

namespace Poll

variable {κ : Type} (ctl : κ → CtlOp → Int → Registration → κ × Bool) (self : Poll) (kernel : κ) (event : Nat) (fd : Int)
  (add : Bool) (branch : Branch)

/-- One of the six operations. -/
def changeCtl : Controlled Poll κ :=
  match add, branch with
  | true, .error => self.insertErrorCtl ctl kernel event fd
  | true, .read => self.insertReadCtl ctl kernel event fd
  | true, .write => self.insertWriteCtl ctl kernel event fd
  | false, .error => self.removeErrorCtl ctl kernel event fd
  | false, .read => self.removeReadCtl ctl kernel event fd
  | false, .write => self.removeWriteCtl ctl kernel event fd

/-- The mask that an operation is for. -/
def wanted : UInt32 :=
  if add then self.eventMask fd ||| Multiplexer.bit Poll branch else self.eventMask fd &&& ~~~Multiplexer.bit Poll branch

def wantedOp : CtlOp :=
  if add then (if self.eventMask fd ≠ 0 then .mod else .add) else if self.wanted fd add branch ≠ 0 then .mod else .del

/-- The mask is a new one, and `epoll_ctl` fails to set it. -/
def Refused : Prop :=
  self.eventMask fd ≠ self.wanted fd add branch ∧
    (ctl kernel (self.wantedOp fd add branch) fd { events := self.wanted fd add branch, ptr := event }).2 = false

theorem changeCtl_eq :
    self.changeCtl ctl kernel event fd add branch =
      self.modifyCtl ctl kernel event fd (self.wantedOp fd add branch) (self.wanted fd add branch) := by
  cases add <;> cases branch <;> rfl

theorem changeCtl_thrown :
    (self.changeCtl ctl kernel event fd add branch).thrown.isSome ↔ self.Refused ctl kernel event fd add branch := by
  rw [changeCtl_eq, modifyCtl, Refused]
  split
  next same => simp [same]
  next other =>
    dsimp only
    cases (ctl kernel (self.wantedOp fd add branch) fd { events := self.wanted fd add branch, ptr := event }).2 <;> simp [other]

variable {ctl self kernel event fd add branch}

theorem changeCtl_eventMask (inside : 0 ≤ fd ∧ fd < self.table.length)
    (refused : self.Refused ctl kernel event fd add branch) :
    (self.changeCtl ctl kernel event fd add branch).poll.eventMask fd = self.wanted fd add branch := by
  rw [changeCtl_eq, modifyCtl, if_neg refused.1]
  change (self.setEventMask fd _).eventMask fd = _
  rw [eventMask_setEventMask inside, Function.update_self]

theorem wanted_of_eventMask {poll : Poll} (same : poll.eventMask fd = self.wanted fd add branch) :
    poll.wanted fd add branch = poll.eventMask fd := by
  unfold wanted at same ⊢
  cases add with
  | true =>
    rw [if_pos rfl] at same ⊢
    rw [same, UInt32.or_assoc, UInt32.or_self]
  | false =>
    rw [if_neg Bool.false_ne_true] at same ⊢
    rw [same, UInt32.and_assoc, UInt32.and_self]

/-- The retry finds the mask it wants and returns, whatever the kernel would say. -/
theorem changeCtl_again (inside : 0 ≤ fd ∧ fd < self.table.length) (refused : self.Refused ctl kernel event fd add branch)
    (later : κ) :
    (self.changeCtl ctl kernel event fd add branch).poll.changeCtl ctl later event fd add branch =
      { poll := (self.changeCtl ctl kernel event fd add branch).poll, kernel := later } := by
  have settled := wanted_of_eventMask (changeCtl_eventMask inside refused)
  rw [changeCtl_eq ctl (changeCtl ..).poll, modifyCtl, if_pos settled.symm]

theorem changeCtl_undone_iff :
    Undone (fun poll kernel => poll.changeCtl ctl kernel event fd add branch) self kernel self.table.length fd ↔
      ¬ self.Refused ctl kernel event fd add branch := by
  rw [← changeCtl_thrown]
  apply undone_iff_of_changes
  intro thrown inside same
  have refused := (changeCtl_thrown ctl self kernel event fd add branch).mp thrown
  apply refused.1
  rw [← changeCtl_eventMask inside refused, same]

end Poll

namespace PollKQueue

variable {κ : Type} (kevent : κ → Bool → Filter → Int → Nat → κ × Option Nat) (self : PollKQueue) (kernel : κ)
  (event : Nat) (fd : Int) (add : Bool) (branch : Branch)

def changeCtl : Controlled PollKQueue κ :=
  match add, branch with
  | true, .error => self.insertErrorCtl kernel
  | true, .read => self.insertReadCtl kevent kernel event fd
  | true, .write => self.insertWriteCtl kevent kernel event fd
  | false, .error => self.removeErrorCtl kernel
  | false, .read => self.removeReadCtl kevent kernel event fd
  | false, .write => self.removeWriteCtl kevent kernel event fd

def wanted : UInt32 :=
  if add then self.eventMask fd ||| bit branch else self.eventMask fd &&& ~~~bit branch

/-- There is a filter for the branch and the flag is not as wanted, and `kevent` fails to change
the filter. -/
def Refused : Prop :=
  branch ≠ .error ∧ (self.eventMask fd &&& bit branch = 0 ↔ add) ∧
    (kevent kernel add (filter branch) fd event).2.isSome

theorem changeCtl_error : self.changeCtl kevent kernel event fd add .error = { poll := self, kernel } := by
  cases add <;> rfl

variable {branch}

theorem changeCtl_eq (own : branch ≠ .error) :
    self.changeCtl kevent kernel event fd add branch =
      if self.eventMask fd &&& bit branch = 0 ↔ add then
        (self.setEventMask fd (self.wanted fd add branch)).modifyCtl kevent kernel event fd add (filter branch)
      else { poll := self, kernel } := by
  cases add with
  | true =>
    simp only [iff_true, ← ite_not (self.eventMask fd &&& bit branch = 0)]
    cases branch with
    | error => exact absurd rfl own
    | read | write => rfl
  | false =>
    simp only [Bool.false_eq_true, iff_false, ite_not]
    cases branch with
    | error => exact absurd rfl own
    | read | write => rfl

theorem changeCtl_thrown (branch : Branch) :
    (self.changeCtl kevent kernel event fd add branch).thrown.isSome ↔ self.Refused kevent kernel event fd add branch := by
  by_cases own : branch = .error
  · subst own
    rw [changeCtl_error]
    simp [Refused]
  · rw [changeCtl_eq kevent self kernel event fd add own, Refused]
    split
    next asked => simp [modifyCtl, own, asked]
    next settled => simp [settled]

variable {kevent self kernel event fd add}

theorem changeCtl_eventMask (inside : 0 ≤ fd ∧ fd < self.table.length)
    (refused : self.Refused kevent kernel event fd add branch) :
    (self.changeCtl kevent kernel event fd add branch).poll.eventMask fd = self.wanted fd add branch := by
  rw [changeCtl_eq kevent self kernel event fd add refused.1, if_pos refused.2.1]
  change (self.setEventMask fd _).eventMask fd = _
  rw [eventMask_setEventMask inside, Function.update_self]

theorem bit_ne_zero (own : branch ≠ .error) : bit branch ≠ 0 := by
  cases branch with
  | error => exact absurd rfl own
  | read | write => decide

theorem settled_of_wanted (own : branch ≠ .error) :
    ¬ (self.wanted fd add branch &&& bit branch = 0 ↔ add) := by
  unfold wanted
  cases add with
  | true =>
    rw [if_pos rfl, mask_or_and]
    simp [bit_ne_zero own]
  | false =>
    rw [if_neg Bool.false_ne_true, mask_and_not_and]
    simp

theorem changeCtl_again (inside : 0 ≤ fd ∧ fd < self.table.length)
    (refused : self.Refused kevent kernel event fd add branch) (later : κ) :
    (self.changeCtl kevent kernel event fd add branch).poll.changeCtl kevent later event fd add branch =
      { poll := (self.changeCtl kevent kernel event fd add branch).poll, kernel := later } := by
  rw [changeCtl_eq kevent (changeCtl ..).poll later event fd add refused.1, changeCtl_eventMask inside refused,
    if_neg (settled_of_wanted refused.1)]

theorem changeCtl_undone_iff :
    Undone (fun poll kernel => poll.changeCtl kevent kernel event fd add branch) self kernel self.table.length fd ↔
      ¬ self.Refused kevent kernel event fd add branch := by
  rw [← changeCtl_thrown]
  apply undone_iff_of_changes
  intro thrown inside same
  have refused := (changeCtl_thrown kevent self kernel event fd add branch).mp thrown
  have settled := @settled_of_wanted self fd add branch refused.1
  rw [← changeCtl_eventMask inside refused, same] at settled
  exact settled refused.2.1

end PollKQueue

/-- With either kernel, a call that throws is undone only when none was refused. -/
theorem changes_undone_iff {κ : Type} (kernel : κ) (event : Nat) (fd : Int) (add : Bool) (branch : Branch) :
    (∀ (ctl : κ → CtlOp → Int → Registration → κ × Bool) (self : Poll),
      Undone (fun poll kernel => poll.changeCtl ctl kernel event fd add branch) self kernel self.table.length fd ↔
        ¬ self.Refused ctl kernel event fd add branch) ∧
    ∀ (kevent : κ → Bool → Filter → Int → Nat → κ × Option Nat) (self : PollKQueue),
      Undone (fun poll kernel => poll.changeCtl kevent kernel event fd add branch) self kernel self.table.length fd ↔
        ¬ self.Refused kevent kernel event fd add branch := by
  constructor
  · intro ctl self
    exact Poll.changeCtl_undone_iff
  · intro kevent self
    exact PollKQueue.changeCtl_undone_iff

/-- An interest in reading that was refused is in the table all the same. -/
theorem refused_not_undone :
    ¬ Undone (fun (poll : Poll) (kernel : Unit) => poll.changeCtl (fun _ _ _ _ => ((), false)) kernel 1 0 true .read)
      { table := [0], events := [] } () 1 0 := by
  intro undone
  have table := undone.table rfl
  exact absurd (congrArg Poll.table table) (by decide)

end LibWebserver
