import LibWebserver.Dispatch

/-! A closed event is taken out of the batch, so that no later entry can reach it.
Within one entry epoll keeps the pointer it loaded, and there it is up to the
handlers; kqueue reports one branch an entry. -/

namespace LibWebserver

namespace Touch

/-- The event that is looked at or called. -/
def event : Touch → Nat
  | .look event => event
  | .call _ event _ _ _ => event

def closed : Touch → List Nat
  | .look _ => []
  | .call _ _ _ closed _ => closed

/-- Whatever comes later does not touch an event closed here. -/
def Spares (earlier later : Touch) : Prop := later.event ∉ earlier.closed

instance (earlier later : Touch) : Decidable (earlier.Spares later) := inferInstanceAs (Decidable (_ ∉ _))

end Touch

/-- The branches `Perform` comes to after a branch of the same entry. -/
def Branch.later : Branch → List Branch
  | .error => [.read, .write]
  | .read => [.write]
  | .write => []

/-- A handler that closes the event it was called for, and returns, leaves no branch
of the entry behind. -/
def Touch.Prudent : Touch → Prop
  | .look _ => True
  | .call branch event reported closed returned =>
    returned → event ∈ closed → ∀ other ∈ branch.later, other ∉ reported

/-- No event is touched after it has been closed. -/
def Untouched (trace : List Touch) : Prop := trace.Pairwise Touch.Spares

instance (trace : List Touch) : Decidable (Untouched trace) := inferInstanceAs (Decidable (trace.Pairwise _))

def closedEvents (trace : List Touch) : List Nat := trace.flatMap Touch.closed

theorem closedEvents_concat (trace : List Touch) (touch : Touch) :
    closedEvents (trace ++ [touch]) = closedEvents trace ++ touch.closed := by
  rw [closedEvents, List.flatMap_append, List.flatMap_singleton]
  rfl

theorem untouched_concat {trace : List Touch} {touch : Touch} :
    Untouched (trace ++ [touch]) ↔ Untouched trace ∧ touch.event ∉ closedEvents trace := by
  rw [Untouched, List.pairwise_append, closedEvents, List.mem_flatMap]
  constructor
  · rintro ⟨before, _, after⟩
    exact ⟨before, fun ⟨earlier, member, closed⟩ => after earlier member touch (List.mem_singleton_self _) closed⟩
  · rintro ⟨before, fresh⟩
    refine ⟨before, List.pairwise_singleton _ _, fun earlier member later last closed => ?_⟩
    rw [List.mem_singleton.mp last] at closed
    exact fresh ⟨earlier, member, closed⟩

def AllPrudent (trace : List Touch) : Prop := ∀ touch ∈ trace, touch.Prudent

theorem allPrudent_concat {trace : List Touch} {touch : Touch} :
    AllPrudent (trace ++ [touch]) ↔ AllPrudent trace ∧ touch.Prudent := by
  unfold AllPrudent
  rw [List.forall_mem_append, List.forall_mem_singleton]

private theorem take_out (ptr : Option Nat) (event : Nat) :
    (if ptr = some event then none else ptr) = ptr.filter (· ≠ event) := by
  cases ptr with
  | none => rfl
  | some other => by_cases same : other = event <;> simp [same, Option.filter]

/-- What a poll has to do for `Perform`: closing an event takes it out of every entry. -/
class LawfulMultiplexer (π : Type) [Multiplexer π] : Prop where
  setTable (poll : π) (table : List UInt32) (i : Nat) :
    Multiplexer.event (Multiplexer.setTable poll table) i = Multiplexer.event poll i
  closeEvent {poll after : π} {event : Nat} {fd : Int} (done : Multiplexer.closeEvent poll event fd = .ok after) (i : Nat) :
    Multiplexer.event after i = (Multiplexer.event poll i).filter (· ≠ event)

instance : LawfulMultiplexer Poll where
  setTable _ _ _ := rfl
  closeEvent {poll after event fd} done i := by
    change Poll.closeEvent poll event fd = _ at done
    change after.events[i]?.bind (·.ptr) = (poll.events[i]?.bind (·.ptr)).filter (· ≠ event)
    unfold Poll.closeEvent at done
    split at done
    · cases done
    · obtain rfl := Except.ok.inj done
      dsimp only
      rw [List.getElem?_map]
      cases poll.events[i]? with
      | none => rfl
      | some ready =>
        refine Eq.trans ?_ (take_out ready.ptr event)
        split_ifs with same
        · rw [Option.map_some, Option.bind_some, if_pos same]
        · rw [Option.map_some, Option.bind_some, if_neg same]

instance : LawfulMultiplexer PollKQueue where
  setTable _ _ _ := rfl
  closeEvent {poll after event fd} done i := by
    change PollKQueue.closeEvent poll event fd = _ at done
    change after.events[i]?.bind (·.udata) = (poll.events[i]?.bind (·.udata)).filter (· ≠ event)
    unfold PollKQueue.closeEvent at done
    split at done
    · cases done
    · obtain rfl := Except.ok.inj done
      dsimp only
      rw [List.getElem?_map]
      cases poll.events[i]? with
      | none => rfl
      | some ready =>
        refine Eq.trans ?_ (take_out ready.udata event)
        split_ifs with same
        · rw [Option.map_some, Option.bind_some, if_pos same]
        · rw [Option.map_some, Option.bind_some, if_neg same]

namespace Dispatch

variable {π : Type} [Multiplexer π]

theorem perform_trace (self : Dispatch π) (effects : List Effect) : (self.perform effects).1.trace = self.trace := by
  induction effects generalizing self with
  | nil => rfl
  | cons effect effects ih =>
    cases effect with
    | throw => rfl
    | change state descriptor table => exact ih _
    | close event =>
      unfold perform
      split
      · rfl
      · exact ih _

theorem perform_event [LawfulMultiplexer π] (self : Dispatch π) (effects : List Effect) (returned : (self.perform effects).1.returned) (i : Nat) :
    Multiplexer.event (self.perform effects).1.poll i =
      (Multiplexer.event self.poll i).filter (· ∉ (self.perform effects).2) := by
  induction effects generalizing self with
  | nil =>
    change Multiplexer.event self.poll i = (Multiplexer.event self.poll i).filter (· ∉ ([] : List Nat))
    cases Multiplexer.event self.poll i <;> simp [Option.filter]
  | cons effect effects ih =>
    cases effect with
    | throw => cases returned
    | change state descriptor table => exact (ih _ returned).trans (by rw [LawfulMultiplexer.setTable]; rfl)
    | close event =>
      unfold perform at returned ⊢
      cases done : Multiplexer.closeEvent self.poll event (self.descriptor event) with
      | error why =>
        rw [done] at returned
        cases returned
      | ok poll =>
        rw [done] at returned
        dsimp only at returned ⊢
        rw [ih _ returned, LawfulMultiplexer.closeEvent done, Option.filter_filter]
        congr 1
        funext other
        simp [not_or]

/-- No entry of the batch points to an event that has been closed. -/
def Hidden (self : Dispatch π) : Prop :=
  ∀ i event, Multiplexer.event self.poll i = some event → event ∉ closedEvents self.trace

/-- Between two entries: either the run is beyond repair and some handler is to
blame, or nothing has gone wrong. -/
def Steady (self : Dispatch π) : Prop :=
  (¬ Untouched self.trace ∧ ¬ AllPrudent self.trace) ∨
    (Untouched self.trace ∧ AllPrudent self.trace ∧ (self.returned → self.Hidden))

/-- Within an entry, with some of its branches still to come. -/
def Tracks (event : Nat) (reported rest : List Branch) (self : Dispatch π) : Prop :=
  (¬ Untouched self.trace ∧ ¬ AllPrudent self.trace) ∨
    (Untouched self.trace ∧ (self.returned → self.Hidden) ∧
      (AllPrudent self.trace ↔
        (self.returned → event ∈ closedEvents self.trace → ∀ other ∈ rest, other ∉ reported)))

theorem Steady.tracks {self : Dispatch π} (steady : self.Steady) {i event : Nat}
    (loaded : Multiplexer.event self.poll i = some event) (reported rest : List Branch) :
    self.Tracks event reported rest := by
  rcases steady with broken | ⟨untouched, prudent, hidden⟩
  · exact .inl broken
  · exact .inr ⟨untouched, hidden, iff_of_true prudent fun returned closed => absurd closed (hidden returned i event loaded)⟩

theorem Tracks.steady {self : Dispatch π} {event : Nat} {reported : List Branch} (tracks : self.Tracks event reported []) :
    self.Steady := by
  rcases tracks with broken | ⟨untouched, hidden, prudent⟩
  · exact .inl broken
  · exact .inr ⟨untouched, prudent.mpr fun _ _ => List.forall_mem_nil _, hidden⟩

theorem Untouched.fails {trace : List Touch} {touch : Touch} (fails : ¬ Untouched trace ∧ ¬ AllPrudent trace) :
    ¬ Untouched (trace ++ [touch]) ∧ ¬ AllPrudent (trace ++ [touch]) :=
  ⟨fun untouched => fails.1 (untouched_concat.mp untouched).1, fun prudent => fails.2 (allPrudent_concat.mp prudent).1⟩

theorem branch_cases [LawfulMultiplexer π] (handlers : Handlers) (event : Nat) {reported : List Branch} {self : Dispatch π}
    {branch : Branch} (returned : self.returned) (member : branch ∈ reported) :
    self.branch handlers (some event) reported branch = { self with trace := self.trace ++ [.look event] } ∨
    ∃ closed back, (self.branch handlers (some event) reported branch).trace =
        self.trace ++ [.look event] ++ [.call branch event reported closed back] ∧
      (self.branch handlers (some event) reported branch).returned = back ∧
      (back → ∀ i, Multiplexer.event (self.branch handlers (some event) reported branch).poll i =
        (Multiplexer.event self.poll i).filter (· ∉ closed)) := by
  unfold Dispatch.branch
  rw [if_neg (by simp [returned, member])]
  dsimp only
  split_ifs
  · exact .inl rfl
  · exact .inl rfl
  · right
    unfold Dispatch.call
    refine ⟨_, _, rfl, rfl, fun back i => ?_⟩
    exact perform_event _ _ back i

theorem Tracks.passed [LawfulMultiplexer π] {self : Dispatch π} (handlers : Handlers) {event : Nat}
    {reported rest : List Branch} {branch : Branch} (passed : self.returned → branch ∉ reported)
    (tracks : self.Tracks event reported (branch :: rest)) :
    (self.branch handlers (some event) reported branch).Tracks event reported rest := by
  have same : self.branch handlers (some event) reported branch = self := by
    unfold Dispatch.branch
    rw [if_pos]
    by_cases returned : self.returned = true
    · exact .inr (passed returned)
    · exact .inl returned
  rw [same]
  rcases tracks with fails | ⟨untouched, hidden, blame⟩
  · exact .inl fails
  · refine .inr ⟨untouched, hidden, blame.trans ?_⟩
    refine forall₂_congr fun returned _ => ?_
    rw [List.forall_mem_cons]
    exact and_iff_right fun member => passed returned member

/-- Where something has gone wrong, or the event is closed, the look already goes wrong,
whatever the handler does. -/
theorem Tracks.broken [LawfulMultiplexer π] {self : Dispatch π} (handlers : Handlers) {event : Nat}
    {reported rest : List Branch} {branch : Branch} (returned : self.returned) (member : branch ∈ reported)
    (broken : (¬ Untouched self.trace ∧ ¬ AllPrudent self.trace) ∨ event ∈ closedEvents self.trace)
    (tracks : self.Tracks event reported (branch :: rest)) :
    (self.branch handlers (some event) reported branch).Tracks event reported rest := by
  have looked : ¬ Untouched (self.trace ++ [.look event]) ∧ ¬ AllPrudent (self.trace ++ [.look event]) := by
    rcases broken with fails | closed
    · exact Untouched.fails fails
    · refine ⟨fun untouched => (untouched_concat.mp untouched).2 closed, fun prudent => ?_⟩
      have before := (allPrudent_concat.mp prudent).1
      rcases tracks with fails | ⟨_, _, blame⟩
      · exact fails.2 before
      · exact blame.mp before returned closed branch List.mem_cons_self member
  left
  rcases branch_cases handlers event returned member with same | ⟨closed, back, trace, _, _⟩
  · rw [same]
    exact looked
  · rw [trace]
    exact Untouched.fails looked

/-- A branch that is taken while nothing has gone wrong: what the handler closes decides. -/
theorem Tracks.taken [LawfulMultiplexer π] {self : Dispatch π} (handlers : Handlers) {event : Nat}
    {reported rest : List Branch} {branch : Branch} (later : branch.later = rest) (returned : self.returned)
    (member : branch ∈ reported) (untouched : Untouched self.trace) (prudent : AllPrudent self.trace)
    (hidden : self.Hidden) (opened : event ∉ closedEvents self.trace) :
    (self.branch handlers (some event) reported branch).Tracks event reported rest := by
  have looked : Untouched (self.trace ++ [.look event]) := untouched_concat.mpr ⟨untouched, opened⟩
  have closedBefore : closedEvents (self.trace ++ [.look event]) = closedEvents self.trace := by
    rw [closedEvents_concat]
    exact List.append_nil _
  right
  rcases branch_cases handlers event returned member with same | ⟨closed, back, trace, finished, batch⟩
  · rw [same]
    refine ⟨looked, fun _ i other loaded => ?_, ?_⟩
    · dsimp only
      rw [closedBefore]
      exact hidden i other loaded
    · refine iff_of_true (allPrudent_concat.mpr ⟨prudent, trivial⟩) fun _ member => ?_
      dsimp only at member
      rw [closedBefore] at member
      exact absurd member opened
  · have closedAfter : closedEvents (self.branch handlers (some event) reported branch).trace =
        closedEvents self.trace ++ closed := by
      rw [trace, closedEvents_concat, closedBefore]
      rfl
    refine ⟨?_, fun alive i other loaded => ?_, ?_⟩
    · rw [trace]
      exact untouched_concat.mpr ⟨looked, by rw [closedBefore]; exact opened⟩
    · rw [finished] at alive
      rw [batch alive i, Option.filter_eq_some_iff] at loaded
      rw [closedAfter, List.mem_append, not_or]
      exact ⟨hidden i other loaded.1, by simpa using loaded.2⟩
    · have own : AllPrudent (self.branch handlers (some event) reported branch).trace ↔
          Touch.Prudent (.call branch event reported closed back) := by
        rw [trace, allPrudent_concat, allPrudent_concat]
        exact ⟨And.right, fun call => ⟨⟨prudent, trivial⟩, call⟩⟩
      rw [own, finished, closedAfter, List.mem_append, or_iff_right opened, ← later]
      rfl

theorem Tracks.branch [LawfulMultiplexer π] {self : Dispatch π} (handlers : Handlers) {event : Nat}
    {reported rest : List Branch} {branch : Branch} (later : branch.later = rest)
    (tracks : self.Tracks event reported (branch :: rest)) :
    (self.branch handlers (some event) reported branch).Tracks event reported rest := by
  by_cases taken : self.returned = true ∧ branch ∈ reported
  · obtain ⟨returned, member⟩ := taken
    by_cases broken : (¬ Untouched self.trace ∧ ¬ AllPrudent self.trace) ∨ event ∈ closedEvents self.trace
    · exact tracks.broken handlers returned member broken
    · obtain ⟨sound, opened⟩ := not_or.mp broken
      rcases tracks with fails | ⟨untouched, hidden, blame⟩
      · exact absurd fails sound
      · have prudent : AllPrudent self.trace := blame.mpr fun _ closed => absurd closed opened
        exact Tracks.taken handlers later returned member untouched prudent (hidden returned) opened
  · exact tracks.passed handlers fun returned member => taken ⟨returned, member⟩

theorem branch_none (handlers : Handlers) (reported : List Branch) (self : Dispatch π) (branch : Branch) :
    self.branch handlers none reported branch = self := by
  unfold Dispatch.branch
  split_ifs <;> rfl

theorem branch_prudent (handlers : Handlers) (event : Option Nat) {reported : List Branch} {self : Dispatch π}
    {branch : Branch} (alone : branch ∈ reported → ∀ other ∈ branch.later, other ∉ reported)
    (prudent : AllPrudent self.trace) : AllPrudent (self.branch handlers event reported branch).trace := by
  unfold Dispatch.branch
  split
  next => exact prudent
  next taken =>
    have member : branch ∈ reported := by
      by_contra absent
      exact taken (.inr absent)
    cases event with
    | none => exact prudent
    | some event =>
      have looked : AllPrudent (self.trace ++ [.look event]) := allPrudent_concat.mpr ⟨prudent, trivial⟩
      dsimp only
      split_ifs
      · exact looked
      · exact looked
      · exact allPrudent_concat.mpr ⟨looked, fun _ _ => alone member⟩

theorem steady_foldl {entry : Dispatch π → Nat → Dispatch π}
    (keeps : ∀ (self : Dispatch π) (i : Nat), self.Steady → (entry self i).Steady) (indices : List Nat) {self : Dispatch π}
    (steady : self.Steady) : (indices.foldl entry self).Steady := by
  induction indices generalizing self with
  | nil => exact steady
  | cons i indices ih => exact ih (keeps self i steady)

theorem Steady.start (poll : π) (state : Nat → State) (descriptor : Nat → Int) :
    Steady ({ poll, state, descriptor } : Dispatch π) :=
  .inr ⟨List.Pairwise.nil, List.forall_mem_nil _, fun _ _ _ _ => List.not_mem_nil⟩

theorem Steady.iff {self : Dispatch π} (steady : self.Steady) : Untouched self.trace ↔ AllPrudent self.trace := by
  rcases steady with ⟨touched, imprudent⟩ | ⟨untouched, prudent, _⟩
  · exact iff_of_false touched imprudent
  · exact iff_of_true untouched prudent

end Dispatch

open Dispatch

theorem Poll.entry_steady (handlers : Handlers) (self : Dispatch Poll) (i : Nat) (steady : self.Steady) :
    (Poll.entry handlers self i).Steady := by
  unfold Poll.entry
  split
  next => exact steady
  next ready at' =>
    cases loaded : ready.ptr with
    | none =>
      simp only [List.foldl_cons, List.foldl_nil, branch_none]
      exact steady
    | some event =>
      have here : Multiplexer.event self.poll i = some event := by
        change self.poll.events[i]?.bind (·.ptr) = some event
        rw [at', Option.bind_some, loaded]
      exact (((steady.tracks here (reported ready.events) _).branch handlers rfl).branch handlers rfl |>.branch handlers rfl).steady

theorem PollKQueue.entry_steady (handlers : Handlers) (self : Dispatch PollKQueue) (i : Nat)
    (steady : self.Steady) : (PollKQueue.entry handlers self i).Steady := by
  unfold PollKQueue.entry
  by_cases stopped : self.returned = true
  case neg =>
    rw [if_pos stopped]
    exact steady
  rw [if_neg (not_not.mpr stopped)]
  split
  next => exact steady
  next ready at' =>
    have here (event : Nat) (loaded : ready.udata = some event) : Multiplexer.event self.poll i = some event := by
      change self.poll.events[i]?.bind (·.udata) = some event
      rw [at', Option.bind_some, loaded]
    split
    next error _ =>
      split_ifs
      · exact steady
      · cases loaded : ready.udata with
        | none =>
          rcases steady with fails | ⟨untouched, prudent, _⟩
          · exact .inl (by simpa using fails)
          · exact .inr ⟨by simpa using untouched, by simpa using prudent, fun back => nomatch back⟩
        | some event =>
          rcases steady with fails | ⟨untouched, prudent, hidden⟩
          · exact .inl (Untouched.fails fails)
          · have opened := hidden stopped i event (here event loaded)
            exact .inr ⟨untouched_concat.mpr ⟨untouched, opened⟩, allPrudent_concat.mpr ⟨prudent, trivial⟩,
              fun back => nomatch back⟩
    next =>
      cases loaded : ready.udata with
      | none =>
        simp only [List.foldl_cons, List.foldl_nil, branch_none]
        exact steady
      | some event =>
        exact ((steady.tracks (here event loaded) (reported ready.filter) _).branch handlers rfl |>.branch handlers rfl).steady

/-- One filter is one branch, and no other branch of the entry is reported. -/
theorem PollKQueue.reported_alone (filter : Filter) {branch : Branch} (member : branch ∈ reported filter) :
    ∀ other ∈ branch.later, other ∉ reported filter := by
  cases filter with
  | read =>
    obtain rfl := List.mem_singleton.mp member
    decide
  | write =>
    obtain rfl := List.mem_singleton.mp member
    decide
  | other => cases member

theorem PollKQueue.entry_prudent (handlers : Handlers) (self : Dispatch PollKQueue) (i : Nat)
    (prudent : AllPrudent self.trace) : AllPrudent (PollKQueue.entry handlers self i).trace := by
  unfold PollKQueue.entry
  split
  next => exact prudent
  split
  next => exact prudent
  next ready _ =>
    split
    next error _ =>
      split_ifs
      · exact prudent
      · cases ready.udata with
        | none => exact (List.append_nil self.trace).symm ▸ prudent
        | some event => exact allPrudent_concat.mpr ⟨prudent, trivial⟩
    next =>
      have alone := fun branch => @reported_alone ready.filter branch
      exact branch_prudent handlers _ (alone .write) (branch_prudent handlers _ (alone .read) prudent)

theorem PollKQueue.prudent_foldl (handlers : Handlers) (indices : List Nat) {self : Dispatch PollKQueue}
    (prudent : AllPrudent self.trace) : AllPrudent (indices.foldl (PollKQueue.entry handlers) self).trace := by
  induction indices generalizing self with
  | nil => exact prudent
  | cons i indices ih => exact ih (entry_prudent handlers self i prudent)

theorem Poll.perform_trace (handlers : Handlers) (self : Dispatch Poll) :
    (Poll.perform handlers self).trace =
      ((List.range self.poll.events.length).foldl (Poll.entry handlers) self).trace := by
  unfold Poll.perform
  dsimp only
  split_ifs <;> rfl

theorem PollKQueue.perform_trace (handlers : Handlers) (self : Dispatch PollKQueue) :
    (PollKQueue.perform handlers self).trace =
      ((List.range self.poll.events.length).foldl (PollKQueue.entry handlers) self).trace := by
  unfold PollKQueue.perform
  dsimp only
  split_ifs <;> rfl

/-- In a batch of epoll no event is touched after it has been closed exactly when no
handler closes the event it was called for while a later branch of the same entry is
due; in a batch of kqueue none ever is. -/
theorem closed_untouched_iff (handlers : Handlers) (state : Nat → State) (descriptor : Nat → Int) :
    (∀ poll : Poll, Untouched (Poll.perform handlers { poll, state, descriptor }).trace ↔
      ∀ touch ∈ (Poll.perform handlers { poll, state, descriptor }).trace, touch.Prudent) ∧
    ∀ poll : PollKQueue, Untouched (PollKQueue.perform handlers { poll, state, descriptor }).trace := by
  constructor
  · intro poll
    rw [Poll.perform_trace]
    exact (steady_foldl (Poll.entry_steady handlers) _ (Steady.start poll state descriptor)).iff
  · intro poll
    rw [PollKQueue.perform_trace]
    refine (steady_foldl (PollKQueue.entry_steady handlers) _ (Steady.start poll state descriptor)).iff.mpr ?_
    exact PollKQueue.prudent_foldl handlers _ (List.forall_mem_nil _)

/-- A connection that is ready to be read when its error is reported. Its `EventError`
gives up its interests and closes it. -/
theorem closed_touched :
    ¬ ∀ (handlers : Handlers) (poll : Poll) (state : Nat → State) (descriptor : Nat → Int),
      Untouched (Poll.perform handlers { poll, state, descriptor }).trace := by
  intro always
  let closes : Handlers := fun _ _ event => [.change (fun _ => .closing) (fun _ => 0) [0], .close event]
  have untouched := always closes { table := [13], events := [{ ptr := some 7, events := 9 }] } (fun _ => .connected) fun _ => 0
  revert untouched
  decide

end LibWebserver
