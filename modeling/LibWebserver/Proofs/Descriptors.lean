import LibWebserver.Process
import LibWebserver.Proofs.Registrations
import LibWebserver.Proofs.Registry

/-! Which calls of `SetEventMask_` stay inside their table. Taking an interest away
never leaves it, since only an entry of the table has one; an interest is added for a
connection that has just been admitted, or for one that is connected. -/

namespace LibWebserver

def MaskCall.InTable (call : MaskCall) : Prop := 0 ≤ call.descriptor ∧ call.descriptor < call.size

instance (call : MaskCall) : Decidable call.InTable := inferInstanceAs (Decidable (_ ∧ _))

theorem Poll.eventMask_outside {self : Poll} {fd : Int} (outside : ¬ (0 ≤ fd ∧ fd < self.table.length)) :
    self.eventMask fd = 0 := by
  unfold eventMask
  split_ifs with valid
  · rw [List.getD_eq_getElem?_getD, List.getElem?_eq_none (by omega)]
    rfl
  · rfl

namespace Endpoint

variable {bit : Branch → UInt32} {self : Endpoint}

/-- What no operation on the poll changes, and what it records. -/
structure Keeps (before after : Endpoint) : Prop where
  fd : after.fd = before.fd
  length : after.poll.table.length = before.poll.table.length
  calls : ∃ more, after.calls = before.calls ++ more ∧
    ∀ call ∈ more, call.descriptor = before.fd ∧ call.size = before.poll.table.length

theorem Keeps.refl (self : Endpoint) : Keeps self self := ⟨rfl, rfl, [], (List.append_nil _).symm, List.forall_mem_nil _⟩

theorem Keeps.trans {middle after : Endpoint} (first : Keeps self middle) (last : Keeps middle after) : Keeps self after := by
  obtain ⟨more, calls, here⟩ := first.calls
  obtain ⟨rest, later, there⟩ := last.calls
  refine ⟨last.fd.trans first.fd, last.length.trans first.length, more ++ rest, ?_, ?_⟩
  · rw [later, calls, List.append_assoc]
  · rw [List.forall_mem_append]
    exact ⟨here, fun call member => by rw [← first.fd, ← first.length]; exact there call member⟩

theorem modify_keeps (self : Endpoint) (mask : UInt32) : Keeps self (self.modify mask) := by
  unfold modify
  split_ifs
  · exact Keeps.refl self
  · refine ⟨rfl, ?_, [_], rfl, fun call member => by rw [List.mem_singleton.mp member]; exact ⟨rfl, rfl⟩⟩
    dsimp only
    unfold Poll.setEventMask
    split_ifs
    · rw [List.length_set]
    · rfl

theorem insert_keeps (bit : Branch → UInt32) (self : Endpoint) (branch : Branch) : Keeps self (self.insert bit branch) := modify_keeps _ _

theorem remove_keeps (bit : Branch → UInt32) (self : Endpoint) (branch : Branch) : Keeps self (self.remove bit branch) := modify_keeps _ _

/-- Calls that stay inside, as long as those before did. -/
def Inside (self : Endpoint) : Prop := ∀ call ∈ self.calls, call.InTable

theorem Keeps.inside {after : Endpoint} (keeps : Keeps self after) (inside : self.Inside)
    (range : 0 ≤ self.fd ∧ self.fd < self.poll.table.length) : after.Inside := by
  obtain ⟨more, calls, here⟩ := keeps.calls
  unfold Inside
  rw [calls, List.forall_mem_append]
  refine ⟨inside, fun call member => ?_⟩
  obtain ⟨descriptor, size⟩ := here call member
  rw [MaskCall.InTable, descriptor, size]
  exact range

theorem Inside.insert (inside : self.Inside) (range : 0 ≤ self.fd ∧ self.fd < self.poll.table.length) (branch : Branch) :
    (self.insert bit branch).Inside :=
  (insert_keeps bit self branch).inside inside range

theorem Inside.remove (inside : self.Inside) (branch : Branch) : (self.remove bit branch).Inside := by
  by_cases range : 0 ≤ self.fd ∧ self.fd < self.poll.table.length
  · exact (remove_keeps bit self branch).inside inside range
  · have same : self.remove bit branch = self := by
      rw [Endpoint.remove, modify, Poll.eventMask_outside range, UInt32.zero_and, if_pos rfl]
    rw [same]
    exact inside

theorem initialise_keeps (self : Endpoint) : Keeps self (self.initialise bit) := by
  unfold initialise
  split
  · exact Keeps.refl self
  · obtain ⟨fd, length, calls⟩ :=
      ((insert_keeps bit self .read).trans (insert_keeps bit _ .write)).trans (insert_keeps bit _ .error)
    exact ⟨fd, length, calls⟩

theorem Inside.initialise (inside : self.Inside) (range : 0 ≤ self.fd ∧ self.fd < self.poll.table.length) :
    (self.initialise bit).Inside := by
  have follows {after : Endpoint} (keeps : Keeps self after) : 0 ≤ after.fd ∧ after.fd < after.poll.table.length := by
    rw [keeps.fd, keeps.length]
    exact range
  have first := insert_keeps bit self .read
  unfold Endpoint.initialise
  split
  · exact inside
  · have second := first.trans (insert_keeps bit (self.insert bit .read) .write)
    have two : ((self.insert bit .read).insert bit .write).Inside := (inside.insert range .read).insert (follows first) .write
    have three : (((self.insert bit .read).insert bit .write).insert bit .error).Inside := two.insert (follows second) .error
    exact fun call made => three call made

/-- The first interest of a descriptor outside the table is written there. -/
theorem initialise_outside (outside : ¬ (0 ≤ self.fd ∧ self.fd < self.poll.table.length)) (read : bit .read ≠ 0) :
    ∃ call ∈ (self.initialise bit).calls, ¬ call.InTable := by
  have none := Poll.eventMask_outside outside
  have opens : self.poll.openEvent self.fd = .ok self.poll := if_neg (not_not.mpr none)
  have first : (self.insert bit .read).calls =
      self.calls ++ [{ descriptor := self.fd, size := self.poll.table.length }] := by
    rw [insert, modify, none, UInt32.zero_or, if_neg (Ne.symm read)]
  obtain ⟨more, calls, _⟩ := ((insert_keeps bit (self.insert bit .read) .write).trans (insert_keeps bit _ .error)).calls
  refine ⟨{ descriptor := self.fd, size := self.poll.table.length }, ?_, outside⟩
  rw [initialise, opens]
  change _ ∈ (((self.insert bit .read).insert bit .write).insert bit .error).calls
  rw [calls, first]
  simp

/-- Closing gives interests up and may give the descriptor up; nothing is added. -/
structure Closes (before after : Endpoint) : Prop where
  length : after.poll.table.length = before.poll.table.length
  state : after.state = .closing
  inside : before.Inside → after.Inside
  calls : before.calls <+: after.calls

theorem close_closes (self : Endpoint) (event : Nat) : Closes self (self.close bit event) := by
  unfold close
  split_ifs with closing
  · exact ⟨rfl, closing, id, List.prefix_rfl⟩
  · have state (endpoint : Endpoint) (branch : Branch) : (endpoint.remove bit branch).state = endpoint.state := by
      unfold Endpoint.remove modify
      split_ifs <;> rfl
    have keeps := ((remove_keeps bit { self with state := .closing } .read).trans (remove_keeps bit _ .write)).trans
      (remove_keeps bit _ .error)
    have removed : Closes self ((({ self with state := .closing }.remove bit .read).remove bit .write).remove bit .error) := by
      refine ⟨keeps.length, by rw [state, state, state], fun inside => ?_, ?_⟩
      · have same : Inside { self with state := .closing } := inside
        exact ((same.remove .read).remove .write).remove .error
      · obtain ⟨more, calls, _⟩ := keeps.calls
        exact ⟨more, calls.symm⟩
    dsimp only
    split
    · exact removed
    next poll closed =>
      have table := Poll.closeEvent_table closed
      exact ⟨(congrArg List.length table).trans removed.length, removed.state, removed.inside, removed.calls⟩

end Endpoint

namespace Process

variable {bit : Branch → UInt32} {self : Process}

/-- Tables have the size of their server, descriptors of connections that may still add
an interest lie inside them, and nothing has been written outside one. -/
structure Sized (process : Process) : Prop where
  server : ∀ s server, process.server s = some server → server.poll.table.length = process.maxConnects + 10
  member : ∀ c member, process.member c = some member → member.state = .connected →
    0 ≤ member.fd ∧ member.fd < (process.maxConnects + 10 : Nat)
  listener : ∀ l endpoint, process.listener l = some endpoint → endpoint.Inside
  calls : ∀ call ∈ process.calls, call.InTable

theorem Sized.of_opened (sized : self.Sized) (opened : List Nat) : Sized { self with opened } :=
  ⟨sized.server, sized.member, sized.listener, sized.calls⟩

theorem forall_update {β : Type} {holds : β → Prop} {f : Nat → Option β} {i : Nat} {value : Option β}
    (own : ∀ b, value = some b → holds b) (others : ∀ j b, f j = some b → holds b) :
    ∀ j b, Function.update f i value j = some b → holds b := by
  intro j b there
  rw [Function.update_apply] at there
  split_ifs at there
  · exact own b there
  · exact others j b there

theorem Sized.setServer (sized : self.Sized) (s : Nat) {value : Option Server}
    (own : ∀ server, value = some server → server.poll.table.length = self.maxConnects + 10) :
    Sized { self with server := Function.update self.server s value } :=
  ⟨forall_update own sized.server, sized.member, sized.listener, sized.calls⟩

theorem Sized.setMember (sized : self.Sized) (c : Nat) {value : Option Member}
    (own : ∀ member, value = some member → member.state = .connected →
      0 ≤ member.fd ∧ member.fd < (self.maxConnects + 10 : Nat)) :
    Sized { self with member := Function.update self.member c value } :=
  ⟨sized.server, forall_update own sized.member, sized.listener, sized.calls⟩

theorem Sized.setListener (sized : self.Sized) (l : Nat) {value : Option Endpoint}
    (own : ∀ endpoint, value = some endpoint → endpoint.Inside) :
    Sized { self with listener := Function.update self.listener l value } :=
  ⟨sized.server, sized.member, forall_update own sized.listener, sized.calls⟩

theorem Sized.addCalls (sized : self.Sized) {more : List MaskCall} (inside : ∀ call ∈ more, call.InTable) :
    Sized { self with calls := self.calls ++ more } :=
  ⟨sized.server, sized.member, sized.listener, List.forall_mem_append.mpr ⟨sized.calls, inside⟩⟩

/-- What an operation does to the endpoint it is given, and no more, becomes of the process. -/
theorem Sized.withEndpoint (sized : self.Sized) {c : Nat} {operation : Endpoint → Endpoint}
    (keeps : ∀ member server, self.member c = some member → self.server member.server = some server →
      let endpoint : Endpoint := { poll := server.poll, fd := member.fd, state := member.state }
      (operation endpoint).poll.table.length = server.poll.table.length ∧ (operation endpoint).Inside ∧
        ((operation endpoint).state = .connected →
          0 ≤ (operation endpoint).fd ∧ (operation endpoint).fd < server.poll.table.length)) :
    (self.withEndpoint c operation).Sized := by
  unfold Process.withEndpoint
  split
  next => exact sized
  next member found =>
    split
    next => exact sized
    next server hosts =>
      obtain ⟨length, inside, range⟩ := keeps member server found hosts
      have size := sized.server member.server server hosts
      let endpoint : Endpoint := { poll := server.poll, fd := member.fd, state := member.state }
      have hosted : Sized { self with
          server := Function.update self.server member.server (some { server with poll := (operation endpoint).poll }) } := by
        apply sized.setServer
        rintro _ ⟨⟩
        exact length.trans size
      have joined : Sized { self with
          server := Function.update self.server member.server (some { server with poll := (operation endpoint).poll })
          member := Function.update self.member c
            (some { member with fd := (operation endpoint).fd, state := (operation endpoint).state }) } := by
        apply hosted.setMember
        rintro _ ⟨⟩ connected
        dsimp only
        rw [← size]
        exact range connected
      exact (joined.addCalls inside).of_opened _

theorem withEndpoint_calls (self : Process) (c : Nat) (operation : Endpoint → Endpoint) {before : List MaskCall}
    (same : self.calls = before) : before <+: (self.withEndpoint c operation).calls := by
  subst same
  unfold Process.withEndpoint
  split
  next => exact List.prefix_rfl
  next =>
    split
    next => exact List.prefix_rfl
    next => exact List.prefix_append _ _

theorem Sized.deleteConnection (sized : self.Sized) (c : Nat) : (self.deleteConnection c).Sized := by
  unfold Process.deleteConnection
  split
  next => exact sized
  next member _ =>
    apply sized.setServer
    intro server there
    obtain ⟨before, hosts, rfl⟩ := Option.map_eq_some_iff.mp there
    exact sized.server _ before hosts

theorem Sized.operate (sized : self.Sized) (c : Nat) (change : Change) : (self.operate bit c change).Sized := by
  unfold Process.operate
  dsimp only
  have registry : (if change = .closes ∧ (self.member c).any (·.state ≠ .closing) then self.deleteConnection c else self).Sized := by
    split_ifs
    · exact sized.deleteConnection c
    · exact sized
  refine registry.withEndpoint fun member server found hosts => ?_
  have size := registry.server member.server server hosts
  have range : member.state = .connected → 0 ≤ member.fd ∧ member.fd < server.poll.table.length := by
    rw [size]
    exact registry.member c member found
  have blank : Endpoint.Inside { poll := server.poll, fd := member.fd, state := member.state } := List.forall_mem_nil _
  cases change with
  | nothing => exact ⟨rfl, blank, range⟩
  | queues =>
    unfold Endpoint.operate
    dsimp only
    split_ifs with connected
    · have keeps := Endpoint.insert_keeps bit { poll := server.poll, fd := member.fd, state := member.state } .write
      refine ⟨keeps.length, blank.insert (range connected) .write, fun _ => ?_⟩
      rw [keeps.fd]
      exact range connected
    · exact ⟨rfl, blank, range⟩
  | drained =>
    unfold Endpoint.operate
    dsimp only
    split_ifs with connected
    · have keeps := Endpoint.remove_keeps bit { poll := server.poll, fd := member.fd, state := member.state } .write
      refine ⟨keeps.length, blank.remove .write, fun _ => ?_⟩
      rw [keeps.fd]
      exact range connected
    · exact ⟨rfl, blank, range⟩
  | closes =>
    have closes := @Endpoint.close_closes bit { poll := server.poll, fd := member.fd, state := member.state } c
    exact ⟨closes.length, closes.inside blank, fun connected => nomatch closes.state.symm.trans connected⟩

/-- A connection that is let in, and initialised. -/
def Admits (process : Process) (s : Nat) : Prop :=
  ∃ server, process.server s = some server ∧ server.connections.length < process.maxConnects

theorem Sized.setConnections (sized : self.Sized) {s : Nat} {server : Server} (hosts : self.server s = some server)
    (connections : List Nat) :
    Sized { self with server := Function.update self.server s (some { server with connections }) } := by
  apply sized.setServer
  rintro _ ⟨⟩
  exact sized.server s server hosts

theorem Sized.letIn (sized : self.Sized) {s c : Nat} {fd : Int}
    (fits : self.Admits s → 0 ≤ fd ∧ fd < (self.maxConnects + 10 : Nat)) : (self.letIn bit s c fd).Sized := by
  unfold Process.letIn
  split
  next => exact sized
  next server hosts =>
    have size := sized.server s server hosts
    have made : Sized { self with member := Function.update self.member c (some { server := s, fd, state := .inactive }) } := by
      apply sized.setMember
      rintro _ ⟨⟩ connected
      cases connected
    dsimp only
    split_ifs with full
    · refine made.withEndpoint fun member server _ _ => ?_
      have blank : Endpoint.Inside { poll := server.poll, fd := member.fd, state := member.state } := List.forall_mem_nil _
      have closes := @Endpoint.close_closes bit { poll := server.poll, fd := member.fd, state := member.state } c
      exact ⟨closes.length, closes.inside blank, fun connected => nomatch closes.state.symm.trans connected⟩
    · have range := fits ⟨server, hosts, by omega⟩
      refine (made.setConnections hosts _).withEndpoint fun member other found there => ?_
      dsimp only at found there
      rw [Function.update_self] at found
      cases found
      rw [Function.update_self] at there
      cases there
      have inside : (0 : Int) ≤ fd ∧ fd < server.poll.table.length := by
        rw [size]
        exact range
      have blank : Endpoint.Inside { poll := server.poll, fd, state := .inactive } := List.forall_mem_nil _
      have keeps := @Endpoint.initialise_keeps bit { poll := server.poll, fd, state := .inactive }
      refine ⟨keeps.length, blank.initialise inside, fun _ => ?_⟩
      rw [keeps.fd]
      exact inside

/-- One that is let in with a descriptor outside the table is written outside it. -/
theorem letIn_outside {s c : Nat} {fd : Int} (sized : self.Sized) (admits : self.Admits s)
    (outside : ¬ (0 ≤ fd ∧ fd < (self.maxConnects + 10 : Nat))) (read : bit .read ≠ 0) :
    ∃ call ∈ (self.letIn bit s c fd).calls, ¬ call.InTable := by
  obtain ⟨server, hosts, free⟩ := admits
  have size := sized.server s server hosts
  unfold Process.letIn
  rw [hosts]
  dsimp only
  rw [if_neg (by omega)]
  unfold Process.withEndpoint
  simp only [Function.update_self]
  obtain ⟨call, member, wrong⟩ := @Endpoint.initialise_outside bit { poll := server.poll, fd, state := .inactive }
    (by dsimp only; rw [size]; exact outside) read
  exact ⟨call, List.mem_append_right _ member, wrong⟩

theorem letIn_calls (self : Process) (s c : Nat) (fd : Int) : self.calls <+: (self.letIn bit s c fd).calls := by
  unfold Process.letIn
  split
  next => exact List.prefix_rfl
  next =>
    dsimp only
    split_ifs
    · exact withEndpoint_calls _ c _ rfl
    · exact withEndpoint_calls _ c _ rfl

theorem step_calls (self : Process) (step : ProcessStep) : self.calls <+: (self.step bit step).calls := by
  unfold Process.step
  cases step with
  | openFile | closeFile fd => exact List.prefix_rfl
  | createServer s =>
    dsimp only
    split <;> exact List.prefix_rfl
  | openListener l bound =>
    dsimp only
    split
    · exact List.prefix_rfl
    · split
      · exact List.prefix_append _ _
      · exact List.prefix_rfl
  | closeListener l =>
    dsimp only
    split
    · exact List.prefix_rfl
    · exact List.prefix_append _ _
  | accept s c options =>
    dsimp only
    split
    · exact List.prefix_rfl
    · split
      · exact letIn_calls self.openDescriptor s c _
      · exact letIn_calls self s c _
  | connect s c made leaked =>
    dsimp only
    split
    · exact List.prefix_rfl
    · split
      · exact letIn_calls self.openDescriptor s c _
      · split <;> exact List.prefix_rfl
  | operate c change =>
    have registry : (self.deleteConnection c).calls = self.calls := by
      unfold Process.deleteConnection
      split <;> rfl
    dsimp only
    unfold Process.operate
    dsimp only
    split_ifs
    · exact withEndpoint_calls _ c _ registry
    · exact withEndpoint_calls _ c _ rfl

theorem run_calls (steps : List ProcessStep) (self : Process) : self.calls <+: (self.run bit steps).calls := by
  induction steps generalizing self with
  | nil => exact List.prefix_rfl
  | cons step steps ih => exact (step_calls self step).trans (ih (self.step bit step))

/-- A connection that is let in has all its options set and a descriptor that an entry
of the table is kept for. -/
def Fits (process : Process) : ProcessStep → Prop
  | .accept s c options => process.member c = none → process.Admits s →
      options ∧ process.lowest < process.maxConnects + 10
  | .connect s c made _ => process.member c = none → process.Admits s → made → process.lowest < process.maxConnects + 10
  | _ => True

theorem lowest_outside {process : Process} : ¬ process.lowest < process.maxConnects + 10 →
    ¬ (0 ≤ (process.lowest : Int) ∧ (process.lowest : Int) < (process.maxConnects + 10 : Nat)) := by
  omega

theorem Sized.listen {fd : Nat} {events : List ReadyEvent} :
    (listen bit { poll := { table := List.replicate (fd + 1) 0, events }, fd, state := .inactive }).Inside := by
  let endpoint : Endpoint := { poll := { table := List.replicate (fd + 1) 0, events }, fd, state := .listening }
  have range : 0 ≤ endpoint.fd ∧ endpoint.fd < endpoint.poll.table.length := by
    dsimp only [endpoint]
    rw [List.length_replicate]
    omega
  have blank : endpoint.Inside := List.forall_mem_nil _
  unfold Process.listen
  split
  · exact List.forall_mem_nil _
  · have keeps := Endpoint.insert_keeps bit endpoint .read
    exact (blank.insert range .read).insert (by rw [keeps.fd, keeps.length]; exact range) .error

theorem Sized.step (sized : self.Sized) (step : ProcessStep) (fits : self.Fits step) : (self.step bit step).Sized := by
  unfold Process.step
  cases step with
  | openFile => exact sized.of_opened _
  | closeFile fd => exact sized.of_opened _
  | createServer s =>
    dsimp only
    split
    · exact sized
    · have opened : self.openDescriptor.Sized := sized.of_opened _
      refine opened.setServer s ?_
      rintro _ ⟨⟩
      exact List.length_replicate
  | openListener l bound =>
    dsimp only
    split
    · exact sized
    · split
      · have opened : self.openDescriptor.openDescriptor.Sized := sized.of_opened _
        refine (opened.addCalls listen).setListener l ?_
        rintro _ ⟨⟩
        exact List.forall_mem_nil _
      · exact sized
  | closeListener l =>
    dsimp only
    split
    · exact sized
    next endpoint listening =>
      have removed : ((endpoint.remove bit .read).remove bit .error).Inside :=
        ((sized.listener l endpoint listening).remove .read).remove .error
      have closed : (self.closeDescriptor endpoint.fd).Sized := sized.of_opened _
      exact (closed.addCalls removed).setListener l nofun
  | accept s c options =>
    dsimp only
    split
    · exact sized
    next fresh =>
      split_ifs with set
      · refine (sized.of_opened _).letIn fun admits => ?_
        have low := (fits fresh admits).2
        exact ⟨Int.natCast_nonneg _, Int.ofNat_lt.mpr low⟩
      · exact sized.letIn fun admits => absurd (fits fresh admits).1 set
  | connect s c made leaked =>
    dsimp only
    split
    · exact sized
    next fresh =>
      split_ifs with done
      · refine (sized.of_opened _).letIn fun admits => ?_
        exact ⟨Int.natCast_nonneg _, Int.ofNat_lt.mpr (fits fresh admits done)⟩
      · exact sized.of_opened _
      · exact sized
  | operate c change => exact sized.operate c change

theorem step_outside (sized : self.Sized) (step : ProcessStep) (misfit : ¬ self.Fits step) (read : bit .read ≠ 0) :
    ∃ call ∈ (self.step bit step).calls, ¬ call.InTable := by
  cases step with
  | openFile | closeFile fd | createServer s | openListener l bound | closeListener l | operate c change =>
    exact absurd trivial misfit
  | accept s c options =>
    simp only [Fits, not_forall, exists_prop] at misfit
    obtain ⟨fresh, admits, wrong⟩ := misfit
    unfold Process.step
    dsimp only
    rw [fresh]
    dsimp only
    split_ifs with set
    · have low : ¬ self.lowest < self.maxConnects + 10 := fun low => wrong ⟨set, low⟩
      exact letIn_outside (sized.of_opened _) admits (lowest_outside low) read
    · exact letIn_outside sized admits (by omega) read
  | connect s c made leaked =>
    simp only [Fits, not_forall, exists_prop] at misfit
    obtain ⟨fresh, admits, done, high⟩ := misfit
    unfold Process.step
    dsimp only
    rw [fresh]
    dsimp only
    rw [if_pos done]
    exact letIn_outside (sized.of_opened _) admits (lowest_outside high) read

/-- A run of a process that fits step by step. -/
abbrev Suits (bit : Branch → UInt32) (process : Process) (steps : List ProcessStep) : Prop :=
  Refinement.Along (fun process step => some (process.step bit step)) Fits process steps

theorem Sized.run_iff (read : bit .read ≠ 0) (steps : List ProcessStep) (sized : self.Sized) :
    (∀ call ∈ (self.run bit steps).calls, call.InTable) ↔ Suits bit self steps := by
  induction steps generalizing self with
  | nil => exact iff_of_true sized.calls trivial
  | cons step steps ih =>
    by_cases fits : self.Fits step
    · refine (ih (sized.step step fits)).trans ⟨fun rest => ⟨fits, fun after taken => ?_⟩, fun suits => suits.2 _ rfl⟩
      cases taken
      exact rest
    · refine iff_of_false (fun all => ?_) fun suits => fits suits.1
      obtain ⟨call, member, outside⟩ := step_outside sized step fits read
      exact outside (all call ((run_calls steps _).subset member))

theorem Sized.start (maxConnects : Nat) (opened : List Nat) : (Process.start maxConnects opened).Sized :=
  ⟨nofun, nofun, nofun, List.forall_mem_nil _⟩

/-- Every call of `SetEventMask_` is inside its table exactly when every connection that
is let in has all its options set and a descriptor below the size of the table. -/
theorem masks_in_table_iff (maxConnects : Nat) (opened : List Nat) (steps : List ProcessStep) :
    ((∀ call ∈ ((start maxConnects opened).run (Multiplexer.bit Poll) steps).calls, call.InTable) ↔
      Suits (Multiplexer.bit Poll) (start maxConnects opened) steps) ∧
    ((∀ call ∈ ((start maxConnects opened).run PollKQueue.bit steps).calls, call.InTable) ↔
      Suits PollKQueue.bit (start maxConnects opened) steps) :=
  ⟨Sized.run_iff (by decide) steps (Sized.start maxConnects opened),
    Sized.run_iff (by decide) steps (Sized.start maxConnects opened)⟩

/-- Five servers of one connection each: the last one is given descriptor 12, and the
tables have 11 entries. -/
theorem fifth_server_outside :
    ¬ ∀ (maxConnects : Nat) (opened : List Nat) (steps : List ProcessStep),
      ∀ call ∈ ((start maxConnects opened).run (Multiplexer.bit Poll) steps).calls, call.InTable := by
  intro always
  have inside := always 1 [0, 1, 2] [.createServer 0, .accept 0 0 true, .createServer 1, .accept 1 1 true, .createServer 2,
    .accept 2 2 true, .createServer 3, .accept 3 3 true, .createServer 4, .accept 4 4 true]
  revert inside
  decide +kernel

end Process
end LibWebserver
