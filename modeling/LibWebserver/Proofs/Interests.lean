import LibWebserver.Interests
import LibWebserver.Library.Refinement
import Mathlib.Logic.Function.Basic

/-! What the protocol keeps up between a table and its kernel, for a poll of either
kind that follows single changes of interest. -/

namespace LibWebserver

theorem encode_none (bit : Branch → UInt32) : encode bit noInterests = 0 := by
  simp [encode, noInterests]

namespace Client

theorem interests_update (self : Client) (fd : Int) (slot : Slot) :
    interests (Function.update self fd slot) = Function.update self.interests fd slot.interests := by
  funext other
  unfold interests
  rw [Function.update_apply, Function.update_apply]
  split_ifs <;> rfl

theorem setInterest_active {client : Client} {event : Nat} {fd : Int} {before : Branch → Bool}
    (owned : client fd = .active event before) (branch : Branch) (value : Bool) :
    client.setInterest fd branch value fd = .active event (Function.update before branch value) := by
  rw [Client.setInterest, owned]
  exact Function.update_self ..

theorem setInterest_same {client : Client} {event : Nat} {fd : Int} {before : Branch → Bool}
    (owned : client fd = .active event before) {branch : Branch} {value : Bool} (same : before branch = value) :
    client.setInterest fd branch value = client := by
  rw [setInterest, owned]
  dsimp only
  rw [← same, Function.update_eq_self, ← owned, Function.update_eq_self]

theorem interests_none {client : Client} {fd : Int}
    (none : ∀ event interests, client fd = .active event interests → interests = noInterests) :
    client.interests fd = noInterests := by
  unfold Client.interests
  cases slot : client fd with
  | active event interests => exact none event interests slot
  | free | idle => rfl

/-- A descriptor nobody has opened an event on has no interests to lose. -/
theorem setInterest_idle {client : Client} {fd : Int} (idle : ∀ event interests, client fd ≠ .active event interests)
    (branch : Branch) (value : Bool) : client.setInterest fd branch value = client := by
  unfold setInterest
  split
  next event interests slot => exact absurd slot (idle event interests)
  next => rfl

end Client

/-- A poll that follows every change of one interest. -/
class LawfulTabled (π : Type) {ρ : Type} [Tabled π ρ] : Prop where
  blank (slot : Slot) : Tabled.registered π 0 slot = Tabled.blank π
  openEvent {self : π} {fd : Int} (none : Tabled.eventMask self fd = 0) :
    Subscribes.openEvent (Int → ρ) self fd = .ok self
  closeEvent {self : π} {fd : Int} (event : Nat) (none : Tabled.eventMask self fd = 0) :
    ∃ poll, Subscribes.closeEvent (Int → ρ) self event fd = .ok poll ∧
      Tabled.eventMask poll = Tabled.eventMask self ∧ Tabled.length poll = Tabled.length self
  closeDescriptor (kernel : Int → ρ) (fd : Int) :
    Subscribes.closeDescriptor π kernel fd = Function.update kernel fd (Tabled.blank π)
  insert {size : Nat} {self : π} {kernel : Int → ρ} {client : Client} {event : Nat} {fd : Int} {before : Branch → Bool}
    (agrees : Agrees size ⟨self, kernel⟩ client) (owned : client fd = .active event before) (branch : Branch) :
    ∃ after, Subscribed.ofControlled (Subscribes.insert self kernel branch event fd) = some after ∧
      Agrees size after (client.setInterest fd branch true)
  remove {size : Nat} {self : π} {kernel : Int → ρ} {client : Client} {event : Nat} {fd : Int} {before : Branch → Bool}
    (agrees : Agrees size ⟨self, kernel⟩ client) (owned : client fd = .active event before) (branch : Branch) :
    ∃ after, Subscribed.ofControlled (Subscribes.remove self kernel branch event fd) = some after ∧
      Agrees size after (client.setInterest fd branch false)
  remove_none {self : π} {kernel : Int → ρ} {fd : Int} (event : Nat) (none : Tabled.eventMask self fd = 0) (branch : Branch) :
    Subscribed.ofControlled (Subscribes.remove self kernel branch event fd) = some ⟨self, kernel⟩

namespace Agrees

variable {π ρ : Type} [Tabled π ρ] {size : Nat} {self : π} {kernel : Int → ρ} {client : Client} {event : Nat} {fd : Int}

theorem mask_none (agrees : Agrees size ⟨self, kernel⟩ client) (none : client.interests fd = noInterests) :
    Tabled.eventMask self fd = 0 := by
  rw [congrFun agrees.table fd, none, encode_none]

theorem mask_active (agrees : Agrees size ⟨self, kernel⟩ client) {before : Branch → Bool}
    (owned : client fd = .active event before) : Tabled.eventMask self fd = encode (Tabled.bit π) before := by
  rw [congrFun agrees.table fd, Client.interests, owned]
  rfl

theorem range_update (agrees : Agrees size ⟨self, kernel⟩ client) {slot : Slot} (inside : slot ≠ .free → 0 ≤ fd ∧ fd < size) :
    ∀ other, Function.update client fd slot other ≠ .free → 0 ≤ other ∧ other < size := by
  intro other used
  rw [Function.update_apply] at used
  split_ifs at used with here
  · exact here ▸ inside used
  · exact agrees.range other used

/-- What the table and the kernel have to be after one descriptor has changed. -/
theorem update (agrees : Agrees size ⟨self, kernel⟩ client) {poll : π} {slot : Slot} {entry : ρ}
    (length : Tabled.length poll = Tabled.length self) (inside : slot ≠ .free → 0 ≤ fd ∧ fd < size)
    (mask : Tabled.eventMask poll = Function.update (Tabled.eventMask self) fd (encode (Tabled.bit π) slot.interests))
    (expected : entry = Tabled.registered π (encode (Tabled.bit π) slot.interests) slot) :
    Agrees size ⟨poll, Function.update kernel fd entry⟩ (Function.update client fd slot) := by
  refine ⟨length.trans agrees.length, agrees.range_update inside, ?_, ?_⟩
  · refine mask.trans ?_
    funext other
    rw [Client.interests_update, Function.update_apply, Function.update_apply, agrees.table]
    split_ifs <;> rfl
  · funext other
    dsimp only
    rw [mask, Function.update_apply, Function.update_apply, Function.update_apply, expected]
    split_ifs
    · rfl
    · exact congrFun agrees.kernel other

variable [LawfulTabled π]

theorem kernel_none (agrees : Agrees size ⟨self, kernel⟩ client) (none : client.interests fd = noInterests) :
    kernel fd = Tabled.blank π := by
  refine (congrFun agrees.kernel fd).trans ?_
  dsimp only
  rw [agrees.mask_none none, LawfulTabled.blank]

theorem reslot (agrees : Agrees size ⟨self, kernel⟩ client) {poll : π} (length : Tabled.length poll = Tabled.length self)
    (mask : Tabled.eventMask poll = Tabled.eventMask self) (none : client.interests fd = noInterests) {slot : Slot}
    (empty : slot.interests = noInterests) (inside : slot ≠ .free → 0 ≤ fd ∧ fd < size) :
    Agrees size ⟨poll, kernel⟩ (Function.update client fd slot) := by
  have changed := @update π ρ _ size self kernel client fd agrees poll slot (Tabled.blank π) length inside
    (by rw [mask, empty, encode_none, ← agrees.mask_none none, Function.update_eq_self])
    (by rw [empty, encode_none, LawfulTabled.blank])
  rwa [← agrees.kernel_none none, Function.update_eq_self] at changed

theorem step_remove (agrees : Agrees size ⟨self, kernel⟩ client) {branch : Branch} {event : Nat} {fd : Int}
    (legal : client.Legal size (.remove branch event fd)) :
    ∃ after, Subscribed.step ⟨self, kernel⟩ (.remove branch event fd) = some after ∧
      Agrees size after (client.next (.remove branch event fd)) := by
  by_cases active : ∃ owner before, client fd = .active owner before
  · obtain ⟨owner, before, slot⟩ := active
    obtain rfl := legal owner before slot
    exact LawfulTabled.remove agrees slot branch
  · have idle : ∀ owner before, client fd ≠ .active owner before := fun owner before slot => active ⟨owner, before, slot⟩
    have none := Client.interests_none fun owner before slot => absurd slot (idle owner before)
    refine ⟨⟨self, kernel⟩, LawfulTabled.remove_none event (agrees.mask_none none) branch, ?_⟩
    rw [Client.next, Client.setInterest_idle idle]
    exact agrees

theorem step_closeEvent (agrees : Agrees size ⟨self, kernel⟩ client) {event : Nat} {fd : Int}
    (legal : client.Legal size (.closeEvent event fd)) :
    ∃ after, Subscribed.step ⟨self, kernel⟩ (.closeEvent event fd) = some after ∧
      Agrees size after (client.next (.closeEvent event fd)) := by
  have none := Client.interests_none fun owner before slot => (legal owner before slot).2
  obtain ⟨poll, done, mask, length⟩ := LawfulTabled.closeEvent event (agrees.mask_none none)
  have closed : Subscribed.step ⟨self, kernel⟩ (.closeEvent event fd) = some ⟨poll, kernel⟩ := by
    rw [Subscribed.step, done]
    rfl
  refine ⟨⟨poll, kernel⟩, closed, ?_⟩
  cases slot : client fd with
  | active owner before =>
    have next : client.next (.closeEvent event fd) = Function.update client fd .idle := by
      rw [Client.next, slot]
    rw [next]
    exact agrees.reslot length mask none rfl fun _ => agrees.range fd (by rw [slot]; exact Slot.noConfusion)
  | free | idle =>
    have next : client.next (.closeEvent event fd) = Function.update client fd (client fd) := by
      rw [Function.update_eq_self, Client.next, slot]
    rw [next]
    exact agrees.reslot length mask none none fun used => agrees.range fd used

theorem step (agrees : Agrees size ⟨self, kernel⟩ client) (operation : Subscription)
    (legal : client.Legal size operation) :
    ∃ after, Subscribed.step ⟨self, kernel⟩ operation = some after ∧ Agrees size after (client.next operation) := by
  cases operation with
  | socket fd =>
    have none : client.interests fd = noInterests := by
      rw [Client.interests, legal.1]
      rfl
    exact ⟨_, rfl, agrees.reslot rfl rfl none rfl fun _ => legal.2⟩
  | openEvent event fd =>
    have none : client.interests fd = noInterests := by
      rw [Client.interests, legal]
      rfl
    refine ⟨⟨self, kernel⟩, ?_, agrees.reslot rfl rfl none rfl fun _ => agrees.range fd (by rw [legal]; exact Slot.noConfusion)⟩
    rw [Subscribed.step, LawfulTabled.openEvent (agrees.mask_none none)]
    rfl
  | insert branch event fd =>
    obtain ⟨before, owned⟩ := legal
    exact LawfulTabled.insert agrees owned branch
  | remove branch event fd => exact agrees.step_remove legal
  | closeEvent event fd => exact agrees.step_closeEvent legal
  | closeSocket fd =>
    have none : client.interests fd = noInterests := by
      rw [Client.interests, legal]
      rfl
    refine ⟨⟨self, kernel⟩, ?_, agrees.reslot rfl rfl none rfl fun used => absurd rfl used⟩
    rw [Subscribed.step, LawfulTabled.closeDescriptor, ← agrees.kernel_none none, Function.update_eq_self]

end Agrees

/-- A connection on a socket of its own keeps to the protocol. -/
theorem initialise_legal {size : Nat} {client : Client} {event : Nat} {fd : Int} (idle : client fd = .idle) :
    Refinement.Along (fun client operation => some (Client.next client operation)) (Client.Legal size) client
      (Subscription.initialise event fd) := by
  refine ⟨idle, ?_⟩
  rintro _ ⟨⟩
  have one : Client.next client (.openEvent event fd) fd = .active event noInterests := Function.update_self ..
  refine ⟨⟨_, one⟩, ?_⟩
  rintro _ ⟨⟩
  have two := Client.setInterest_active one .read true
  refine ⟨⟨_, two⟩, ?_⟩
  rintro _ ⟨⟩
  have three := Client.setInterest_active two .write true
  refine ⟨⟨_, three⟩, ?_⟩
  rintro _ ⟨⟩
  trivial

theorem close_legal {size : Nat} {client : Client} {event : Nat} {fd : Int} {interests : Branch → Bool}
    (owned : client fd = .active event interests) :
    Refinement.Along (fun client operation => some (Client.next client operation)) (Client.Legal size) client
      (Subscription.close event fd) := by
  have mine {client : Client} {interests : Branch → Bool} (owned : client fd = .active event interests) (branch : Branch) :
      Client.Legal size client (.remove branch event fd) := fun owner other slot => by
    rw [owned] at slot
    cases slot
    rfl
  have closed {client : Client} {interests : Branch → Bool} (owned : client fd = .active event interests) :
      Client.next client (.closeEvent event fd) fd = .idle := by
    rw [Client.next, owned]
    exact Function.update_self ..
  refine ⟨mine owned .read, ?_⟩
  rintro _ ⟨⟩
  have one := Client.setInterest_active owned .read false
  refine ⟨mine one .write, ?_⟩
  rintro _ ⟨⟩
  have two := Client.setInterest_active one .write false
  refine ⟨mine two .error, ?_⟩
  rintro _ ⟨⟩
  have three := Client.setInterest_active two .error false
  refine ⟨fun owner other slot => ?_, ?_⟩
  · cases three.symm.trans slot
    refine ⟨rfl, ?_⟩
    funext branch
    cases branch <;> rfl
  rintro _ ⟨⟩
  refine ⟨closed three, ?_⟩
  rintro _ ⟨⟩
  trivial

end LibWebserver
