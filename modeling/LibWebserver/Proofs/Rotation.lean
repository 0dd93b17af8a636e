import LibWebserver.Listener
import Mathlib.Data.Int.CardIntervalMod

/-! The handlers of a listener take turns. The index is valid from the first
handler on, and only from there on. -/

namespace LibWebserver.BaseListener

variable {self : BaseListener} {steps : List Step}

/-- A call of `GetCurrentHandler` finds a handler. -/
def Selects (self : BaseListener) : Prop := self.currentHandler < self.handlers.length

theorem Selects.handler (selects : self.Selects) : ∃ server, self.getCurrentHandler = some server :=
  ⟨_, List.getElem?_eq_getElem selects⟩

theorem addHandler_selects (self : BaseListener) (server : Nat) : (self.addHandler server).Selects := by
  simp [Selects, addHandler]

theorem Selects.advance (selects : self.Selects) : self.advance.Selects := by
  unfold Selects at *
  unfold BaseListener.advance
  dsimp only
  split <;> omega

theorem Selects.calls (selects : self.Selects) (steps : List Step) : ∀ call ∈ self.calls steps, call.Selects := by
  induction steps generalizing self with
  | nil => exact List.forall_mem_nil _
  | cons step steps ih =>
    cases step with
    | addHandler server => exact ih (addHandler_selects self server)
    | accept => exact List.forall_mem_cons.mpr ⟨selects, ih selects.advance⟩

theorem calls_create_iff (indeterminate : Nat) (steps : List Step) :
    (∀ call ∈ (create indeterminate).calls steps, call.Selects) ↔ steps.head? ≠ some .accept := by
  cases steps with
  | nil => exact iff_of_true (List.forall_mem_nil _) nofun
  | cons step steps =>
    cases step with
    | addHandler server =>
      refine iff_of_true ((addHandler_selects _ server).calls steps) ?_
      simp
    | accept =>
      refine iff_of_false (fun all => ?_) (by simp)
      have first : (create indeterminate).Selects := all _ List.mem_cons_self
      exact Nat.not_lt_zero _ first

theorem advance_eq (selects : self.Selects) :
    self.advance = { self with currentHandler := (self.currentHandler + 1) % self.handlers.length } := by
  unfold Selects at selects
  unfold advance
  split
  next last => rw [last, Nat.mod_self]
  next inner => rw [Nat.mod_eq_of_lt (by omega)]

/-- Accepted connections go round the pool. -/
theorem calls_accept (selects : self.Selects) (n : Nat) :
    self.calls (List.replicate n .accept) = (List.range n).map fun turn =>
      { self with currentHandler := (self.currentHandler + turn) % self.handlers.length } := by
  induction n generalizing self with
  | zero => rfl
  | succ n ih =>
    have here : self.currentHandler % self.handlers.length = self.currentHandler := Nat.mod_eq_of_lt selects
    rw [List.replicate_succ, calls, ih selects.advance, List.range_succ_eq_map, List.map_cons, List.map_map,
      Nat.add_zero, here, advance_eq selects]
    congr 1
    apply List.map_congr_left
    intro turn _
    have next : (self.currentHandler + 1) % self.handlers.length + turn ≡ self.currentHandler + (turn + 1)
        [MOD self.handlers.length] := by
      rw [Nat.add_comm turn 1, ← Nat.add_assoc]
      exact (Nat.mod_modEq _ _).add_right turn
    dsimp only [Function.comp]
    rw [next]

theorem share_accept (server n : Nat) {index : Nat} (inside : index < (self.addHandler server).handlers.length) :
    (self.addHandler server).share (List.replicate n .accept) index =
      n / (self.addHandler server).handlers.length + if index < n % (self.addHandler server).handlers.length then 1 else 0 := by
  have selects := addHandler_selects self server
  have positive : 0 < (self.addHandler server).handlers.length := Nat.zero_lt_of_lt selects
  have counted := Nat.count_modEq_card n positive index
  rw [Nat.mod_eq_of_lt inside] at counted
  rw [share, calls_accept selects, List.countP_map, ← counted, Nat.count]
  apply List.countP_congr
  intro turn _
  have start : (self.addHandler server).currentHandler = 0 := rfl
  simp only [Function.comp, start, Nat.zero_add, decide_eq_true_eq, Nat.ModEq, Nat.mod_eq_of_lt inside]

/-- Every call of `GetCurrentHandler` finds a handler exactly when no connection is
accepted before the first handler is added, and the connections accepted between two
additions are shared out evenly. -/
theorem handlers_selected (indeterminate : Nat) (steps : List Step) :
    ((∀ call ∈ (create indeterminate).calls steps, call.currentHandler < call.handlers.length ∧
      ∃ server, call.getCurrentHandler = some server) ↔ steps.head? ≠ some .accept) ∧
    ∀ before server n after, steps = before ++ .addHandler server :: (List.replicate n .accept ++ after) →
      let pool := (create indeterminate).run (before ++ [.addHandler server])
      ∀ i < pool.handlers.length, ∀ j < pool.handlers.length,
        pool.share (List.replicate n .accept) i ≤ pool.share (List.replicate n .accept) j + 1 := by
  constructor
  · rw [← calls_create_iff indeterminate]
    exact forall₂_congr fun call _ => ⟨And.left, fun selects => ⟨selects, selects.handler⟩⟩
  intro before server n after _ pool i first j second
  have added : pool = ((create indeterminate).run before).addHandler server := by
    rw [show pool = (create indeterminate).run (before ++ [.addHandler server]) from rfl, run, List.foldl_append]
    rfl
  rw [added] at first second ⊢
  rw [share_accept server n first, share_accept server n second]
  split <;> split <;> omega

theorem handlers_selected_two :
    ((∀ call ∈ (create 7).calls [.addHandler 5, .addHandler 6, .accept, .accept, .accept],
      call.currentHandler < call.handlers.length ∧ ∃ server, call.getCurrentHandler = some server) ↔
        [Step.addHandler 5, .addHandler 6, .accept, .accept, .accept].head? ≠ some .accept) ∧
    ((create 7).run [.addHandler 5, .addHandler 6]).share [.accept, .accept, .accept] 0 ≤
      ((create 7).run [.addHandler 5, .addHandler 6]).share [.accept, .accept, .accept] 1 + 1 := by
  obtain ⟨valid, fair⟩ := handlers_selected 7 [.addHandler 5, .addHandler 6, .accept, .accept, .accept]
  exact ⟨valid, fair [.addHandler 5] 6 3 [] rfl 0 (by decide) 1 (by decide)⟩

/-- A connection that arrives before the first handler. -/
theorem early_accept_fails :
    ¬ ∀ (indeterminate : Nat) (steps : List Step), ∀ call ∈ (create indeterminate).calls steps,
      call.currentHandler < call.handlers.length := by
  intro always
  have first := always 0 [.accept, .addHandler 1] (create 0) (by decide)
  exact absurd first (by decide)

end LibWebserver.BaseListener
