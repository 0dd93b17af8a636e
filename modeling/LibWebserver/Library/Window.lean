import Mathlib.Data.List.Rotate

/-! Sliding windows kept in place. A window grows until it is full; from then on
every sample overwrites the oldest one, which stands at the number of samples
taken so far modulo the capacity. -/

namespace LibWebserver.Window

universe u

variable {α : Type u} {capacity index : Nat} {samples window : List α}

/-- A write to an index, `none` when it lies outside. -/
def store (window : List α) (index : Nat) (sample : α) : Option (List α) :=
  if index < window.length then some (window.set index sample) else none

def push (capacity index : Nat) (sample : α) (window : List α) : Option (List α) :=
  if window.length < capacity then some (window ++ [sample]) else store window index sample

/-- The last samples of a stream, at most `capacity` of them. -/
def latest (capacity : Nat) (samples : List α) : List α := samples.drop (samples.length - capacity)

theorem length_latest (capacity : Nat) (samples : List α) :
    (latest capacity samples).length = min samples.length capacity := by
  rw [latest, List.length_drop]
  omega

/-- The samples in the order of the window: from the start while it fills, and from
the oldest one on once it is full. -/
structure Slides (capacity : Nat) (samples window : List α) : Prop where
  filling : samples.length < capacity → window = samples
  full : capacity ≤ samples.length → window.rotate samples.length = latest capacity samples

theorem Slides.nil (capacity : Nat) : Slides capacity ([] : List α) [] := ⟨fun _ => rfl, fun _ => by rw [latest, List.drop_nil, List.rotate_nil]⟩

theorem Slides.length (slides : Slides capacity samples window) : window.length = min samples.length capacity := by
  rcases Nat.lt_or_ge samples.length capacity with short | long
  · rw [slides.filling short]
    omega
  · rw [← length_latest, ← slides.full long, List.length_rotate]

/-- In some order, a window holds the last samples. -/
theorem Slides.perm (slides : Slides capacity samples window) : window.Perm (latest capacity samples) := by
  rcases Nat.lt_or_ge samples.length capacity with short | long
  · rw [slides.filling short, latest, Nat.sub_eq_zero_of_le (Nat.le_of_lt short), List.drop_zero]
  · rw [← slides.full long]
    exact (List.rotate_perm window samples.length).symm

theorem rotate_set {window : List α} {index : Nat} (inside : index < window.length) (sample : α) :
    (window.set index sample).rotate (index + 1) = (window.rotate index).tail ++ [sample] := by
  have size : (window.take index ++ [sample]).length = index + 1 := by
    rw [List.length_append, List.length_take, List.length_singleton]
    omega
  have split : window.set index sample = (window.take index ++ [sample]) ++ window.drop (index + 1) := by
    rw [List.set_eq_take_append_cons_drop, if_pos inside, List.append_assoc]
    rfl
  have turned : (window.set index sample).rotate (index + 1) =
      window.drop (index + 1) ++ (window.take index ++ [sample]) := by
    rw [split, ← size, List.rotate_append_length_eq, size]
  rw [turned, List.rotate_eq_drop_append_take (Nat.le_of_lt inside), List.drop_eq_getElem_cons inside,
    List.cons_append, List.tail_cons, List.append_assoc]

theorem latest_concat (long : capacity ≤ samples.length) (positive : 0 < capacity) (sample : α) :
    latest capacity (samples ++ [sample]) = (latest capacity samples).tail ++ [sample] := by
  have size : (samples ++ [sample]).length - capacity = samples.length - capacity + 1 := by
    rw [List.length_append, List.length_singleton]
    omega
  rw [latest, latest, size, List.drop_append_of_le_length (by omega), List.tail_drop]

/-- A sample stored where the oldest one stands takes its place. -/
theorem Slides.push (slides : Slides capacity samples window) (positive : 0 < capacity)
    (oldest : index = samples.length % capacity) (sample : α) :
    ∃ after, push capacity index sample window = some after ∧ Slides capacity (samples ++ [sample]) after := by
  have size := slides.length
  have grown : (samples ++ [sample]).length = samples.length + 1 := List.length_append
  rcases Nat.lt_or_ge samples.length capacity with short | long
  · refine ⟨window ++ [sample], if_pos (by omega), fun _ => by rw [slides.filling short], fun filled => ?_⟩
    have last : (samples ++ [sample]).length = capacity := by omega
    rw [slides.filling short, List.rotate_length, latest, last, Nat.sub_self, List.drop_zero]
  · have whole : window.length = capacity := by omega
    have inside : index < window.length := by
      rw [whole, oldest]
      exact Nat.mod_lt _ positive
    refine ⟨window.set index sample, ?_, fun short => by omega, fun _ => ?_⟩
    · rw [Window.push, if_neg (by omega), store, if_pos inside]
    · have turned : window.rotate index = latest capacity samples := by
        rw [← slides.full long, oldest, ← whole, List.rotate_mod]
      have place : (samples.length + 1) % capacity = (index + 1) % capacity := by
        rw [oldest, Nat.mod_add_mod]
      have same : (window.set index sample).rotate (samples.length + 1) =
          (window.set index sample).rotate (index + 1) := by
        rw [← List.rotate_mod, ← List.rotate_mod _ (index + 1), List.length_set, whole, place]
      rw [grown, same, rotate_set inside, turned, latest_concat long positive]

end LibWebserver.Window
