import Mathlib.Data.List.SplitBy
import Mathlib.Data.List.TakeWhile

/-! Run lengths of elements that are told apart by a key. A run is remembered by its first
element and a counter that wraps around; what comes back is the sequence exactly if the
elements of a run are equal and no counter wraps. -/

namespace LibWebserver.RunLength

universe u v

variable {α : Type u} {κ : Type v} [DecidableEq κ] (key : α → κ) (modulus : Nat)

/-- What comes back of a sequence behind a remembered element and its counter. -/
def decoded : α → Nat → List α → List α
  | last, count, [] => List.replicate count last
  | last, count, a :: rest =>
    if key a = key last then decoded last ((count + 1) % modulus) rest
    else List.replicate count last ++ a :: decoded a 0 rest

/-- What comes back of a sequence with nothing remembered. -/
def recovered : List α → List α
  | [] => []
  | a :: rest => a :: decoded key modulus a 0 rest

def sameKey (a b : α) : Bool := key a = key b

/-- Every maximal run of one key is one element, no more often than the counter can tell. -/
def Faithful (sequence : List α) : Prop :=
  ∀ run ∈ sequence.splitBy (sameKey key), run.length ≤ modulus ∧ ∀ a ∈ run, ∀ b ∈ run, a = b

variable {key modulus} {last : α} {rest : List α}

theorem length_decoded (last : α) (count : Nat) (rest : List α) :
    (decoded key modulus last count rest).length ≤ count + rest.length := by
  induction rest generalizing last count with
  | nil => simp [decoded]
  | cons a rest ih =>
    rw [decoded, List.length_cons]
    split
    · have more := ih last ((count + 1) % modulus)
      have wrapped := Nat.mod_le (count + 1) modulus
      omega
    · have more := ih a 0
      rw [List.length_append, List.length_replicate, List.length_cons]
      omega

theorem length_recovered (sequence : List α) : (recovered key modulus sequence).length ≤ sequence.length := by
  cases sequence with
  | nil => exact Nat.le_refl 0
  | cons a rest =>
    have more := @length_decoded α κ _ key modulus a 0 rest
    rw [recovered, List.length_cons, List.length_cons]
    omega

theorem decoded_run {run : List α} (same : ∀ a ∈ run, key a = key last) {count : Nat} (below : count < modulus) :
    decoded key modulus last count (run ++ rest) = decoded key modulus last ((count + run.length) % modulus) rest := by
  induction run generalizing count with
  | nil => rw [List.nil_append, List.length_nil, Nat.add_zero, Nat.mod_eq_of_lt below]
  | cons a run ih =>
    have first : key a = key last := same a List.mem_cons_self
    have others : ∀ b ∈ run, key b = key last := fun b member => same b (List.mem_cons_of_mem a member)
    rw [List.cons_append, decoded, if_pos first, ih others (Nat.mod_lt _ (by omega)), Nat.mod_add_mod, List.length_cons,
      Nat.add_assoc, Nat.add_comm 1]

theorem decoded_other (other : ∀ a ∈ rest.head?, key a ≠ key last) (count : Nat) :
    decoded key modulus last count rest = List.replicate count last ++ recovered key modulus rest := by
  cases rest with
  | nil => rw [decoded, recovered, List.append_nil]
  | cons a rest => rw [decoded, recovered, if_neg (other a rfl)]

theorem faithful_run {run : List α} (same : ∀ a ∈ run, key a = key last) (other : ∀ a ∈ rest.head?, key a ≠ key last) :
    Faithful key modulus (last :: run ++ rest) ↔
      ((last :: run).length ≤ modulus ∧ ∀ a ∈ run, a = last) ∧ Faithful key modulus rest := by
  have all : ∀ a ∈ last :: run, key a = key last := by
    intro a member
    rcases List.mem_cons.mp member with rfl | later
    · rfl
    · exact same a later
  have chain : (last :: run).IsChain fun a b => sameKey key a b := by
    apply List.Pairwise.isChain
    rw [List.pairwise_iff_forall_sublist]
    intro a b pair
    have first := all a (pair.subset (by simp))
    have second := all b (pair.subset (by simp))
    simp [sameKey, first, second]
  have split : (last :: run ++ rest).splitBy (sameKey key) = (last :: run) :: rest.splitBy (sameKey key) := by
    rw [List.splitBy_append, List.splitBy_of_isChain (List.cons_ne_nil last run) chain]
    · rfl
    · intro a final b first
      have front := all a (List.mem_of_mem_getLast? final)
      have behind := other b first
      simp [sameKey, front, Ne.symm behind]
  rw [Faithful, split, List.forall_mem_cons]
  refine and_congr_left' (and_congr_right' ⟨?_, ?_⟩)
  · intro equal a member
    exact equal a (List.mem_cons_of_mem last member) last List.mem_cons_self
  · intro equal
    have single : ∀ a ∈ last :: run, a = last := by
      intro a member
      rcases List.mem_cons.mp member with rfl | later
      · rfl
      · exact equal a later
    exact fun a first b second => (single a first).trans (single b second).symm

/-- Copies of a first element are the run behind it exactly if the run is no longer than the
counter can tell and has no other element. -/
theorem replicate_append_eq_iff (positive : 0 < modulus) {run back : List α} (shorter : back.length ≤ rest.length) :
    List.replicate (run.length % modulus) last ++ back = run ++ rest ↔
      (run.length + 1 ≤ modulus ∧ ∀ a ∈ run, a = last) ∧ back = rest := by
  constructor
  · intro equal
    have sizes := congrArg List.length equal
    have wrapped := Nat.mod_le run.length modulus
    rw [List.length_append, List.length_append, List.length_replicate] at sizes
    have counted : run.length % modulus = run.length := by omega
    obtain ⟨copies, remains⟩ := List.append_inj equal (by rw [List.length_replicate, counted])
    refine ⟨⟨?_, ?_⟩, remains⟩
    · have below := Nat.mod_lt run.length positive
      omega
    · intro a member
      rw [← copies] at member
      exact List.eq_of_mem_replicate member
  · rintro ⟨⟨fits, equal⟩, remains⟩
    rw [Nat.mod_eq_of_lt fits, remains, ← List.eq_replicate_of_mem equal]

/-- What comes back is the sequence exactly if it is faithful. -/
theorem recovered_eq_iff (positive : 0 < modulus) (sequence : List α) :
    recovered key modulus sequence = sequence ↔ Faithful key modulus sequence := by
  induction size : sequence.length using Nat.strongRecOn generalizing sequence with
  | ind size ih =>
    cases sequence with
    | nil => exact iff_of_true rfl fun run member => absurd member (by simp)
    | cons last behind =>
      let run := behind.takeWhile fun a => key a = key last
      let rest := behind.dropWhile fun a => key a = key last
      have whole : run ++ rest = behind := List.takeWhile_append_dropWhile
      have same : ∀ a ∈ run, key a = key last := fun a member => by simpa using List.mem_takeWhile_imp member
      have other : ∀ a ∈ rest.head?, key a ≠ key last := by
        intro a first
        have head := @List.head?_dropWhile_not α (fun a => key a = key last) behind
        rw [Option.mem_def.mp first] at head
        simpa using head
      have length := congrArg List.length whole
      rw [List.length_append] at length
      rw [List.length_cons] at size
      have later := ih rest.length (by omega) rest rfl
      have shorter := @length_recovered α κ _ key modulus rest
      rw [← whole, ← List.cons_append, faithful_run same other, ← later, List.cons_append, recovered,
        decoded_run same positive, decoded_other other, Nat.zero_add, List.cons_inj_right, List.length_cons]
      exact replicate_append_eq_iff positive shorter

end LibWebserver.RunLength
