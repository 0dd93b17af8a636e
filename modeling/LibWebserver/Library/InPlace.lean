import Mathlib.Data.List.Basic

/-! Rewriting a block in place. What is read stands from one index on and what has been
written stands before another, which never passes it: a pass that takes more than it
puts leaves all that is still to be read as it was. -/

namespace LibWebserver.InPlace

universe u

variable {α : Type u} {block out rest : List α} {src dst : Nat}

/-- `out` has been written, and `rest` is still to be read. -/
structure Rewriting (block : List α) (src dst : Nat) (out rest : List α) : Prop where
  written : block.take dst = out
  unread : block.drop src = rest
  behind : dst ≤ src
  inside : src ≤ block.length

theorem Rewriting.start (block : List α) : Rewriting block 0 0 [] block :=
  ⟨List.take_zero, List.drop_zero, Nat.le_refl 0, Nat.zero_le _⟩

theorem Rewriting.length_out (rewriting : Rewriting block src dst out rest) : out.length = dst := by
  rw [← rewriting.written, List.length_take]
  have := rewriting.behind
  have := rewriting.inside
  omega

theorem Rewriting.length_block (rewriting : Rewriting block src dst out rest) : block.length = src + rest.length := by
  rw [← rewriting.unread, List.length_drop]
  have := rewriting.inside
  omega

theorem Rewriting.getElem? (rewriting : Rewriting block src dst out rest) (i : Nat) : block[src + i]? = rest[i]? := by
  rw [← rewriting.unread, List.getElem?_drop]

/-- A pass takes `n` elements and puts one. -/
theorem Rewriting.put (rewriting : Rewriting block src dst out rest) {n : Nat} (some : 0 < n) (available : n ≤ rest.length)
    (a : α) : Rewriting (block.set dst a) (src + n) (dst + 1) (out ++ [a]) (rest.drop n) := by
  have length := rewriting.length_block
  have behind := rewriting.behind
  constructor
  · rw [List.take_add_one, List.take_set_of_le (Nat.le_refl dst), rewriting.written, List.getElem?_set_self (by omega)]
    rfl
  · rw [List.drop_set_of_lt (by omega), ← List.drop_drop, rewriting.unread]
  · omega
  · rw [List.length_set]
    omega

end LibWebserver.InPlace
