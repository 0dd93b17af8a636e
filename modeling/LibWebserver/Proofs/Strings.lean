import LibWebserver.Proofs.Buffer
import LibWebserver.Strings
import LibWebserver.Library.Refinement
import Mathlib.Data.List.GetD

/-! A string refines a plain list of bytes, as long as no operation drops the
terminator or reads a block that has been given back. -/

namespace LibWebserver.CString
open CStr

/-- The block holds the content, the reserve and a terminator. A null string holds
nothing. -/
structure Stored (s : CString) (bytes : Bytes) : Prop where
  room : s.length + s.reserved + 1 ≤ s.string.length ∨ s.string = [] ∧ s.length = 0 ∧ s.reserved = 0
  sized : s.string.length < 2 ^ 64
  content : s.content = bytes

/-- A string stands for a list of bytes, and nothing that searches it sees more. -/
structure Refines (s : CString) (bytes : Bytes) : Prop extends Stored s bytes where
  terminated : s.string ≠ [] → s.string[s.length]? = some 0
  shown : s.string ≠ [] → cstr s.string = cstr bytes
  found : s.string ≠ [] → ∀ str, 0 ∉ str → s.find str = pos bytes str ∧
    ∀ start, s.findFrom str start = posFrom bytes str start

variable {s : CString} {bytes : Bytes}

theorem Stored.length (stored : Stored s bytes) : s.length = bytes.length := by
  rw [← stored.content, CString.content, List.length_take]
  rcases stored.room with room | ⟨_, none, _⟩ <;> omega

theorem Stored.small (stored : Stored s bytes) : s.length + s.reserved + 1 < 2 ^ 64 := by
  have sized := stored.sized
  rcases stored.room with room | ⟨_, none, nothing⟩ <;> omega

theorem Stored.split (stored : Stored s bytes) (terminated : s.string[s.length]? = some 0) :
    ∃ rest, s.string = bytes ++ 0 :: rest := by
  obtain ⟨inside, nul⟩ := List.getElem?_eq_some_iff.mp terminated
  refine ⟨s.string.drop (s.length + 1), ?_⟩
  rw [← stored.content, CString.content, ← nul, List.getElem_cons_drop, List.take_append_drop]

theorem Stored.refines (stored : Stored s bytes) (terminated : s.string ≠ [] → s.string[s.length]? = some 0) :
    Refines s bytes := by
  refine { toStored := stored, terminated, shown := fun block => ?_, found := fun block str absent => ?_ }
  · obtain ⟨rest, split⟩ := stored.split (terminated block)
    rw [split, cstr_nul]
  · obtain ⟨rest, split⟩ := stored.split (terminated block)
    refine ⟨by rw [find, split, strstr_nul absent, pos], fun start => ?_⟩
    rw [findFrom, posFrom, stored.length]
    split_ifs with outside
    · rfl
    · rw [split, List.drop_append_of_le_length (by omega), strstr_nul absent]

theorem refines_empty : Refines empty [] :=
  Stored.refines ⟨.inr ⟨rfl, rfl, rfl⟩, by decide, rfl⟩ fun block => absurd rfl block

theorem Valid.refines (valid : s.Valid) : Refines s s.content :=
  Stored.refines ⟨.inl (Nat.le_of_eq valid.room.symm), by rw [valid.room]; exact valid.small, rfl⟩ fun _ => valid.terminated

theorem store_eq_some {block data : Bytes} {offset : Nat} (inside : offset + data.length ≤ block.length) :
    store block offset data = some (memcpy block offset data) := if_pos inside

theorem take_memcpy_front {block data : Bytes} {offset : Nat} (inside : offset ≤ block.length) :
    (memcpy block offset data).take offset = block.take offset := by
  rw [memcpy, List.append_assoc, List.take_append_of_le_length (by rw [List.length_take]; omega), List.take_take,
    Nat.min_self]

theorem put_refines {str : Bytes} (content : s.content = bytes) (inside : s.length ≤ s.string.length)
    (room : s.length + str.length + s.reserved + 1 ≤ s.string.length) (sized : s.string.length < 2 ^ 64) :
    ∃ after, s.put str = some after ∧ Refines after (bytes ++ str) := by
  let block := memcpy s.string s.length str
  have size : block.length = s.string.length := length_memcpy (by omega)
  have written : (memcpy block (s.length + str.length) [0]).length = s.string.length := by
    rw [length_memcpy (by rw [List.length_singleton]; omega), size]
  have kept : (memcpy block (s.length + str.length) [0]).take (s.length + str.length) = bytes ++ str := by
    rw [take_memcpy_front (by omega), take_memcpy inside, ← content]
    rfl
  refine ⟨⟨memcpy block (s.length + str.length) [0], s.length + str.length, s.reserved⟩, ?_, ?_⟩
  · rw [put, store_eq_some (by omega)]
    change (do let final ← store block (s.length + str.length) [0]; _) = _
    rw [store_eq_some (by rw [List.length_singleton]; omega)]
    rfl
  · refine Stored.refines ⟨.inl ?_, by rw [written]; exact sized, kept⟩ fun _ => ?_
    · rw [written]
      exact room
    · have behind : s.length + str.length = (block.take (s.length + str.length)).length := by
        rw [List.length_take]
        omega
      dsimp only
      rw [memcpy, List.append_assoc, List.getElem?_append_right (by omega), ← behind, Nat.sub_self]
      rfl

theorem ofBytes_refines {str : Bytes} (small : str.length + 1 < 2 ^ 64) :
    ∃ s, ofBytes str = some s ∧ Refines s str := by
  have size : addSize str.length 1 = str.length + 1 := Nat.mod_eq_of_lt small
  have blank : (malloc (addSize str.length 1)).length = str.length + 1 := by
    rw [malloc, List.length_replicate, size]
  obtain ⟨s, done, refines⟩ := @put_refines ⟨malloc (addSize str.length 1), 0, 0⟩ [] str rfl (Nat.zero_le _)
    (by rw [blank, Nat.zero_add]; exact Nat.le_refl _) (by rw [blank]; exact small)
  refine ⟨s, ?_, refines⟩
  rw [← done, put, ofBytes]
  simp only [Nat.zero_add]

theorem makeRoom_stored (stored : Stored s bytes) {len : Nat} (fits : s.length + len + 1 < 2 ^ 64) :
    (s.makeRoom len).length = s.length ∧ (s.makeRoom len).content = bytes ∧
      s.length + len + (s.makeRoom len).reserved + 1 ≤ (s.makeRoom len).string.length ∧
      (s.makeRoom len).string.length < 2 ^ 64 := by
  have length := stored.length
  unfold makeRoom
  split_ifs with fresh enough
  · have size : addSize len 1 = len + 1 := Nat.mod_eq_of_lt (by omega)
    have none : bytes = [] := List.length_eq_zero_iff.mp (by omega)
    have blank : (malloc (addSize len 1)).length = len + 1 := by rw [malloc, List.length_replicate, size]
    refine ⟨rfl, ?_, ?_, ?_⟩
    · rw [none, CString.content, fresh.1, List.take_zero]
    · rw [blank]
      dsimp only
      omega
    · rw [blank]
      omega
  · refine ⟨rfl, stored.content, ?_, stored.sized⟩
    rcases stored.room with room | ⟨_, _, none⟩
    · dsimp only
      omega
    · omega
  · have size : addSize (addSize s.length len) 1 = s.length + len + 1 := by
      simp only [addSize]
      omega
    refine ⟨rfl, ?_, ?_, ?_⟩
    · rw [← stored.content, CString.content, CString.content, size]
      change (realloc s.string (s.length + len + 1)).take s.length = s.string.take s.length
      rcases stored.room with room | ⟨_, none, _⟩
      · exact take_realloc (by omega) (by omega)
      · rw [none, List.take_zero, List.take_zero]
    · rw [length_realloc, size]
      exact Nat.le_refl _
    · rw [length_realloc, size]
      exact fits

/-- The terminator of the old content is not needed: `Append` writes a new one. -/
theorem grow_refines (stored : Stored s bytes) {str : Bytes} (fits : s.length + str.length + 1 < 2 ^ 64) :
    ∃ after, (s.makeRoom str.length).put str = some after ∧ Refines after (bytes ++ str) := by
  obtain ⟨length, content, room, sized⟩ := makeRoom_stored stored fits
  exact put_refines content (by omega) (by omega) sized

theorem Refines.append (refines : Refines s bytes) {str : Bytes} (fits : s.length + str.length + 1 < 2 ^ 64) :
    ∃ after, s.append str = some after ∧ Refines after (bytes ++ str) := by
  unfold CString.append
  split_ifs with none
  · exact ⟨s, rfl, by rw [List.length_eq_zero_iff.mp none, List.append_nil]; exact refines⟩
  · exact grow_refines refines.toStored fits

theorem Refines.appendChar (refines : Refines s bytes) {ch : UInt8} (fits : s.length + 1 + 1 < 2 ^ 64) :
    ∃ after, s.appendChar ch = some after ∧ Refines after (bytes ++ [ch]) :=
  @grow_refines s bytes refines.toStored [ch] fits

private theorem refines_set {block : Bytes} {length reserved : Nat} (room : length + reserved + 1 ≤ block.length)
    (sized : block.length < 2 ^ 64) (content : block.take length = bytes) :
    Refines ⟨block.set length 0, length, reserved⟩ bytes := by
  refine Stored.refines ⟨.inl ?_, ?_, ?_⟩ fun _ => List.getElem?_set_self (by omega)
  · rw [List.length_set]
    exact room
  · rw [List.length_set]
    exact sized
  · rw [content_set, content]

theorem Refines.reserve (refines : Refines s bytes) {len : Nat} (fits : s.length + s.reserved + len + 1 < 2 ^ 64) :
    Refines (s.reserve len) bytes := by
  have length := refines.length
  have grown : addSize s.reserved len = s.reserved + len := Nat.mod_eq_of_lt (by omega)
  unfold CString.reserve
  rw [grown]
  by_cases fresh : s.length = 0 ∧ s.reserved = 0
  · rw [if_pos fresh]
    have size : addSize len 1 = len + 1 := Nat.mod_eq_of_lt (by omega)
    have blank : (malloc (addSize len 1)).length = len + 1 := by rw [malloc, List.length_replicate, size]
    have none : bytes = [] := List.length_eq_zero_iff.mp (by omega)
    exact refines_set (by rw [blank]; omega) (by rw [blank]; omega) (by rw [none, fresh.1, List.take_zero])
  · rw [if_neg fresh]
    have size : addSize (addSize (addSize s.length s.reserved) len) 1 = s.length + s.reserved + len + 1 := by
      simp only [addSize]
      omega
    rw [size]
    refine refines_set (by rw [length_realloc]; omega) (by rw [length_realloc]; exact fits) ?_
    rcases refines.room with room | ⟨_, none, nothing⟩
    · rw [take_realloc (by omega) (by omega), ← refines.content, CString.content]
    · exact absurd ⟨none, nothing⟩ fresh

theorem Stored.erase (stored : Stored s bytes) {start len : Nat} (inside : start + len ≤ s.length)
    (block : s.string ≠ []) :
    ∃ after, s.erase start len = .ok after ∧ Refines after (bytes.take start ++ bytes.drop (start + len)) := by
  have small := stored.small
  have sum : addSize start len = start + len := Nat.mod_eq_of_lt (by omega)
  have room : s.length + s.reserved + 1 ≤ s.string.length := by
    rcases stored.room with room | ⟨none, _, _⟩
    · exact room
    · exact absurd none block
  let moved := (s.string.drop (start + len)).take (s.length - start - len)
  have size : moved.length = s.length - start - len := by
    rw [List.length_take, List.length_drop]
    omega
  have kept : (memcpy s.string start moved).length = s.string.length := length_memcpy (by omega)
  have total : s.length - len = start + moved.length := by omega
  rw [CString.erase, sum, if_neg (by omega), if_pos inside]
  refine ⟨_, rfl, refines_set (by rw [kept]; omega) (by rw [kept]; exact stored.sized) ?_⟩
  have front : (s.string.take s.length).take start = s.string.take start := by
    rw [List.take_take, Nat.min_eq_left (by omega)]
  have back : (s.string.take s.length).drop (start + len) = moved := by
    rw [List.drop_take, ← Nat.sub_sub]
  have taken : (memcpy s.string start moved).take (start + moved.length) = s.string.take start ++ moved :=
    take_memcpy (by omega)
  rw [total, taken, ← stored.content, CString.content, front, back]

theorem Refines.clear (refines : Refines s bytes) : Refines s.clear [] := by
  have length := refines.length
  unfold CString.clear
  split_ifs with none
  · rw [← List.length_eq_zero_iff.mp (show bytes.length = 0 by omega)]
    exact refines
  · rcases refines.room with room | ⟨_, none', _⟩
    · exact refines_set (by omega) refines.sized rfl
    · exact absurd none' none

theorem Refines.adjustLength (refines : Refines s bytes) {len : Int} (shrinks : len ≤ 0) (inside : -len ≤ s.length) :
    ∃ after, s.adjustLength len = .ok after ∧ Refines after (bytes.take (bytes.length + len).toNat) := by
  have length := refines.length
  unfold CString.adjustLength
  split_ifs with none short long
  · refine ⟨s, rfl, ?_⟩
    rw [none, Int.add_zero, Int.toNat_natCast, List.take_length]
    exact refines
  · omega
  · omega
  · have less : ((s.length : Int) + len).toNat ≤ s.length := by omega
    refine ⟨_, rfl, ?_⟩
    rcases refines.room with room | ⟨_, nothing, _⟩
    · refine refines_set (by omega) refines.sized ?_
      rw [← length, ← refines.content, CString.content, List.take_take, Nat.min_eq_left less]
    · omega

end LibWebserver.CString

namespace LibWebserver.Strings
open CString

variable {store : List CString} {contents : List Bytes}

/-- Every string of a program stands for its list of bytes. -/
structure Represents (store : List CString) (contents : List Bytes) : Prop where
  size : store.length = contents.length
  refines : ∀ s < store.length, Refines (get store s) (contents.getD s [])

theorem Represents.nil : Represents [] [] := ⟨rfl, fun _ none => absurd none (Nat.not_lt_zero _)⟩

theorem Represents.push (represents : Represents store contents) {s : CString} {bytes : Bytes} (refines : Refines s bytes) :
    Represents (store ++ [s]) (contents ++ [bytes]) := by
  have size := represents.size
  refine ⟨by simp [size], fun i inside => ?_⟩
  rw [List.length_append, List.length_singleton] at inside
  unfold get
  rcases Nat.lt_or_eq_of_le (Nat.le_of_lt_succ inside) with before | last
  · rw [List.getD_append _ _ _ _ before, List.getD_append _ _ _ _ (size ▸ before)]
    exact represents.refines i before
  · rw [List.getD_append_right _ _ _ _ (by omega), List.getD_append_right _ _ _ _ (by omega), last, ← size, Nat.sub_self]
    exact refines

theorem get_set (store : List CString) (s other : Nat) (after : CString) (inside : other < store.length) :
    get (store.set s after) other = if s = other then after else get store other := by
  unfold get
  rw [List.getD_eq_getElem?_getD, List.getElem?_set, List.getD_eq_getElem?_getD]
  split_ifs
  · rfl
  · omega
  · rfl

theorem getD_modify (contents : List Bytes) (s other : Nat) (change : Bytes → Bytes) (inside : other < contents.length) :
    (contents.modify s change).getD other [] = if s = other then change (contents.getD other []) else contents.getD other [] := by
  rw [List.getD_eq_getElem?_getD, List.getElem?_modify, List.getD_eq_getElem?_getD, List.getElem?_eq_getElem inside]
  split_ifs <;> rfl

theorem Represents.set_iff (represents : Represents store contents) {s : Nat} (inside : s < store.length) (after : CString)
    (change : Bytes → Bytes) :
    Represents (store.set s after) (contents.modify s change) ↔ Refines after (change (contents.getD s [])) := by
  have size := represents.size
  constructor
  · intro holds
    have here := holds.refines s (by rw [List.length_set]; exact inside)
    rwa [get_set store s s after inside, getD_modify contents s s change (size ▸ inside), if_pos rfl, if_pos rfl] at here
  · intro refines
    refine ⟨by rw [List.length_set, List.length_modify, size], fun other within => ?_⟩
    rw [List.length_set] at within
    rw [get_set store s other after within, getD_modify contents s other change (size ▸ within)]
    split_ifs with same
    · exact same ▸ refines
    · exact represents.refines other within

theorem get_eq {s : Nat} (inside : s < store.length) : store[s]? = some (get store s) := by
  rw [get, List.getD_eq_getElem?_getD, List.getElem?_eq_getElem inside, Option.getD_some]

theorem update_eq {s : Nat} (inside : s < store.length) (operation : CString → Option CString) :
    update store s operation = (operation (get store s)).map (store.set s) := by
  rw [update, get_eq inside]
  change (operation (get store s)).bind (fun after => some (store.set s after)) = _
  rw [Option.map_eq_bind]
  rfl

theorem Represents.update_iff (represents : Represents store contents) {s : Nat} (inside : s < store.length)
    (operation : CString → Option CString) (change : Bytes → Bytes) :
    (∃ after, update store s operation = some after ∧ Represents after (contents.modify s change)) ↔
      ∃ after, operation (get store s) = some after ∧ Refines after (change (contents.getD s [])) := by
  rw [update_eq inside]
  constructor
  · rintro ⟨_, done, holds⟩
    obtain ⟨after, taken, rfl⟩ := Option.map_eq_some_iff.mp done
    exact ⟨after, taken, (represents.set_iff inside after change).mp holds⟩
  · rintro ⟨after, taken, refines⟩
    exact ⟨store.set s after, by rw [taken]; rfl, (represents.set_iff inside after change).mpr refines⟩

theorem Represents.update (represents : Represents store contents) {s : Nat} (inside : s < store.length)
    {operation : CString → Option CString} {change : Bytes → Bytes}
    (keeps : ∃ after, operation (get store s) = some after ∧ Refines after (change (contents.getD s []))) :
    ∃ after, Strings.update store s operation = some after ∧ Represents after (contents.modify s change) :=
  (represents.update_iff inside operation change).mpr keeps

/-- A string whose length `operator=` has reset. -/
def reset (s : CString) : CString := { s with length := 0, reserved := s.reserved + s.length }

theorem reset_stored {s : CString} {bytes : Bytes} (stored : Stored s bytes) : Stored (reset s) [] := by
  refine ⟨?_, stored.sized, rfl⟩
  unfold reset
  dsimp only
  rcases stored.room with room | ⟨null, none, nothing⟩
  · left
    omega
  · right
    exact ⟨null, rfl, by omega⟩

/-- Without anything appended the old first byte is what terminates the string. -/
theorem reset_refines_iff {s : CString} {bytes : Bytes} (refines : Refines s bytes) :
    Refines (reset s) [] ↔ s.length = 0 ∨ CStr.peek s.string = 0 := by
  have stored := reset_stored refines.toStored
  have first : ∀ block : s.string ≠ [], s.string[0]? = some 0 ↔ CStr.peek s.string = 0 := by
    intro block
    obtain ⟨c, rest, some⟩ := List.exists_cons_of_ne_nil block
    rw [some]
    simp
  constructor
  · intro holds
    by_cases block : s.string = []
    · rcases refines.room with room | ⟨_, none, _⟩
      · rw [block, List.length_nil] at room
        omega
      · exact .inl none
    · exact .inr ((first block).mp (holds.terminated block))
  · rintro (none | nul)
    · refine stored.refines fun block => ?_
      have terminated := refines.terminated block
      rwa [none] at terminated
    · exact stored.refines fun block => (first block).mpr nul

theorem append_eq {s str : Nat} (there : str < store.length) :
    append store s str =
      if s = str ∧ (get store str).length ≠ 0 ∧ (get store str).reserved ≤ (get store str).length then none
      else update store s (·.append (get store str).content) := by
  rw [append, get_eq there]
  rfl

/-- A string that is assigned to itself is already empty when it is read. -/
theorem assign_eq {s str : Nat} (inside : s < store.length) (there : str < store.length) :
    assign store s str =
      ((reset (get store s)).append (if s = str then [] else (get store str).content)).map (store.set s) := by
  have entered : s < (store.set s (reset (get store s))).length := by rw [List.length_set]; exact inside
  have present : str < (store.set s (reset (get store s))).length := by rw [List.length_set]; exact there
  have done : assign store s str = append (store.set s (reset (get store s))) s str := by
    rw [assign, update_eq inside]
    rfl
  have unmoved : ¬ (s = str ∧ (get (store.set s (reset (get store s))) str).length ≠ 0 ∧
      (get (store.set s (reset (get store s))) str).reserved ≤ (get (store.set s (reset (get store s))) str).length) := by
    rintro ⟨rfl, some, _⟩
    rw [get_set store s s _ inside, if_pos rfl] at some
    exact some rfl
  have content : (get (store.set s (reset (get store s))) str).content =
      if s = str then [] else (get store str).content := by
    rw [get_set store s str _ there]
    split_ifs <;> rfl
  rw [done, append_eq present, if_neg unmoved, content, update_eq entered, get_set store s s _ inside, if_pos rfl]
  congr 1
  funext after
  rw [List.set_set]

/-- The assignment keeps what the strings stand for exactly if what it stores does. -/
theorem assign_refines_iff {s str : Nat} (represents : Represents store contents) (inside : s < store.length)
    (there : str < store.length) :
    (∃ after, assign store s str = some after ∧
      Represents after (contents.modify s fun _ => contents.getD str [])) ↔
      ∃ after, (reset (get store s)).append (if s = str then [] else (get store str).content) = some after ∧
        Refines after (contents.getD str []) := by
  rw [assign_eq inside there]
  constructor
  · rintro ⟨_, done, holds⟩
    obtain ⟨after, taken, rfl⟩ := Option.map_eq_some_iff.mp done
    exact ⟨after, taken, (represents.set_iff inside after fun _ => contents.getD str []).mp holds⟩
  · rintro ⟨after, taken, refines⟩
    exact ⟨store.set s after, by rw [taken]; rfl,
      (represents.set_iff inside after fun _ => contents.getD str []).mpr refines⟩

theorem reset_append_nil (s : CString) : (reset s).append [] = some (reset s) := rfl

theorem assign_own {s : CString} {bytes : Bytes} (target : Refines s bytes) :
    (∃ after, (reset s).append [] = some after ∧ Refines after bytes) ↔ s.length = 0 := by
  rw [reset_append_nil]
  constructor
  · rintro ⟨_, done, refines⟩
    obtain rfl := Option.some.inj done
    rw [target.length, ← refines.length]
    rfl
  · intro none
    have empty : bytes = [] := List.length_eq_zero_iff.mp (by rw [← target.length]; exact none)
    refine ⟨_, rfl, ?_⟩
    rw [empty]
    exact (reset_refines_iff (empty ▸ target)).mpr (.inl none)

theorem assign_other {s str : CString} {bytes others : Bytes} (target : Refines s bytes) (source : Refines str others) :
    (∃ after, (reset s).append others = some after ∧ Refines after others) ↔
      (str.length = 0 → s.length = 0 ∨ CStr.peek s.string = 0) := by
  by_cases none : str.length = 0
  · have empty : others = [] := List.length_eq_zero_iff.mp (by rw [← source.length]; exact none)
    rw [empty, reset_append_nil]
    constructor
    · rintro ⟨_, done, refines⟩ _
      obtain rfl := Option.some.inj done
      exact (reset_refines_iff target).mp refines
    · intro shown
      exact ⟨_, rfl, (reset_refines_iff target).mpr (shown none)⟩
  · refine iff_of_true ?_ fun empty => absurd empty none
    have small := source.small
    have length := source.length
    have fits : (reset s).length + others.length + 1 < 2 ^ 64 := by
      change 0 + others.length + 1 < 2 ^ 64
      omega
    obtain ⟨after, grown, refines⟩ := grow_refines (reset_stored target.toStored) fits
    refine ⟨after, ?_, refines⟩
    rw [CString.append, if_neg (by omega)]
    exact grown

/-- What is assigned replaces the content, unless nothing is written at all. -/
theorem assign_refines {s str : Nat} (represents : Represents store contents) (inside : s < store.length)
    (there : str < store.length) :
    (∃ after, assign store s str = some after ∧
      Represents after (contents.modify s fun _ => contents.getD str [])) ↔
      if s = str then (get store s).length = 0
      else (get store str).length = 0 → (get store s).length = 0 ∨ CStr.peek (get store s).string = 0 := by
  have target := represents.refines s inside
  have source := represents.refines str there
  rw [assign_refines_iff represents inside there]
  split_ifs with same
  · subst same
    exact assign_own target
  · rw [source.content]
    exact assign_other target source

theorem append_refines {s str : Nat} (represents : Represents store contents) (inside : s < store.length)
    (there : str < store.length) (fits : (get store s).length + (get store str).length + 1 < 2 ^ 64) :
    (∃ after, append store s str = some after ∧
      Represents after (contents.modify s (· ++ contents.getD str []))) ↔
      (s = str → (get store s).length = 0 ∨ (get store s).length < (get store s).reserved) := by
  have source := represents.refines str there
  rw [append_eq there]
  split_ifs with moved
  · obtain ⟨rfl, some, short⟩ := moved
    refine iff_of_false (fun ⟨_, done, _⟩ => nomatch done) fun safe => ?_
    rcases safe rfl with none | enough
    · exact some none
    · omega
  · refine iff_of_true (represents.update inside ?_) fun same => ?_
    · rw [source.content]
      exact (represents.refines s inside).append (by rw [← source.length]; exact fits)
    · subst same
      by_contra violated
      exact moved ⟨rfl, by omega, by omega⟩

theorem Represents.length {s : Nat} (represents : Represents store contents) (inside : s < store.length) :
    (get store s).length = (contents.getD s []).length := (represents.refines s inside).length

theorem erase_null {s : CString} (null : s.string = []) {start len : Nat} (range : start + len ≤ s.length)
    (small : s.length < 2 ^ 64) : erase start len s = none := by
  have sum : addSize start len = start + len := Nat.mod_eq_of_lt (by omega)
  rw [erase, CString.erase, sum, if_neg (by omega), if_pos range]
  dsimp only
  rw [if_pos null]

/-- One operation keeps what every string stands for exactly when it is safe. -/
theorem step_iff (operation : Op) (represents : Represents store contents) (range : InRange store operation) :
    (∃ after, step store operation = some after ∧ Represents after (spec contents operation)) ↔
      Safe store operation := by
  cases operation with
  | create => exact iff_of_true ⟨_, rfl, represents.push refines_empty⟩ trivial
  | createSize len =>
    refine iff_of_true ⟨_, rfl, represents.push ?_⟩ trivial
    exact content_ofSize len ▸ (valid_ofSize range).refines
  | createBytes str =>
    obtain ⟨s, done, refines⟩ := ofBytes_refines range
    refine iff_of_true ⟨store ++ [s], ?_, represents.push refines⟩ trivial
    rw [step, done]
    rfl
  | copy str =>
    have source := represents.refines str range
    have small := source.small
    obtain ⟨s, done, refines⟩ := @ofBytes_refines (contents.getD str []) (by rw [← source.length]; omega)
    refine iff_of_true ⟨store ++ [s], ?_, represents.push refines⟩ trivial
    rw [step, get_eq range]
    change (do return store ++ [← (get store str).copy]) = _
    rw [copy, source.content, done]
    rfl
  | assign s str => exact assign_refines represents range.1 range.2
  | append s str => exact append_refines represents range.1.1 range.1.2 range.2
  | appendBytes s str =>
    exact iff_of_true (represents.update range.1 ((represents.refines s range.1).append range.2)) trivial
  | appendChar s ch =>
    exact iff_of_true (represents.update range.1 ((represents.refines s range.1).appendChar range.2)) trivial
  | reserve s len =>
    refine iff_of_true ?_ trivial
    have same : spec contents (.reserve s len) = contents.modify s id := (List.modify_id s contents).symm
    rw [same]
    exact represents.update range.1 ⟨_, rfl, (represents.refines s range.1).reserve range.2⟩
  | erase s start len =>
    have own := represents.update_iff range.1 (erase start len) fun bytes => bytes.take start ++ bytes.drop (start + len)
    refine own.trans ?_
    by_cases null : (get store s).string = []
    · refine iff_of_false ?_ fun safe => safe null
      rintro ⟨after, done, _⟩
      have small := (represents.refines s range.1).small
      rw [erase_null null range.2 (by omega)] at done
      cases done
    · obtain ⟨after, done, refines⟩ := (represents.refines s range.1).erase range.2 null
      refine iff_of_true ⟨after, ?_, refines⟩ null
      rw [erase, done]
      exact if_neg null
  | clear s => exact iff_of_true (represents.update range ⟨_, rfl, (represents.refines s range).clear⟩) trivial
  | adjustLength s len =>
    obtain ⟨after, done, refines⟩ := (represents.refines s range.1).adjustLength range.2.1 range.2.2
    refine iff_of_true (represents.update range.1 ⟨after, ?_, refines⟩) trivial
    rw [adjustLength, done]

/-- The strings of a program stand for their byte lists in every state of a run
exactly when every operation of it is safe. -/
theorem strings_refine_iff (operations : List Op) (range : Refinement.Along step InRange [] operations) :
    Refinement.Throughout step spec Represents [] [] operations ↔ Refinement.Along step Safe [] operations :=
  Refinement.throughout_iff (fun _ _ => step_iff) Represents.nil range

theorem strings_refine_sample :
    Refinement.Throughout step spec Represents [] []
      [.createBytes [97, 98, 99], .create, .assign 1 0, .append 0 1, .erase 0 1 2, .append 0 0, .adjustLength 0 (-1)] ↔
    Refinement.Along step Safe []
      [.createBytes [97, 98, 99], .create, .assign 1 0, .append 0 1, .erase 0 1 2, .append 0 0, .adjustLength 0 (-1)] :=
  strings_refine_iff _ (by decide +kernel)

/-- An empty string assigned to "abc" leaves an `a` where the terminator should be. -/
theorem assign_empty_shows :
    ¬ ∀ operations : List Op, Refinement.Along step InRange [] operations →
      Refinement.Throughout step spec Represents [] [] operations := by
  intro always
  have range : Refinement.Along step InRange [] [.createBytes [97, 98, 99], .create, .assign 0 1] := by decide +kernel
  have safe := (Refinement.throughout_iff (fun _ _ => step_iff) Represents.nil range).mp (always _ range)
  revert safe
  decide +kernel

end LibWebserver.Strings
