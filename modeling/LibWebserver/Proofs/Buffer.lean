import LibWebserver.Connection

/-! The receive buffer: the block always holds the content, the reserved bytes
and a NUL, so that a read goes behind the content and stays inside. -/

namespace LibWebserver.CString

/-- The block is as large as the sizes say, below the end of the address space,
and the content is terminated. -/
structure Valid (s : CString) : Prop where
  room : s.string.length = s.length + s.reserved + 1
  small : s.length + s.reserved + 1 < 2 ^ 64
  terminated : s.string[s.length]? = some 0

theorem Valid.content_length {s : CString} (valid : s.Valid) : s.content.length = s.length := by
  rw [content, List.length_take, valid.room]
  omega

private theorem valid_set {block : Bytes} {length reserved : Nat} (room : block.length = length + reserved + 1)
    (small : length + reserved + 1 < 2 ^ 64) : Valid ⟨block.set length 0, length, reserved⟩ := by
  refine ⟨by rw [List.length_set, room], small, ?_⟩
  dsimp only
  rw [List.getElem?_set_self (by omega)]

theorem content_set (block : Bytes) (length reserved : Nat) :
    content ⟨block.set length 0, length, reserved⟩ = block.take length := by
  rw [content, List.take_set_of_le (Nat.le_refl length)]

theorem valid_ofSize {len : Nat} (small : len + 1 < 2 ^ 64) : (ofSize len).Valid := by
  have size : addSize len 1 = len + 1 := Nat.mod_eq_of_lt small
  apply valid_set
  · rw [malloc, List.length_replicate, size, Nat.zero_add]
  · rw [Nat.zero_add]; exact small

theorem content_ofSize (len : Nat) : (ofSize len).content = [] := rfl

/-- What an operation on the content leaves. -/
structure Holds (s : CString) (content : Bytes) : Prop where
  valid : s.Valid
  content : s.content = content

theorem Valid.holds {s : CString} (valid : s.Valid) : Holds s s.content := ⟨valid, rfl⟩

theorem Holds.length {s : CString} {content : Bytes} (holds : Holds s content) : s.length = content.length := by
  rw [← holds.content, holds.valid.content_length]

theorem length_realloc (block : Bytes) (size : Nat) : (realloc block size).length = size := by
  rw [realloc, List.length_append, List.length_take, List.length_replicate]
  omega

theorem take_realloc {block : Bytes} {size n : Nat} (le : n ≤ size) (inside : n ≤ block.length) :
    (realloc block size).take n = block.take n := by
  rw [realloc, List.take_append_of_le_length (by rw [List.length_take]; omega), List.take_take, Nat.min_eq_left le]

open World in
theorem holds_reserveBuffer {s : CString} {content : Bytes} (holds : Holds s content)
    (fits : content.length + 1501 < 2 ^ 64) :
    Holds (reserveBuffer s) content ∧ bufferLength ≤ (reserveBuffer s).reserved := by
  have length := holds.length
  obtain ⟨⟨room, small, terminated⟩, same⟩ := holds
  have wanted : bufferLength = 1500 := rfl
  have sum : addSize bufferLength s.length = 1500 + s.length := by rw [addSize, wanted]; omega
  have grown : addSize s.reserved (subSize bufferLength s.reserved) = 1500 := by
    rw [addSize, subSize, wanted]; omega
  unfold reserveBuffer
  split
  next short =>
    unfold reserve
    rw [grown]
    refine ⟨?_, Nat.le_refl _⟩
    by_cases empty : s.length = 0 ∧ s.reserved = 0
    · rw [if_pos empty]
      have size : addSize (subSize bufferLength s.reserved) 1 = s.length + 1500 + 1 := by
        rw [addSize, subSize, wanted]; omega
      refine ⟨valid_set (by rw [size, malloc, List.length_replicate]) (by omega), ?_⟩
      have none : content = [] := List.length_eq_zero_iff.mp (by omega)
      rw [none, content_set, empty.1, List.take_zero]
    · rw [if_neg empty]
      have size : addSize (addSize (addSize s.length s.reserved) (subSize bufferLength s.reserved)) 1 =
          s.length + 1500 + 1 := by
        simp only [addSize, subSize, wanted]; omega
      refine ⟨valid_set (by rw [size, length_realloc]) (by omega), ?_⟩
      rw [content_set, size, take_realloc (by omega) (by omega), ← same]
      rfl
  next enough => exact ⟨⟨⟨room, small, terminated⟩, same⟩, by omega⟩

theorem length_memcpy {block data : Bytes} {offset : Nat} (inside : offset + data.length ≤ block.length) :
    (memcpy block offset data).length = block.length := by
  simp only [memcpy, List.length_append, List.length_take, List.length_drop]
  omega

theorem take_memcpy {block data : Bytes} {offset : Nat} (inside : offset ≤ block.length) :
    (memcpy block offset data).take (offset + data.length) = block.take offset ++ data := by
  have size : offset + data.length = (block.take offset ++ data).length := by
    rw [List.length_append, List.length_take]; omega
  rw [memcpy, size, List.take_left]

open World in
theorem holds_read {s : CString} {content bytes : Bytes} (holds : Holds s content) (fits : bytes.length ≤ s.reserved) :
    ∃ after, (storeRead s (.received bytes)).adjustLength bytes.length = .ok after ∧ Holds after (content ++ bytes) := by
  obtain ⟨⟨room, small, terminated⟩, same⟩ := holds
  have stored : storeRead s (.received bytes) = ⟨memcpy s.string s.length bytes, s.length, s.reserved⟩ := rfl
  rw [stored, adjustLength]
  dsimp only
  split
  next none =>
    have empty : bytes = [] := List.length_eq_zero_iff.mp (by omega)
    refine ⟨_, rfl, ?_⟩
    have kept : memcpy s.string s.length [] = s.string := by simp [memcpy]
    rw [empty, List.append_nil, kept]
    exact ⟨⟨room, small, terminated⟩, same⟩
  next =>
    rw [if_neg (by omega), if_neg (by omega)]
    have length : ((s.length : Int) + (bytes.length : Int)).toNat = s.length + bytes.length := by omega
    have reserved : ((s.reserved : Int) - (bytes.length : Int)).toNat = s.reserved - bytes.length := by omega
    refine ⟨_, rfl, ?_⟩
    rw [length, reserved]
    refine ⟨valid_set (by rw [length_memcpy (by omega), room]; omega) (by omega), ?_⟩
    rw [content_set, take_memcpy (by omega), ← same]
    rfl

theorem holds_erase {s : CString} {content : Bytes} (holds : Holds s content) {len : Nat} (inside : len ≤ content.length) :
    ∃ after, s.erase 0 len = .ok after ∧ Holds after (content.drop len) := by
  have length := holds.length
  obtain ⟨⟨room, small, terminated⟩, same⟩ := holds
  have sum : addSize 0 len = len := by rw [addSize]; omega
  have moved : ((s.string.drop len).take (s.length - len)).length = s.length - len := by
    rw [List.length_take, List.length_drop]; omega
  rw [erase, sum, if_neg (by omega), if_pos (by omega), Nat.zero_add, Nat.sub_zero]
  refine ⟨_, rfl, ?_⟩
  refine ⟨valid_set (by rw [length_memcpy (by omega), room]; omega) (by omega), ?_⟩
  have kept := @take_memcpy s.string ((s.string.drop len).take (s.length - len)) 0 (Nat.zero_le _)
  rw [moved, Nat.zero_add, List.take_zero, List.nil_append] at kept
  rw [content_set, kept, ← same, CString.content, List.drop_take]

theorem erase_overflow {s : CString} {content : Bytes} (holds : Holds s content) {len : Nat} (past : content.length < len)
    (small : len < 2 ^ 64) : s.erase 0 len = .error (.internalError "CString size overflow") := by
  have sum : addSize 0 len = len := by rw [addSize]; omega
  rw [erase, sum, if_pos (by rw [holds.length]; exact past)]

theorem holds_clear {s : CString} {content : Bytes} (holds : Holds s content) : Holds s.clear [] := by
  have length := holds.length
  obtain ⟨⟨room, small, terminated⟩, same⟩ := holds
  unfold clear
  split
  next empty =>
    have none : content = [] := List.length_eq_zero_iff.mp (by omega)
    rw [← none]
    exact ⟨⟨room, small, terminated⟩, same⟩
  next => exact ⟨valid_set (by omega) (by omega), rfl⟩

end LibWebserver.CString
