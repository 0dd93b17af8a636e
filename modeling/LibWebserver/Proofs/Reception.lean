import LibWebserver.Proofs.Reachable
import LibWebserver.Reception

/-! Every read fits behind what is buffered. The block is exactly as large as the sizes say
and never larger than an allocation can be, so that no size wraps around, whatever the
argument of `Reserve` did. -/

namespace LibWebserver
open CString

namespace CString

/-- A valid buffer in a block that was allocated. -/
structure Allocated (s : CString) : Prop extends s.Valid where
  bounded : s.string.length ≤ ptrdiffMax

theorem Allocated.fits {s : CString} (allocated : s.Allocated) : s.content.length + 1501 < 2 ^ 64 := by
  have bounded : s.string.length ≤ 2 ^ 63 - 1 := allocated.bounded
  rw [allocated.content_length]
  have room := allocated.room
  omega

theorem length_reserve (s : CString) (len : Nat) : (s.reserve len).string.length = s.reserveSize len := by
  unfold reserve reserveSize
  split
  · rw [List.length_set, malloc, List.length_replicate]
  · rw [List.length_set, length_realloc]

theorem length_adjustLength {s after : CString} {len : Int} (adjusted : s.adjustLength len = .ok after) :
    after.string.length = s.string.length := by
  unfold adjustLength at adjusted
  split at adjusted
  · cases adjusted
    rfl
  · split_ifs at adjusted
    cases adjusted
    exact List.length_set

theorem allocated_clear {s : CString} (allocated : s.Allocated) : s.clear.Allocated := by
  refine ⟨(holds_clear allocated.holds).valid, ?_⟩
  unfold clear
  split
  · exact allocated.bounded
  · rw [List.length_set]
    exact allocated.bounded

theorem length_erase {s after : CString} (valid : s.Valid) {len : Nat} (small : len < 2 ^ 64)
    (erased : s.erase 0 len = .ok after) : after.string.length = s.string.length := by
  have sum : addSize 0 len = len := by rw [addSize]; omega
  have room := valid.room
  rw [erase, sum] at erased
  split at erased
  · cases erased
  next inside =>
    rw [if_pos (by omega)] at erased
    cases erased
    rw [List.length_set, length_memcpy]
    rw [List.length_take, List.length_drop]
    omega

theorem allocated_erase {s after : CString} (allocated : s.Allocated) {len : Nat} (small : len < 2 ^ 64)
    (erased : s.erase 0 len = .ok after) : after.Allocated := by
  have inside := (World.erase_length small erased).1
  rw [← allocated.content_length] at inside
  obtain ⟨buffer, again, kept⟩ := holds_erase allocated.holds inside
  cases erased.symm.trans again
  refine ⟨kept.valid, ?_⟩
  rw [length_erase allocated.toValid small erased]
  exact allocated.bounded

theorem allocated_eraseEach {s : CString} (allocated : s.Allocated) (amounts : List UInt64) :
    (s.eraseEach amounts).Allocated := by
  induction amounts generalizing s with
  | nil => exact allocated
  | cons len rest ih =>
    unfold eraseEach
    split
    · exact allocated
    next after erased =>
      apply ih
      exact allocated_erase allocated len.toNat_lt erased

end CString

namespace Reception
open World

/-- What a reservation leaves, as the read behind it needs it. -/
structure Fits (before after : CString) : Prop where
  reserved : bufferLength ≤ after.reserved
  block : after.length + after.reserved + 1 ≤ after.string.length
  /-- `recv(End(), buffer_length_)` writes inside the block. -/
  inside : after.length + bufferLength ≤ after.string.length
  length : after.length = before.length
  buffered : before.length ≤ before.string.length ∧ after.content = before.content
  /-- `AdjustLength` does not throw, and what was received follows what was there. -/
  adjusts (reading : Reading) (len : Nat) (read : readStream bufferLength reading.result = .ok len) :
    ∃ longer, (storeRead after reading.result).adjustLength len = .ok longer ∧ longer.length = before.length + len ∧
      before.content <+: longer.content

theorem storeRead_adjusts {s : CString} (valid : s.Valid) (space : bufferLength ≤ s.reserved) (reading : Reading) {len : Nat}
    (read : readStream bufferLength reading.result = .ok len) :
    ∃ bytes after, bytes.length = len ∧ (storeRead s reading.result).adjustLength len = .ok after ∧
      Holds after (s.content ++ bytes) ∧ after.string.length = s.string.length := by
  obtain ⟨result, erased, short⟩ := reading
  dsimp only at read ⊢
  cases result with
  | received bytes =>
    have fits : bytes.length ≤ s.reserved := Nat.le_trans (short bytes rfl) space
    have received : len = bytes.length := by
      cases bytes with
      | nil => cases read
      | cons c rest =>
        cases read
        rfl
    subst received
    obtain ⟨after, adjusted, holds⟩ := holds_read valid.holds fits
    refine ⟨bytes, after, rfl, adjusted, holds, ?_⟩
    rw [length_adjustLength adjusted]
    change (memcpy s.string s.length bytes).length = _
    have room := valid.room
    exact length_memcpy (by omega)
  | failed errno =>
    have none : len = 0 := by
      cases errno <;> cases read <;> rfl
    subst none
    refine ⟨[], s, rfl, rfl, ?_, rfl⟩
    rw [List.append_nil]
    exact valid.holds

theorem reservation_fits {self : Reception} {buffer : CString} (allocated : self.buffer.Allocated)
    (reserved : self.reservation = some buffer) : buffer.Allocated ∧ Fits self.buffer buffer := by
  unfold reservation at reserved
  split at reserved
  · cases reserved
  next granted =>
    cases reserved
    obtain ⟨⟨valid, kept⟩, space⟩ := holds_reserveBuffer allocated.holds allocated.fits
    have length : (reserveBuffer self.buffer).length = self.buffer.length := by
      unfold reserveBuffer
      split <;> rfl
    have bounded : (reserveBuffer self.buffer).string.length ≤ ptrdiffMax := by
      unfold reserveBuffer
      split
      next short =>
        rw [length_reserve]
        exact not_lt.mp fun more => granted ⟨short, more⟩
      next => exact allocated.bounded
    have room := valid.room
    have before := allocated.room
    refine ⟨⟨valid, bounded⟩, space, by omega, by omega, length, ⟨by omega, kept⟩, ?_⟩
    intro reading len read
    obtain ⟨bytes, longer, count, adjusted, holds, _⟩ := storeRead_adjusts valid space reading read
    refine ⟨longer, adjusted, ?_, ?_⟩
    · rw [holds.length, List.length_append, kept, allocated.content_length, count]
    · rw [holds.content, kept]
      exact List.prefix_append _ _

theorem storeRead_allocated {s : CString} (allocated : s.Allocated) (reading : Reading)
    {error : Exception} (failed : readStream bufferLength reading.result = .error error) :
    (storeRead s reading.result).Allocated := by
  obtain ⟨result, erased, short⟩ := reading
  dsimp only at failed ⊢
  cases result with
  | received bytes =>
    cases bytes with
    | nil =>
      have kept : storeRead s (.received []) = s := by simp [storeRead, memcpy]
      rw [kept]
      exact allocated
    | cons c rest => cases failed
  | failed errno => exact allocated

/-- One call of `EventRead` leaves an allocated buffer allocated. -/
theorem eventRead_allocated {self after : Reception} (allocated : self.buffer.Allocated) {reading : Reading}
    (read : self.eventRead reading = some after) : after.buffer.Allocated := by
  unfold eventRead at read
  split at read
  · cases read
    exact allocated
  · obtain ⟨buffer, reserved, rfl⟩ := Option.map_eq_some_iff.mp read
    obtain ⟨given, fits⟩ := reservation_fits allocated reserved
    dsimp only
    split
    next error failed => exact storeRead_allocated given reading failed
    next len received =>
      obtain ⟨bytes, longer, _, adjusted, holds, same⟩ := storeRead_adjusts given.toValid fits.reserved reading received
      have kept : longer.Allocated := by
        refine ⟨holds.valid, ?_⟩
        rw [same]
        exact given.bounded
      rw [adjusted]
      dsimp only
      split
      · exact allocated_clear kept
      · exact allocated_eraseEach kept reading.erased

theorem eventReads_allocated {self after : Reception} (allocated : self.buffer.Allocated) (readings : List Reading)
    (reads : self.eventReads readings = some after) : after.buffer.Allocated := by
  induction readings generalizing self with
  | nil =>
    cases reads
    exact allocated
  | cons reading readings ih =>
    obtain ⟨middle, read, rest⟩ := Option.bind_eq_some_iff.mp reads
    exact ih (eventRead_allocated allocated read) rest

theorem create_allocated : create.buffer.Allocated := by
  have blank : create.buffer.string.length = 1501 := by
    change ((malloc (addSize bufferLength 1)).set 0 0).length = 1501
    rw [List.length_set, malloc, List.length_replicate]
    rfl
  refine ⟨valid_ofSize (by decide), ?_⟩
  rw [blank]
  decide

/-- Whatever was read and erased so far, the next read fits. -/
theorem eventReads_fits {readings : List Reading} {self : Reception} {buffer : CString}
    (reads : create.eventReads readings = some self) (reserved : self.reservation = some buffer) :
    Fits self.buffer buffer :=
  (reservation_fits (eventReads_allocated create_allocated readings reads) reserved).2

/-- Five bytes in two reads, two of them erased. -/
def grown : List Reading :=
  [{ result := .received [71, 69, 84, 32], erased := [], short := by rintro _ ⟨⟩; decide },
    { result := .received [47], erased := [2], short := by rintro _ ⟨⟩; decide }]

/-- After them 1501 bytes are free, and the argument of `Reserve` is `-1`. -/
theorem eventReads_fits_grown :
    ∃ self buffer, create.eventReads grown = some self ∧ self.buffer.reserved = 1501 ∧ self.reservation = some buffer ∧
      Fits self.buffer buffer := by
  have reads := (Option.some_get (show (create.eventReads grown).isSome by decide +kernel)).symm
  have reserved := (Option.some_get (show (Option.get (create.eventReads grown) (by decide +kernel)).reservation.isSome by
    decide +kernel)).symm
  exact ⟨_, _, reads, by decide +kernel, reserved, eventReads_fits reads reserved⟩

def ofConnection (conn : Connection) : Reception := { buffer := conn.buffer, connected := conn.state = .connected }

end Reception

namespace World

variable {w : World} {c : Nat}

theorem eraseEach_cons {s after : CString} {len : Nat} (small : len < 2 ^ 64) (erased : s.erase 0 len = .ok after)
    (rest : List UInt64) : s.eraseEach (UInt64.ofNat len :: rest) = after.eraseEach rest := by
  rw [eraseEach, UInt64.toNat_ofNat_of_lt' small, erased]

/-- What `HttpConnection` does with a buffer is erase from its front. -/
theorem processEventRead_erases {ended : Ended} (done : w.processEventRead c = some ended) :
    ∃ amounts, (ended.world.conn c).buffer = (w.conn c).buffer.eraseEach amounts := by
  -- The amounts so far lead from the first buffer to the one a pass finds.
  apply Loop.run_invariant
    (fun state => ∃ amounts, ∀ rest, (w.conn c).buffer.eraseEach (amounts ++ rest) = (state.conn c).buffer.eraseEach rest)
    (fun result => ∀ ended, result = some ended →
      ∃ amounts, (ended.world.conn c).buffer = (w.conn c).buffer.eraseEach amounts)
    ?_ ?_ ⟨[], fun _ => rfl⟩ (Option.join_eq_some_iff.mp done) ended rfl
  · intro state after ⟨amounts, leads⟩ moves
    obtain ⟨message, eof, found, erased⟩ := processStep_next moves
    refine ⟨amounts ++ [UInt64.ofNat eof], ?_⟩
    intro rest
    rw [List.append_assoc, List.singleton_append, leads,
      eraseEach_cons (IncomingHttpMessage.deserialize_eof_lt found) erased]
  · intro state result ⟨amounts, leads⟩ exits ended returned
    subst returned
    refine ⟨amounts, ?_⟩
    have here := leads []
    rw [List.append_nil] at here
    rw [processStep_exit exits, here]
    rfl

theorem initialise_reception {start : World} {fd : Int} (fresh : w.conn c = .create fd)
    (opened : w.initialise c = ⟨start, none⟩) : Reception.ofConnection (start.conn c) = .create := by
  unfold initialise at opened
  split at opened
  · cases opened
  · cases opened
    rw [setState_conn, poll_conn, fresh]
    rfl

/-- A read of a connection of the server is a read of its buffer. -/
theorem eventRead_reception {ended : Ended} {result : RecvResult}
    (short : ∀ bytes, result = .received bytes → bytes.length ≤ bufferLength)
    (given : (Reception.ofConnection (w.conn c)).reservation.isSome) (done : w.eventRead c result = some ended) :
    ∃ erased, (Reception.ofConnection (w.conn c)).eventRead { result, erased, short } =
      some (Reception.ofConnection (ended.world.conn c)) := by
  have reserved : (Reception.ofConnection (w.conn c)).reservation = some (reserveBuffer (w.conn c).buffer) := by
    unfold Reception.reservation at given ⊢
    split at given
    · cases given
    next more => rw [if_neg more]; rfl
  by_cases idle : (w.conn c).state ≠ .connected
  · rw [eventRead, if_pos idle] at done
    cases done
    refine ⟨[], if_pos ?_⟩
    simpa [Reception.ofConnection] using idle
  have connected := not_not.mp idle
  have on : ¬ ¬ (Reception.ofConnection (w.conn c)).connected := by simp [Reception.ofConnection, connected]
  unfold Reception.eventRead
  simp only [if_neg on, reserved, Option.map_some, Option.some.injEq]
  rw [eventRead, if_neg idle] at done
  dsimp only at done
  cases received : readStream bufferLength result with
  | error error =>
    rw [received] at done
    cases done
    obtain ⟨fd, closed⟩ := close_conn (w.setBuffer c (storeRead (reserveBuffer (w.conn c).buffer) result)) c
    rw [closed, setBuffer_conn]
    exact ⟨[], rfl⟩
  | ok len =>
    rw [received] at done
    dsimp only at done ⊢
    cases adjusted : (storeRead (reserveBuffer (w.conn c).buffer) result).adjustLength len with
    | error error =>
      rw [adjusted] at done
      cases done
      rw [Reception.ofConnection, Reception.ofConnection, setBuffer_conn]
      exact ⟨[], rfl⟩
    | ok buffer =>
      rw [adjusted] at done
      dsimp only at done ⊢
      by_cases none : len = 0
      · rw [if_pos none] at done
        cases done
        refine ⟨[], ?_⟩
        rw [if_pos none, Reception.ofConnection, Reception.ofConnection, setBuffer_conn, setBuffer_conn]
      · rw [if_neg none] at done
        have same := (serves_processEventRead done).state
        obtain ⟨amounts, erased⟩ := processEventRead_erases done
        refine ⟨amounts, ?_⟩
        rw [if_neg none, Reception.ofConnection, Reception.ofConnection, same, erased, setBuffer_conn, setBuffer_conn]

end World
end LibWebserver
