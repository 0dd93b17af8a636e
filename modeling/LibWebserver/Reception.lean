import LibWebserver.Connection

/-! The receive buffer of a connection through its reads. `ProcessEventRead_` is left
open: it erases any amounts from the front, up to one that throws. Memory may be
refused. -/

namespace LibWebserver

/-- `PTRDIFF_MAX`. `malloc` and `realloc` fail when more is asked for. -/
def ptrdiffMax : Nat := 2 ^ 63 - 1

namespace CString

/-- The size of the block that `Reserve` asks for. -/
def reserveSize (s : CString) (len : Nat) : Nat :=
  if s.length = 0 ∧ s.reserved = 0 then addSize len 1 else addSize (addSize (addSize s.length s.reserved) len) 1

def eraseEach (s : CString) : List UInt64 → CString
  | [] => s
  | len :: rest => match s.erase 0 len.toNat with
    | .error _ => s
    | .ok s => s.eraseEach rest

end CString

/-- What `recv` answers in one call of `EventRead`, and the amounts erased after it. -/
structure Reading where
  result : RecvResult
  erased : List UInt64
  /-- `recv` is given `buffer_length_` bytes. -/
  short : ∀ bytes, result = .received bytes → bytes.length ≤ bufferLength

structure Reception where
  buffer : CString
  connected : Bool
  deriving DecidableEq, Repr

namespace Reception

def create : Reception := { buffer := .ofSize bufferLength, connected := true }

/-- The buffer after the reservation step, `none` when the block it needs is refused. -/
def reservation (self : Reception) : Option CString :=
  if self.buffer.reserved < addSize bufferLength self.buffer.length ∧
      ptrdiffMax < self.buffer.reserveSize (subSize bufferLength self.buffer.reserved) then none
  else some (World.reserveBuffer self.buffer)

def eventRead (self : Reception) (reading : Reading) : Option Reception :=
  if ¬ self.connected then some self
  else self.reservation.map fun buffer =>
    let buffer := World.storeRead buffer reading.result
    match readStream bufferLength reading.result with
    | .error _ => { buffer, connected := false }
    | .ok len => match buffer.adjustLength len with
      | .error _ => { self with buffer }
      | .ok buffer =>
        if len = 0 then { self with buffer := buffer.clear } else { self with buffer := buffer.eraseEach reading.erased }

def eventReads : Reception → List Reading → Option Reception
  | self, [] => some self
  | self, reading :: readings => do (← self.eventRead reading).eventReads readings

end Reception
end LibWebserver
