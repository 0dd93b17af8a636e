import LibWebserver.Conversions

/-! `strlcpy` and `strlcat` over a block to write to and one to read from. A pointer is an
offset into its block, and an access outside is a fault. -/

namespace LibWebserver.StringCopy
open Conversions

/-- The local variables. -/
structure Copy where
  dst : Bytes
  d : Nat
  s : Nat
  n : Nat
  deriving DecidableEq, Repr

/-- The loop that copies as many bytes as will fit. -/
def copyStep (src : Bytes) (self : Copy) : Result (Loop.Step Copy Copy) := do
  let c ← read src self.s
  let dst ← write self.dst self.d c
  let self := { self with dst, d := self.d + 1, s := self.s + 1 }
  if c = 0 then return .exit self
  let self := { self with n := self.n - 1 }
  return if self.n ≠ 0 then .next self else .exit self

/-- The loop that traverses the rest. -/
def skipStep (src : Bytes) (s : Nat) : Result (Loop.Step Nat Nat) := do
  let c ← read src s
  return if c ≠ 0 then .next (s + 1) else .exit (s + 1)

/-- What is in the block then, and the length of the source. -/
def strlcpy (fuel : Nat) (dst src : Bytes) (siz : Nat) : Result (Bytes × Nat) := do
  let self : Copy := { dst, d := 0, s := 0, n := siz - 1 }
  let self ← if siz - 1 ≠ 0 then loop (copyStep src) fuel self else pure self
  if self.n = 0 then
    let dst ← if siz ≠ 0 then write self.dst self.d 0 else pure self.dst
    return (dst, (← loop (skipStep src) fuel self.s) - 1)
  return (self.dst, self.s - 1)

/-- The loop that finds the end of the destination. -/
def endStep (dst : Bytes) (self : Nat × Nat) : Result (Loop.Step (Nat × Nat) Nat) := do
  let (d, n) := self
  if n = 0 then return .exit d
  let c ← read dst d
  return if c ≠ 0 then .next (d + 1, n - 1) else .exit d

def appendStep (src : Bytes) (self : Copy) : Result (Loop.Step Copy Copy) := do
  let c ← read src self.s
  if c = 0 then return .exit self
  if self.n ≠ 1 then
    let dst ← write self.dst self.d c
    return .next { dst, d := self.d + 1, s := self.s + 1, n := self.n - 1 }
  return .next { self with s := self.s + 1 }

/-- What is in the block then, and the length that was to be made. -/
def strlcat (fuel : Nat) (dst src : Bytes) (siz : Nat) : Result (Bytes × Nat) := do
  let dlen ← loop (endStep dst) fuel (0, siz)
  let n := siz - dlen
  if n = 0 then
    return (dst, dlen + ((← loop (skipStep src) fuel 0) - 1))
  let self ← loop (appendStep src) fuel { dst, d := dlen, s := 0, n }
  let dst ← write self.dst self.d 0
  return (dst, dlen + self.s)

/-- A call after others, with what they returned. -/
def appendNext (fuel siz : Nat) (made : Bytes × List Nat) (src : Bytes) : Result (Bytes × List Nat) := do
  let (dst, ret) ← strlcat fuel made.1 src siz
  return (dst, made.2 ++ [ret])

/-- A string made of several in a block: the first copied, the others appended. -/
def fill (fuel : Nat) (dst : Bytes) (siz : Nat) (first : Bytes) (rest : List Bytes) : Result (Bytes × List Nat) := do
  let (dst, ret) ← strlcpy fuel dst first siz
  rest.foldlM (appendNext fuel siz) (dst, [ret])

end LibWebserver.StringCopy
