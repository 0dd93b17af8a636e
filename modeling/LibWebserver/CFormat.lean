import LibWebserver.Library.CStr
import LibWebserver.Library.Loop
import Mathlib.Algebra.Group.Nat.Defs

/-! Formatted strings. `c_format` counts the parameters its format asks for before it hands
them to `vsnprintf`, and makes room until the result fits. -/

namespace LibWebserver.CFormat
open CStr

/-- The parameter type specifiers. -/
def specifiers : Bytes := ascii "diouxXDOUeEfgGcsp"

/-- The local variables of `c_format_validate`. -/
structure Scan where
  state : Nat := 0
  count : Int := 0
  deriving DecidableEq, Repr

def validateStep (self : Scan) (c : UInt8) : Option Scan :=
  if self.state = 0 then
    if c = 37 then some { state := 1, count := self.count + 1 } else some self
  else if c ∈ specifiers then some { self with state := 0 }
  -- an escaped percent
  else if c = 37 then some { state := 0, count := self.count - 1 }
  -- `%n` is not permitted
  else if c = 110 then none
  -- a field width or precision from a parameter
  else if c = 42 then some { self with count := self.count + 1 }
  else some self

/-- Nothing when it calls `abort`. -/
def cFormatValidate (fmt : Bytes) (expCount : Int) : Option Unit := do
  let scan ← (cstr fmt).foldlM validateStep {}
  if expCount = scan.count then some () else none

/-- `vsnprintf` for a format and its parameters: what it makes of a buffer of a size, and
what it returns. -/
abbrev Vsnprintf := Bytes → Nat → Bytes × Int

def FORMAT_BUFSIZE : Nat := 4096

/-- A conversion to `size_t`. -/
def toSize (n : Int) : Nat := (n % 2 ^ 64).toNat

def resize (b : Bytes) (size : Nat) : Bytes := b.take size ++ List.replicate (size - b.length) 0

/-- A pass of the loop over the buffer and its size. -/
def formatStep (vsnprintf : Vsnprintf) (self : Bytes × Nat) : Loop.Step (Bytes × Nat) Bytes :=
  let (b, ret) := vsnprintf self.1 self.2
  if toSize ret < self.2 then .exit (cstr b) else .next (resize b (toSize (ret + 1)), toSize (ret + 1))

def doCFormat (vsnprintf : Vsnprintf) (fuel : Nat) : Option Bytes :=
  Loop.run (formatStep vsnprintf) fuel (List.replicate FORMAT_BUFSIZE 0, FORMAT_BUFSIZE)

/-- The macro `c_format` with a number of arguments. -/
def cFormat (vsnprintf : Vsnprintf) (fmt : Bytes) (args fuel : Nat) : Option Bytes := do
  cFormatValidate fmt args
  doCFormat vsnprintf fuel

end LibWebserver.CFormat
