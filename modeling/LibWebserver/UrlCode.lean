import LibWebserver.Checked

/-! URL encoding and decoding. The decoder rewrites the string in place: `src` and `dst`
are indices from `Str()`, and an access outside the block is a fault. -/

namespace LibWebserver
open CStr Checked

/-- The comparisons with `char` bounds are the same for bytes from 128 on, which are
negative there: no bound lies above 126. -/
def isUnreserved (c : UInt8) : Bool :=
  48 ≤ c ∧ c ≤ 57 ∨ 65 ≤ c ∧ c ≤ 90 ∨ 97 ≤ c ∧ c ≤ 122 ∨ c = 126 ∨ c = 33 ∨ c = 42 ∨ c = 40 ∨ c = 41 ∨ c = 39

/-- A nibble as `char2hex` writes it. -/
def hexDigit (dig : UInt8) : UInt8 :=
  let dig := if dig ≤ 9 then dig + 48 else dig
  if 10 ≤ dig ∧ dig ≤ 15 then dig + (97 - 10) else dig

def char2hex (dec : UInt8) : Bytes := [hexDigit ((dec &&& 0xF0) >>> 4), hexDigit (dec &&& 0x0F)]

def urlEncode (src : Bytes) : Bytes := src.flatMap fun c => if isUnreserved c then [c] else 37 :: char2hex c

/-- The locals of `UrlDecode`, with the members it changes. -/
structure Decoding where
  string : Bytes
  src : Nat
  dst : Nat
  length : Nat
  reserved : Nat
  deriving DecidableEq, Repr

namespace Decoding

variable (self : Decoding)

def read (index : Nat) : Except Fault UInt8 :=
  match self.string[index]? with
  | some c => .ok c
  | none => .error (.read index)

/-- `*dst++ = c`. -/
def put (c : UInt8) : Except Fault Decoding :=
  if self.dst < self.string.length then .ok { self with string := self.string.set self.dst c, dst := self.dst + 1 }
  else .error (.write self.dst)

/-- `*src == '%' && src[1] != '\0' && src[2] != '\0'`. -/
def atEscape : Except Fault Bool := do
  if (← self.read self.src) ≠ 37 then return false
  else if (← self.read (self.src + 1)) = 0 then return false
  else return (← self.read (self.src + 2)) ≠ 0

/-- A pass of the loop, with what follows it when `*src` is the NUL. -/
def step : Except Fault (Loop.Step Decoding CString) := do
  if (← self.read self.src) = 0 then
    let done ← self.put 0
    return .exit { string := done.string, length := done.length, reserved := done.reserved }
  else if ← self.atEscape then
    let tmp := [← self.read (self.src + 1), ← self.read (self.src + 2)]
    let after ← self.put (UInt8.ofInt (strtol16 tmp))
    return .next { after with src := after.src + 3, length := subSize after.length 2, reserved := addSize after.reserved 2 }
  else
    let after ← self.put (← self.read self.src)
    return .next { after with src := after.src + 1 }

end Decoding

namespace CString

def startDecoding (s : CString) : Decoding :=
  { string := s.string, src := 0, dst := 0, length := s.length, reserved := s.reserved }

/-- `UrlDecode`; no pass is made from behind the block. -/
def urlDecode (s : CString) : Option (Except Fault CString) :=
  Loop.run (Loop.failing Decoding.step) (s.string.length + 1) s.startDecoding

end CString
end LibWebserver
