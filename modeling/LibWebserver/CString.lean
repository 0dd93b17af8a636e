import LibWebserver.Exception
import LibWebserver.Library.CStr

/-! The CString class. `string` is the allocated block, empty for the null
pointer; only the first `length` bytes of it are content and `reserved` more are
accounted as free. Sizes are `size_t`, so sums and differences are taken modulo
2^64 wherever the source relies on it or an argument can reach that far. -/

namespace LibWebserver

def addSize (a b : Nat) : Nat := (a + b) % 2 ^ 64
def subSize (a b : Nat) : Nat := (2 ^ 64 + a - b) % 2 ^ 64

/-- Fresh memory holds unspecified bytes; no result depends on which. -/
def indeterminate : UInt8 := 170

def malloc (size : Nat) : Bytes := List.replicate size indeterminate

def realloc (block : Bytes) (size : Nat) : Bytes :=
  block.take size ++ List.replicate (size - block.length) indeterminate

/-- `memcpy` to an offset. A copy past the end of the block makes it longer, so
that the length of the result tells whether the copy stayed inside. -/
def memcpy (block : Bytes) (offset : Nat) (data : Bytes) : Bytes :=
  block.take offset ++ data ++ block.drop (offset + data.length)

/-- A `memcpy` that has to stay inside the block, `none` when it does not. -/
def store (block : Bytes) (offset : Nat) (data : Bytes) : Option Bytes :=
  if offset + data.length ≤ block.length then some (memcpy block offset data) else none

structure CString where
  string : Bytes
  length : Nat
  reserved : Nat
  deriving DecidableEq, Repr

namespace CString
open CStr

/-- The bytes `Str()` denotes up to `Length()`. -/
def content (s : CString) : Bytes := s.string.take s.length

def ofSize (len : Nat) : CString :=
  { string := (malloc (addSize len 1)).set 0 0, length := 0, reserved := len }

/-- `CString()`. -/
def empty : CString := { string := [], length := 0, reserved := 0 }

/-- `CString(str, len)` and `CString(std::string)`. -/
def ofBytes (str : Bytes) : Option CString := do
  let block ← store (malloc (addSize str.length 1)) 0 str
  return { string := ← store block str.length [0], length := str.length, reserved := 0 }

/-- The copy constructor. -/
def copy (str : CString) : Option CString := ofBytes str.content

/-- How `Append` and `AppendChar` find room for `len` more bytes and the NUL. -/
def makeRoom (s : CString) (len : Nat) : CString :=
  if s.length = 0 ∧ s.reserved = 0 then { s with string := malloc (addSize len 1) }
  else if s.reserved > len then { s with reserved := s.reserved - (len + 1) }
  else { s with string := realloc s.string (addSize (addSize s.length len) 1), reserved := 0 }

/-- Bytes behind the content, and the terminator behind them. -/
def put (s : CString) (str : Bytes) : Option CString := do
  let block ← store s.string s.length str
  return { s with string := ← store block (s.length + str.length) [0], length := s.length + str.length }

/-- `Append(str, len)` for bytes outside the string; a null pointer is `[]`. -/
def append (s : CString) (str : Bytes) : Option CString :=
  if str.length = 0 then some s else (s.makeRoom str.length).put str

def appendChar (s : CString) (ch : UInt8) : Option CString := (s.makeRoom 1).put [ch]

def reserve (s : CString) (len : Nat) : CString :=
  let block :=
    if s.length = 0 ∧ s.reserved = 0 then malloc (addSize len 1)
    else realloc s.string (addSize (addSize (addSize s.length s.reserved) len) 1)
  { string := block.set s.length 0, length := s.length, reserved := addSize s.reserved len }

def erase (s : CString) (start len : Nat) : Except Exception CString :=
  if addSize start len > s.length then .error (.internalError "CString size overflow")
  else if start + len ≤ s.length then
    let moved := (s.string.drop (start + len)).take (s.length - start - len)
    .ok { string := (memcpy s.string start moved).set (s.length - len) 0
          length := s.length - len
          reserved := s.reserved + len }
  else
    -- The sum wrapped around: the bytes from there on move up, and the sizes wrap around too.
    let moved := (s.string.drop (addSize start len)).take (subSize (subSize s.length start) len)
    .ok { string := (memcpy s.string start moved).set (subSize s.length len) 0
          length := subSize s.length len
          reserved := addSize s.reserved len }

def clear (s : CString) : CString :=
  if s.length = 0 then s
  else { string := s.string.set 0 0, length := 0, reserved := s.reserved + s.length }

def adjustLength (s : CString) (len : Int) : Except Exception CString :=
  if len = 0 then .ok s
  else if len < 0 ∧ (s.length : Int) < -len then
    .error (.internalError "Shrinking failed, not enough length available")
  else if len > 0 ∧ (s.reserved : Int) < len then
    .error (.internalError "Expansion failed, not enough reserved space available")
  else
    let length := (s.length + len).toNat
    .ok { string := s.string.set length 0, length, reserved := (s.reserved - len).toNat }

/-- `Find(str)` and `Pos(str)`: the search goes on to the first NUL of the block. -/
def find (s : CString) (str : Bytes) : Option Nat := strstr str s.string

/-- `Find(str, pos)` and `Pos(str, pos)`. -/
def findFrom (s : CString) (str : Bytes) (start : Nat) : Except Exception (Option Nat) :=
  if start ≥ s.length then .error (.internalError "CString size overflow")
  else .ok ((strstr str (s.string.drop start)).map (· + start))

/-- Like the other functions that only read the string, stated on its content. -/
def isEmpty (s : Bytes) : Bool := s.length = 0 ∨ peek s = 0

/-- `Pos(str)`, `none` for `npos`. -/
def pos (s str : Bytes) : Option Nat := strstr str s

/-- `Pos(str, pos)`. -/
def posFrom (s str : Bytes) (start : Nat) : Except Exception (Option Nat) :=
  if start ≥ s.length then .error (.internalError "CString size overflow")
  else .ok ((strstr str (s.drop start)).map (· + start))

def compare (s str : Bytes) (start len : Nat) : Ordering :=
  if addSize start len ≤ s.length then memcmp (s.drop start) str len
  else memcmp (s.drop start) str (subSize s.length start)

def substring (s : Bytes) (start len : Nat) : Except Exception Bytes :=
  if addSize start len > s.length then .error (.internalError "CString size overflow")
  else .ok ((s.drop start).take len)

/-- `Compare(const CString&)`. -/
def compareTo (s str : CString) : Ordering := compare s.content str.content 0 str.length

/-- `operator==`. -/
def equal (s str : CString) : Bool := if s.length ≠ str.length then false else s.compareTo str = .eq

/-- `operator<`. -/
def less (s str : CString) : Bool := s.compareTo str = .lt

def equals (s : CString) (str : Bytes) : Bool :=
  if s.length < str.length then false else compare s.content str 0 str.length = .eq

end CString
end LibWebserver
