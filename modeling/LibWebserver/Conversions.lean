import LibWebserver.CString
import LibWebserver.Library.Loop
import LibWebserver.Library.Numeral
import Mathlib.Logic.Function.Basic

/-! Integers written as text. A value of an integer type is a bit vector, and a flag says
whether the type carries a sign: this decides how values are compared and shifted to
the right. Everything else is done modulo the width. -/

namespace LibWebserver.Conversions

/-- What a call ends with instead of returning. -/
inductive Fault where
  /-- `std::domain_error`. -/
  | domainError (why : String)
  /-- A loop is not done within the passes allowed. -/
  | passes
  /-- A read outside the alphabet. -/
  | alphabet (index : Int)
  /-- An access outside the block the digits are written to. -/
  | buffer (index : Nat)
  /-- A copy past the block of a string. -/
  | string
  deriving DecidableEq, Repr

abbrev Result := Except Fault

@[simp] theorem ok_bind {α β : Type} (a : α) (rest : α → Result β) : (Except.ok a >>= rest) = rest a := rfl
@[simp] theorem error_bind {α β : Type} (fault : Fault) (rest : α → Result β) : (Except.error fault >>= rest) = .error fault := rfl

def loop {σ ρ : Type} (body : σ → Result (Loop.Step σ ρ)) (fuel : Nat) (state : σ) : Result ρ :=
  (Loop.run (Loop.failing body) fuel state).getD (.error .passes)

variable {w : Nat}

def toInt (signed : Bool) (a : BitVec w) : Int := if signed then a.toInt else a.toNat

def atLeast (signed : Bool) (a b : BitVec w) : Bool := if signed then b.sle a else b.ule a

def shiftRight (signed : Bool) (a : BitVec w) (count : Nat) : BitVec w :=
  if signed then a.sshiftRight count else a >>> count

/-- The local variables of `Div_`. -/
structure Division (w : Nat) where
  n : BitVec w
  d : BitVec w
  x : BitVec w
  answer : BitVec w
  deriving DecidableEq, Repr

/-- The loop that moves the divisor up. -/
def raiseStep (signed : Bool) (state : Division w) : Result (Loop.Step (Division w) (Division w)) :=
  if atLeast signed state.n state.d ∧ shiftRight signed state.d (w - 1) &&& 1 = 0 then
    return .next { state with x := state.x <<< 1, d := state.d <<< 1 }
  else
    return .exit state

/-- The loop that moves it down again and subtracts it where it fits. -/
def subtractStep (signed : Bool) (state : Division w) : Result (Loop.Step (Division w) (Division w)) :=
  if state.x ≠ 0 then
    let state :=
      if atLeast signed state.n state.d then { state with n := state.n - state.d, answer := state.answer ||| state.x }
      else state
    return .next { state with x := shiftRight signed state.x 1, d := shiftRight signed state.d 1 }
  else
    return .exit state

/-- `Div_(numerator, denominator, quotient, remainder)`. The arguments are references, so
that they may be the same variable. -/
def div_ {Variable : Type} [DecidableEq Variable] (signed : Bool) (fuel : Nat) (store : Variable → BitVec w)
    (numerator denominator quotient remainder : Variable) : Result (Variable → BitVec w) := do
  if store denominator = 0 then throw (.domainError "divide by zero")
  let state : Division w := { n := store numerator, d := store denominator, x := 1, answer := 0 }
  let state ← loop (raiseStep signed) fuel state
  let state ← loop (subtractStep signed) fuel state
  return Function.update (Function.update store quotient state.answer) remainder state.n

def write (str : Bytes) (index : Nat) (c : UInt8) : Result Bytes :=
  if index < str.length then .ok (str.set index c) else .error (.buffer index)

def read (str : Bytes) (index : Nat) : Result UInt8 :=
  match str[index]? with
  | some c => .ok c
  | none => .error (.buffer index)

def letter (alphabet : Bytes) (index : Int) : Result UInt8 :=
  if index < 0 then .error (.alphabet index)
  else match alphabet[index.toNat]? with
    | some c => .ok c
    | none => .error (.alphabet index)

structure Reversal where
  str : Bytes
  first : Nat
  last : Nat
  deriving DecidableEq, Repr

def reverseStep (state : Reversal) : Result (Loop.Step Reversal Bytes) := do
  if state.last > state.first then
    let aux ← read state.str state.last
    let str ← write state.str state.last (← read state.str state.first)
    let str ← write str state.first aux
    return .next { str, first := state.first + 1, last := state.last - 1 }
  else
    return .exit state.str

def strreverse (fuel : Nat) (str : Bytes) (first last : Nat) : Result Bytes :=
  loop reverseStep fuel { str, first, last }

/-- The variables `IntToAlpha` hands to `Div_`. -/
inductive Operand where
  | res
  | base
  | remainder
  deriving DecidableEq, Repr

def operands (res base : BitVec w) : Operand → BitVec w
  | .res => res
  | .base => base
  | .remainder => 0

structure Digits (w : Nat) where
  str : Bytes
  wstr : Nat
  res : BitVec w
  chars : Nat
  deriving DecidableEq, Repr

/-- The loop over the digits. It leaves the quotient where it took the numerator from. -/
def digitStep (signed : Bool) (fuel : Nat) (base : BitVec w) (alphabet : Bytes) (state : Digits w) :
    Result (Loop.Step (Digits w) (Digits w)) := do
  let store ← div_ signed fuel (operands state.res base) .res .base .res .remainder
  let str ← write state.str state.wstr (← letter alphabet (toInt signed (store .remainder)))
  let state := { str, wstr := state.wstr + 1, res := store .res, chars := state.chars + 1 }
  return if state.res ≠ 0 then .next state else .exit state

/-- The general `IntToAlpha(value, str, base, alphabet)`: the number of characters and what is
in the block then. The absolute value goes to `value`, which nothing reads: the
digits are those of `res`. -/
def intToAlpha (signed : Bool) (fuel : Nat) (value : BitVec w) (str : Bytes) (base : Int) (alphabet : Bytes) :
    Result (Nat × Bytes) := do
  if base < 2 ∨ base > 35 then
    return (0, ← write str 0 0)
  let state ← loop (digitStep signed fuel (BitVec.ofInt w base) alphabet) fuel { str, wstr := 0, res := value, chars := 0 }
  let state ← if toInt signed value < 0 then
      pure { state with str := ← write state.str state.wstr 45, wstr := state.wstr + 1, chars := state.chars + 1 }
    else pure state
  let str ← write state.str state.wstr 0
  return (state.chars, ← strreverse fuel str 0 (state.wstr - 1))

/-- The specialisation of `IntToAlpha` for `uint64_t`. -/
def intToAlphaUint64 (fuel : Nat) (value : BitVec 64) (str : Bytes) (base : Int) (alphabet : Bytes) :
    Result (Nat × Bytes) := do
  if base < 2 ∨ base > 35 then
    return (0, ← write str 0 0)
  let state ← loop (digitStep false fuel (BitVec.ofInt 64 base) alphabet) fuel { str, wstr := 0, res := value, chars := 0 }
  let str ← write state.str state.wstr 0
  return (state.chars, ← strreverse fuel str 0 (state.wstr - 1))

/-- The alphabets, with the terminator of the array. -/
def lowercase : Bytes := ascii "0123456789abcdefghijklmnopqrstuvwxyz" ++ [0]
def uppercase : Bytes := ascii "0123456789ABCDEFGHIJKLMNOPQRSTUVWXYZ" ++ [0]

/-- `char str[21]`. -/
def scratch : Bytes := List.replicate 21 indeterminate

def ofString (outcome : Option CString) : Result CString :=
  match outcome with
  | some s => .ok s
  | none => .error .string

def appendZeros : Nat → CString → Result CString
  | 0, s => .ok s
  | count + 1, s => do appendZeros count (← ofString (s.appendChar 48))

/-- What `AppendUppercaseInteger` and `AppendLowercaseInteger` do with the text of a value. -/
def appendInteger (render : Bytes → Int → Bytes → Result (Nat × Bytes)) (alphabet : Bytes) (s : CString) (base : Int)
    (width : Nat) : Result CString := do
  let (chars, str) ← render scratch base alphabet
  let s ← if chars < width then appendZeros (width - chars) s else pure s
  ofString (s.append (str.take chars))

def appendUppercaseInteger (signed : Bool) (fuel : Nat) (s : CString) (val : BitVec w) (base : Int) (width : Nat) :
    Result CString :=
  appendInteger (intToAlpha signed fuel val) uppercase s base width

def appendLowercaseInteger (signed : Bool) (fuel : Nat) (s : CString) (val : BitVec w) (base : Int) (width : Nat) :
    Result CString :=
  appendInteger (intToAlpha signed fuel val) lowercase s base width

/-- `AppendUppercaseInteger<uint64_t>`, where the specialisation is called. -/
def appendUppercaseUint64 (fuel : Nat) (s : CString) (val : BitVec 64) (base : Int) (width : Nat) : Result CString :=
  appendInteger (intToAlphaUint64 fuel val) uppercase s base width

/-- `AppendLowercaseInteger<uint64_t>`. -/
def appendLowercaseUint64 (fuel : Nat) (s : CString) (val : BitVec 64) (base : Int) (width : Nat) : Result CString :=
  appendInteger (intToAlphaUint64 fuel val) lowercase s base width

def appendDecimal (signed : Bool) (fuel : Nat) (s : CString) (val : BitVec w) : Result CString :=
  appendLowercaseInteger signed fuel s val 10 0

/-- `ToInteger<T>()` for a signed type: `strtol` and a cast to the width. -/
def toInteger (w : Nat) (s : CString) : BitVec w := BitVec.ofInt w (CStr.strtol s.string 10)

/-- With passes enough for its loops, a call returns. -/
def Returns {α : Type} (call : Nat → Result α) (result : α) : Prop :=
  ∃ bound, ∀ fuel, bound ≤ fuel → call fuel = .ok result

end LibWebserver.Conversions
