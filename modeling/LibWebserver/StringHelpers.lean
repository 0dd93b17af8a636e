import LibWebserver.CString
import LibWebserver.Library.Loop

/-! Helpers for strings and sequences: joined output and tokens. What a stream prints for an
element is a function of the element; character traits are known by their `find`. -/

namespace LibWebserver.StringHelpers

/-- The loop that prints the element before the one it looks at. The last element, what is
in the stream, and the count. -/
def lookBehind {α : Type} (put : α → Bytes) : α → List α → Bytes → Nat → α × Bytes × Nat
  | curr, [], out, count => (curr, out, count)
  | curr, next :: rest, out, count => lookBehind put next rest (out ++ put curr) (addSize count 1)

def joinedOutput {α : Type} (render : α → Bytes) (out : Bytes) (items : List α) (joinWith prepend append : Bytes) :
    Bytes × Nat :=
  match items with
  | [] => (out, 0)
  | first :: rest =>
    let (curr, out, count) := lookBehind (fun curr => prepend ++ render curr ++ append ++ joinWith) first rest out 0
    (out ++ prepend ++ render curr ++ append, count)

inductive PairContainerPrintValue where
  | keys
  | values
  | both
  deriving DecidableEq, Repr

/-- The `switch` of `joined_pair_output`. -/
def pairItem {κ ν : Type} (renderKey : κ → Bytes) (renderValue : ν → Bytes) (printwhat : PairContainerPrintValue)
    (separator : Bytes) (pair : κ × ν) : Bytes :=
  match printwhat with
  | .keys => renderKey pair.1
  | .values => renderValue pair.2
  | .both => renderKey pair.1 ++ separator ++ renderValue pair.2

/-- `joined_pair_output`; it does not use `ifempty`. The keys are the mode that converts to
false. -/
def joinedPairOutput {κ ν : Type} (renderKey : κ → Bytes) (renderValue : ν → Bytes) (out : Bytes) (pairs : List (κ × ν))
    (printwhat : PairContainerPrintValue) (joinWith separator prepend append : Bytes) : Bytes × Nat :=
  match pairs with
  | [] => (out, 0)
  | first :: rest =>
    let item := pairItem renderKey renderValue printwhat separator
    let (curr, out, count) := lookBehind (fun curr => prepend ++ item curr ++ append ++ joinWith) first rest out 0
    let out :=
      if printwhat ≠ .keys then out ++ prepend ++ renderValue curr.2 ++ append
      else out ++ prepend ++ renderKey curr.1 ++ append
    (out ++ prepend ++ item curr ++ append, count)

/-- `ContainerToString`. -/
def containerToString {α : Type} (render : α → Bytes) (str : Bytes) (items : List α)
    (joinWith ifempty prepend append : Bytes) : Bytes × Nat :=
  if items = [] then (str ++ ifempty, 0)
  else
    let (out, count) := joinedOutput render [] items joinWith prepend append
    (str ++ out, count)

def npos : Nat := 2 ^ 64 - 1

/-- `std::out_of_range`. -/
structure OutOfRange where
  position : Nat
  deriving DecidableEq, Repr

/-- A pointer into the first characters of a string, or null. -/
abbrev Find := Bytes → Nat → UInt8 → Option Nat

/-- `std::char_traits<char>::find`. -/
def charTraitsFind : Find := fun s n a => (s.take n).findIdx? (· = a)

/-- The loop of `i_char_traits::find`. -/
def iCharTraitsScan (s : Bytes) (a : UInt8) : Nat → Nat → Nat
  | 0, offset => offset
  | n + 1, offset =>
    if CStr.tolower (CStr.peek (s.drop offset)) ≠ CStr.tolower a then iCharTraitsScan s a n (offset + 1) else offset

/-- `i_char_traits::find`: the size becomes an `int`, and the pointer the loop stops at is
returned, found or not. -/
def iCharTraitsFind : Find := fun s n a => some (iCharTraitsScan s a (BitVec.ofNat 32 n).toInt.toNat 0)

/-- The first position from `pos` on whose character passes a test. -/
def firstFrom (test : UInt8 → Bool) (str : Bytes) (pos : Nat) : Nat :=
  let found := pos + ((str.drop pos).takeWhile fun c => !test c).length
  if found < str.length then found else npos

/-- `basic_string::find_first_of`. -/
def findFirstOf (find : Find) (str set : Bytes) (pos : Nat) : Nat :=
  firstFrom (fun c => (find set set.length c).isSome) str pos

/-- `basic_string::find_first_not_of`. -/
def findFirstNotOf (find : Find) (str set : Bytes) (pos : Nat) : Nat :=
  firstFrom (fun c => (find set set.length c).isNone) str pos

/-- `basic_string::substr`. -/
def substr (str : Bytes) (pos n : Nat) : Except OutOfRange Bytes :=
  if pos > str.length then .error ⟨pos⟩ else .ok ((str.drop pos).take n)

structure Tokenizing where
  last : Nat
  pos : Nat
  tokens : List Bytes
  deriving DecidableEq, Repr

def tokenizeStep (find : Find) (str delimiters : Bytes) (state : Tokenizing) :
    Except OutOfRange (Loop.Step Tokenizing (List Bytes)) := do
  if npos ≠ state.pos ∨ npos ≠ state.last then
    let token ← substr str state.last (subSize state.pos state.last)
    let last := findFirstNotOf find str delimiters state.pos
    return .next { last, pos := findFirstOf find str delimiters last, tokens := state.tokens ++ [token] }
  else
    return .exit state.tokens

/-- `Tokenize`, which is the same text for both string types. -/
def tokenize (find : Find) (fuel : Nat) (str : Bytes) (tokens : List Bytes) (delimiters : Bytes) :
    Option (Except OutOfRange (List Bytes)) :=
  let last := findFirstNotOf find str delimiters 0
  Loop.run (Loop.failing (tokenizeStep find str delimiters)) fuel
    { last, pos := findFirstOf find str delimiters last, tokens }

/-- `Tokenize` for `std::string`. -/
def tokenizeString := tokenize charTraitsFind

/-- `Tokenize` for `istring`. -/
def tokenizeIstring := tokenize iCharTraitsFind

end LibWebserver.StringHelpers
