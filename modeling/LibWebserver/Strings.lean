import LibWebserver.CString

/-! The strings of a program and the operations on them. A string is known by its
place in the order of construction, so that an argument can be the string itself. -/

namespace LibWebserver.Strings

inductive Op where
  | create
  | createSize (len : Nat)
  | createBytes (str : Bytes)
  | copy (str : Nat)
  | assign (s str : Nat)
  | append (s str : Nat)
  | appendBytes (s : Nat) (str : Bytes)
  | appendChar (s : Nat) (ch : UInt8)
  | reserve (s len : Nat)
  | erase (s start len : Nat)
  | clear (s : Nat)
  | adjustLength (s : Nat) (len : Int)
  deriving DecidableEq, Repr

def update (store : List CString) (s : Nat) (operation : CString → Option CString) : Option (List CString) := do
  return store.set s (← operation (← store[s]?))

/-- `Append(const CString&)`. When the argument is the string itself and `realloc`
has to make room, the argument is read from the block that was given back. -/
def append (store : List CString) (s str : Nat) : Option (List CString) := do
  let source ← store[str]?
  if s = str ∧ source.length ≠ 0 ∧ source.reserved ≤ source.length then none
  else update store s (·.append source.content)

/-- `operator=` takes the argument's length after its own has been reset. -/
def assign (store : List CString) (s str : Nat) : Option (List CString) := do
  append (← update store s fun s => some { s with length := 0, reserved := s.reserved + s.length }) s str

/-- `Erase` writes the terminator whatever it erases, also through a null pointer. -/
def erase (start len : Nat) (s : CString) : Option CString :=
  match s.erase start len with
  | .ok after => if s.string = [] then none else some after
  | .error _ => some s

def adjustLength (len : Int) (s : CString) : Option CString :=
  match s.adjustLength len with
  | .ok after => some after
  | .error _ => some s

/-- `none` where the behaviour is undefined. -/
def step (store : List CString) : Op → Option (List CString)
  | .create => some (store ++ [.empty])
  | .createSize len => some (store ++ [.ofSize len])
  | .createBytes str => return store ++ [← CString.ofBytes str]
  | .copy str => return store ++ [← (← store[str]?).copy]
  | .assign s str => assign store s str
  | .append s str => append store s str
  | .appendBytes s str => update store s (·.append str)
  | .appendChar s ch => update store s (·.appendChar ch)
  | .reserve s len => update store s fun s => some (s.reserve len)
  | .erase s start len => update store s (erase start len)
  | .clear s => update store s fun s => some s.clear
  | .adjustLength s len => update store s (adjustLength len)

/-- The same operations on plain byte lists. -/
def spec (contents : List Bytes) : Op → List Bytes
  | .create => contents ++ [[]]
  | .createSize _ => contents ++ [[]]
  | .createBytes str => contents ++ [str]
  | .copy str => contents ++ [contents.getD str []]
  | .assign s str => contents.modify s fun _ => contents.getD str []
  | .append s str => contents.modify s (· ++ contents.getD str [])
  | .appendBytes s str => contents.modify s (· ++ str)
  | .appendChar s ch => contents.modify s (· ++ [ch])
  | .reserve _ _ => contents
  | .erase s start len => contents.modify s fun bytes => bytes.take start ++ bytes.drop (start + len)
  | .clear s => contents.modify s fun _ => []
  | .adjustLength s len => contents.modify s fun bytes => bytes.take (bytes.length + len).toNat

def get (store : List CString) (s : Nat) : CString := store.getD s .empty

/-- The strings exist, positions lie inside, and the sizes that are allocated are
`size_t` values. -/
def InRange (store : List CString) : Op → Prop
  | .create => True
  | .createSize len => len + 1 < 2 ^ 64
  | .createBytes str => str.length + 1 < 2 ^ 64
  | .copy str => str < store.length
  | .assign s str => s < store.length ∧ str < store.length
  | .append s str => (s < store.length ∧ str < store.length) ∧ (get store s).length + (get store str).length + 1 < 2 ^ 64
  | .appendBytes s str => s < store.length ∧ (get store s).length + str.length + 1 < 2 ^ 64
  | .appendChar s _ => s < store.length ∧ (get store s).length + 1 + 1 < 2 ^ 64
  | .reserve s len => s < store.length ∧ (get store s).length + (get store s).reserved + len + 1 < 2 ^ 64
  | .erase s start len => s < store.length ∧ start + len ≤ (get store s).length
  | .clear s => s < store.length
  | .adjustLength s len => s < store.length ∧ len ≤ 0 ∧ -len ≤ (get store s).length

/-- An empty string is assigned only where no byte can show through, a string is
assigned to itself only when empty and appended to itself only within its reserve,
and nothing is erased from a null string. -/
def Safe (store : List CString) : Op → Prop
  | .assign s str => if s = str then (get store s).length = 0
      else (get store str).length = 0 → (get store s).length = 0 ∨ CStr.peek (get store s).string = 0
  | .append s str => s = str → (get store s).length = 0 ∨ (get store s).length < (get store s).reserved
  | .erase s _ _ => (get store s).string ≠ []
  | _ => True

instance (store : List CString) (operation : Op) : Decidable (InRange store operation) := by
  cases operation <;> unfold InRange <;> infer_instance

instance (store : List CString) (operation : Op) : Decidable (Safe store operation) := by
  cases operation <;> unfold Safe <;> infer_instance

end LibWebserver.Strings
