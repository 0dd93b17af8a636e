import LibWebserver.HttpTypes

/-! What any HTTP/1.1 client does with a response stream. This is the purpose the
serializer is compared with, not a translation of the library. -/

namespace LibWebserver.Client
open CStr

/-- The line up to the first CRLF, and what follows. -/
def readLine : Bytes → Option (Bytes × Bytes)
  | [] => none
  | c :: s => if c = cr ∧ peek s = lf then some ([], s.tail)
    else (readLine s).map fun (line, rest) => (c :: line, rest)

/-- For a client to which a bare LF ends a line as well: up to the first LF, without a CR in
front of it. -/
def readFeed (s : Bytes) : Option (Bytes × Bytes) :=
  if lf ∈ s then
    let line := s.takeWhile (· ≠ lf)
    some (if line.getLast? = some cr then line.dropLast else line, (s.dropWhile (· ≠ lf)).tail)
  else none

/-- The lines up to the blank one. -/
def readLines : Nat → Bytes → Option (List Bytes × Bytes)
  | 0, _ => none
  | fuel + 1, s => match readLine s with
    | none => none
    | some ([], rest) => some ([], rest)
    | some (line, rest) => (readLines fuel rest).map fun (lines, rest) => (line :: lines, rest)

/-- Name and value on either side of the first ':'. -/
def readField (line : Bytes) : HttpPair := ⟨line.takeWhile (· ≠ 58), (line.dropWhile (· ≠ 58)).tail⟩

structure Head where
  status : Bytes
  fields : List HttpPair
  rest : Bytes
  deriving DecidableEq, Repr

/-- Status line and header block; the status is what follows "HTTP/1.1 ". -/
def readHead (s : Bytes) : Option Head :=
  match readLine s with
  | none => none
  | some (line, s) => (readLines (s.length + 1) s).map fun (lines, rest) =>
    ⟨(line.drop 9).take 3, lines.map readField, rest⟩

def IsLength (field : HttpPair) : Prop := strcasecmp field.key (ascii "content-length") = .eq

instance (field : HttpPair) : Decidable (IsLength field) := by unfold IsLength; infer_instance

/-- The digits of a value, with no regard to the white space around them. -/
def readNumber (value : Bytes) : Option Nat :=
  let digits := ((value.dropWhile isspace).reverse.dropWhile isspace).reverse
  if digits ≠ [] ∧ digits.all isdigit then some (digitsValue digits) else none

/-- Length of the body: nothing for 204, else the number that every Content-Length
gives. Lengths that differ leave the client without one. -/
def bodyLength (head : Head) : Option Nat :=
  if head.status = ascii "204" then some 0
  else match head.fields.filter (IsLength ·) with
    | [] => none
    | field :: fields =>
      if ∀ other ∈ fields, readNumber other.value = readNumber field.value then readNumber field.value else none

/-- Statuses and bodies of a whole stream, when nothing is left over. -/
def readResponses : Nat → Bytes → Option (List (Bytes × Bytes))
  | 0, _ => none
  | fuel + 1, s =>
    if s = [] then some []
    else match readHead s with
      | none => none
      | some head => match bodyLength head with
        | none => none
        | some size =>
          if head.rest.length < size then none
          else (readResponses fuel (head.rest.drop size)).map ((head.status, head.rest.take size) :: ·)

def read (s : Bytes) : Option (List (Bytes × Bytes)) := readResponses (s.length + 1) s

end LibWebserver.Client
