import LibWebserver.Client

/-! The header block by its grammar: lines ended by CR LF up to a blank one, each with
a name and a value on either side of its first ": ". This is the purpose the header
loop is compared with, not a translation of it. -/

namespace LibWebserver.Grammar
open CStr

/-- The lines in front of the blank one. -/
def lines (block : Bytes) : List Bytes := ((Client.readLines (block.length + 1) block).map (·.1)).getD []

/-- A line without ": " is all name. -/
def splitField : Bytes → HttpPair
  | [] => ⟨[], []⟩
  | c :: line =>
    if c = 58 ∧ peek line = 32 then ⟨[], line.tail⟩
    else
      let rest := splitField line
      { rest with key := c :: rest.key }

/-- A field counts when neither part of it is empty. -/
def header (line : Bytes) : Option HttpPair :=
  let field := splitField line
  if field.key = [] ∨ field.value = [] then none else some field

def headers (block : Bytes) : List HttpPair := (lines block).filterMap header

/-- The headers of a message behind its first line. -/
def messageHeaders (message : Bytes) : List HttpPair := ((Client.readLine message).map (headers ·.2)).getD []

/-- The pieces of a text between its line ends. -/
def cut : Bytes → List Bytes
  | [] => [[]]
  | 13 :: 10 :: s => [] :: cut s
  | c :: s => (cut s).modifyHead (c :: ·)

end LibWebserver.Grammar
