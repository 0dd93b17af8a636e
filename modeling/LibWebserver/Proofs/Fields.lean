import LibWebserver.Client
import LibWebserver.Proofs.Deserialize

/-! Field lines as a writer composes them and a reader takes them apart, and what
pushing a list of fields does to a message. -/

namespace LibWebserver.IncomingHttpMessage
open CStr

def fieldLine (pair : HttpPair) : Bytes := pair.key ++ ascii ": " ++ pair.value

/-- A name the key loop reads up to the ": " behind it. -/
structure Name (name : Bytes) : Prop where
  nonempty : name ≠ []
  cr : cr ∉ name
  nul : 0 ∉ name
  unseparated : ¬ ascii ": " <:+: name

theorem Name.of_colon {name : Bytes} (nonempty : name ≠ []) (start : LibWebserver.cr ∉ name) (nul : 0 ∉ name)
    (colon : 58 ∉ name) : Name name :=
  ⟨nonempty, start, nul, fun found => colon (found.subset (by decide))⟩

private theorem scanKey_name {name : Bytes} (start : cr ∉ name) (nul : 0 ∉ name) (unseparated : ¬ ascii ": " <:+: name)
    (value : Bytes) (eof : Nat) :
    scanKey (name ++ ascii ": " ++ value) eof = ⟨name, value, eof + name.length + 2⟩ := by
  induction name generalizing eof with
  | nil =>
    change scanKey (58 :: 32 :: value) eof = _
    simp [scanKey, show ¬ (58 : UInt8) = cr by decide]
  | cons c name ih =>
    simp only [List.mem_cons, not_or] at start nul
    have stop : ¬ (c = 0 ∨ c = cr) := not_or.mpr ⟨Ne.symm nul.1, Ne.symm start.1⟩
    have separator : ¬ (c = 58 ∧ peek (name ++ ascii ": " ++ value) = 32) := by
      rintro ⟨rfl, blank⟩
      cases name with
      | nil => exact absurd (show (58 : UInt8) = 32 from blank) (by decide)
      | cons d name =>
        obtain rfl : d = 32 := blank
        exact unseparated ⟨[], name, rfl⟩
    have later := ih start.2 nul.2 (fun found => unseparated (List.infix_cons found)) (eof + 1)
    rw [List.cons_append, List.cons_append, scanKey, if_neg stop, if_neg separator, later]
    simp only [List.length_cons, KeyScan.mk.injEq, true_and]
    omega

theorem no_infix_append {one two : Bytes} (head : cr ∉ one) (free : ¬ crlf <:+: two) : ¬ crlf <:+: one ++ two := by
  induction one with
  | nil => exact free
  | cons c one ih =>
    simp only [List.mem_cons, not_or] at head
    intro found
    rcases List.infix_cons_iff.mp found with starts | later
    · exact head.1 (List.cons_prefix_cons.mp starts).1
    · exact ih head.2 later

theorem fieldLine_whole {pair : HttpPair} (key : cr ∉ pair.key) (value : ¬ crlf <:+: pair.value) :
    ¬ crlf <:+: fieldLine pair := by
  apply no_infix_append _ value
  simp only [List.mem_append, not_or]
  exact ⟨key, by decide⟩

theorem keyLine_field {pair : HttpPair} (name : Name pair.key) (value : Free crlf pair.value) :
    KeyLine (fieldLine pair) := by
  obtain ⟨key, text⟩ := pair
  dsimp only at name value
  obtain ⟨c, rest, rfl⟩ := List.exists_cons_of_ne_nil name.nonempty
  refine ⟨⟨?_, ?_⟩, by simp [fieldLine], fun start => name.cr (by simp [show c = cr from start]), ?_⟩
  · have separator : (0 : UInt8) ∉ ascii ": " := by decide
    simp only [fieldLine, List.mem_append, not_or]
    exact ⟨⟨name.nul, separator⟩, value.nul⟩
  · have separator : cr ∉ ascii ": " := by decide
    apply no_infix_append _ value.absent
    simp only [List.mem_append, not_or]
    exact ⟨name.cr, separator⟩
  · intro found
    obtain ⟨rfl, blank⟩ := List.cons_prefix_cons.mp found
    cases rest with
    | nil => exact absurd (List.cons_prefix_cons.mp blank).1 (by decide)
    | cons d rest =>
      obtain ⟨rfl, _⟩ := List.cons_prefix_cons.mp blank
      exact name.unseparated ⟨[], rest, rfl⟩

theorem fieldOf_field {pair : HttpPair} (name : Name pair.key) (value : Free crlf pair.value) :
    fieldOf (fieldLine pair) = pair := by
  rw [(keyLine_field name value).fieldOf_eq, fieldLine, scanKey_name name.cr name.nul name.unseparated]

def pushFields (self : IncomingHttpMessage) (fields : List HttpPair) : IncomingHttpMessage :=
  fields.foldl pushHeader self

theorem pushLines_eq (self : IncomingHttpMessage) (lines : List Bytes) :
    pushLines self lines = pushFields self (lines.map fieldOf) := by
  rw [pushLines, pushFields, List.foldl_map]

theorem pushLines_fields {fields : List HttpPair} (valid : ∀ pair ∈ fields, Name pair.key ∧ Free crlf pair.value)
    (self : IncomingHttpMessage) : pushLines self (fields.map fieldLine) = pushFields self fields := by
  have read : (fields.map fieldLine).map fieldOf = fields := by
    rw [List.map_map]
    have each : ∀ pair ∈ fields, (fieldOf ∘ fieldLine) pair = id pair :=
      fun pair member => fieldOf_field (valid pair member).1 (valid pair member).2
    rw [List.map_congr_left each, List.map_id]
  rw [pushLines_eq, read]

/-- A part of the state that each step keeps or replaces is what the last step put there. -/
theorem foldl_last {α σ β : Type} {step : σ → α → σ} (get : σ → β) {pick : α → Option β} {l : List α}
    (each : ∀ state, ∀ a ∈ l, get (step state a) = (pick a).getD (get state)) (state : σ) :
    get (l.foldl step state) = (l.filterMap pick).getLast?.getD (get state) := by
  induction l generalizing state with
  | nil => rfl
  | cons a l ih =>
    rw [List.foldl_cons, ih (fun state other member => each state other (by simp [member])), each state a (by simp)]
    cases found : pick a with
    | none => simp [found]
    | some b => simp [found, List.getLast?_cons]

theorem pushFields_append (self : IncomingHttpMessage) (fields more : List HttpPair) :
    pushFields self (fields ++ more) = pushFields (pushFields self fields) more :=
  List.foldl_append

/-- Fields without a value leave no trace. -/
theorem pushFields_filter (self : IncomingHttpMessage) (fields : List HttpPair) :
    pushFields self fields = pushFields self (fields.filter (·.value ≠ [])) := by
  rw [pushFields, pushFields, List.foldl_filter]
  congr
  funext message pair
  by_cases empty : pair.value = []
  · simp [pushHeader, empty]
  · simp [empty]

theorem pushHeader_headers {self : IncomingHttpMessage} {pair : HttpPair} (value : pair.value ≠ []) :
    (self.pushHeader pair).headers = self.headers ++ [pair] := by
  rw [pushHeader, if_neg value]
  dsimp only
  repeat' split
  all_goals rfl

theorem pushFields_headers {self : IncomingHttpMessage} {fields : List HttpPair}
    (values : ∀ pair ∈ fields, pair.value ≠ []) : (pushFields self fields).headers = self.headers ++ fields := by
  induction fields generalizing self with
  | nil => exact (List.append_nil _).symm
  | cons pair fields ih =>
    have head := values pair (by simp)
    rw [pushFields, List.foldl_cons, ← pushFields, ih (fun other member => values other (by simp [member])),
      pushHeader_headers head, List.append_assoc, List.singleton_append]

theorem pushHeader_length {self : IncomingHttpMessage} {pair : HttpPair}
    (other : strcasecmp pair.key (ascii "content-length") ≠ .eq) : (self.pushHeader pair).length = self.length := by
  unfold pushHeader
  split
  · rfl
  · dsimp only
    repeat' split
    all_goals rfl

theorem pushFields_length {self : IncomingHttpMessage} {fields : List HttpPair}
    (others : ∀ pair ∈ fields, strcasecmp pair.key (ascii "content-length") ≠ .eq) :
    (pushFields self fields).length = self.length := by
  induction fields generalizing self with
  | nil => rfl
  | cons pair fields ih =>
    rw [pushFields, List.foldl_cons, ← pushFields, ih (fun other member => others other (by simp [member])),
      pushHeader_length (others pair (by simp))]

theorem pushHeader_isPersistent {self : IncomingHttpMessage} {pair : HttpPair}
    (other : strcasecmp pair.key (ascii "connection") ≠ .eq) :
    (self.pushHeader pair).isPersistent = self.isPersistent := by
  unfold pushHeader
  split
  · rfl
  · dsimp only
    repeat' split
    all_goals rfl

end LibWebserver.IncomingHttpMessage

namespace LibWebserver.Client
open CStr IncomingHttpMessage

theorem readLine_line {line : Bytes} (absent : ¬ crlf <:+: line) (rest : Bytes) :
    readLine (line ++ (crlf ++ rest)) = some (line, rest) := by
  induction line with
  | nil => rfl
  | cons c line ih =>
    have running : ¬ (c = cr ∧ peek (line ++ (crlf ++ rest)) = lf) := by
      rintro ⟨rfl, next⟩
      cases line with
      | nil => exact absurd next (by simp only [List.nil_append, List.cons_append, peek_cons]; decide)
      | cons d line =>
        obtain rfl : d = lf := next
        exact absent ⟨[], line, rfl⟩
    rw [List.cons_append, readLine, if_neg running, ih fun found => absent (List.infix_cons found)]
    rfl

theorem readLines_block {lines : List Bytes} (whole : ∀ line ∈ lines, ¬ crlf <:+: line ∧ line ≠ []) {fuel : Nat}
    (enough : lines.length < fuel) (rest : Bytes) :
    readLines fuel (joinLines lines ++ (crlf ++ rest)) = some (lines, rest) := by
  induction lines generalizing fuel with
  | nil =>
    obtain ⟨fuel, rfl⟩ := Nat.exists_eq_add_of_le' enough
    rfl
  | cons line lines ih =>
    obtain ⟨fuel, rfl⟩ := Nat.exists_eq_add_of_le' (Nat.zero_lt_of_lt enough)
    obtain ⟨absent, nonempty⟩ := whole line (by simp)
    have later := ih (fun other member => whole other (by simp [member])) (Nat.lt_of_succ_lt_succ enough)
    obtain ⟨c, line, rfl⟩ := List.exists_cons_of_ne_nil nonempty
    rw [joinLines_cons, List.append_assoc, List.append_assoc, readLines, readLine_line absent]
    dsimp only
    rw [later]
    rfl

/-- Lines that may be blank are read up to the first that is. -/
theorem readLines_takeWhile {lines : List Bytes} (whole : ∀ line ∈ lines, ¬ crlf <:+: line) {fuel : Nat}
    (enough : lines.length < fuel) (rest : Bytes) :
    (readLines fuel (joinLines lines ++ (crlf ++ rest))).map (·.1) = some (lines.takeWhile (· ≠ [])) := by
  induction lines generalizing fuel with
  | nil =>
    obtain ⟨fuel, rfl⟩ := Nat.exists_eq_add_of_le' enough
    rfl
  | cons line lines ih =>
    obtain ⟨fuel, rfl⟩ := Nat.exists_eq_add_of_le' (Nat.zero_lt_of_lt enough)
    have later := ih (fun other member => whole other (by simp [member])) (Nat.lt_of_succ_lt_succ enough)
    rw [joinLines_cons, List.append_assoc, List.append_assoc, readLines, readLine_line (whole line (by simp))]
    cases line with
    | nil => rfl
    | cons c line =>
      obtain ⟨⟨read, behind⟩, found, same⟩ := Option.map_eq_some_iff.mp later
      dsimp only at same ⊢
      rw [found, Option.map_some, Option.map_some, same, List.takeWhile_cons_of_pos (by simp)]

theorem length_joinLines (lines : List Bytes) : lines.length ≤ (joinLines lines).length := by
  induction lines with
  | nil => exact Nat.le_refl _
  | cons line lines ih => simp only [joinLines_cons, List.length_append, List.length_cons]; omega

theorem absent_of_cr {line : Bytes} (start : cr ∉ line) : ¬ crlf <:+: line :=
  fun found => start (found.subset (by decide))

theorem whole_of_cr {lines : List Bytes} (free : ∀ line ∈ lines, cr ∉ line ∧ line ≠ []) :
    ∀ line ∈ lines, ¬ crlf <:+: line ∧ line ≠ [] :=
  fun line member => ⟨absent_of_cr (free line member).1, (free line member).2⟩

end LibWebserver.Client
