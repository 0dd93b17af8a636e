import LibWebserver.Proofs.Deserialize

/-! When a message depends only on the bytes it consumes. The query stage reads
on past the body, and " HTTP/1." is searched past the first line, so this is so
only for some messages. -/

namespace LibWebserver.IncomingHttpMessage
open CStr

theorem StartLine.extend {data whole uri : Bytes} {method : HttpMethod} (start : StartLine data method uri)
    (inside : data <+: whole) : StartLine whole method uri := by
  obtain ⟨more, rfl⟩ := inside
  cases start with
  | post free rest same => exact .post free (rest ++ more) (by simp [same])
  | get free rest same => exact .get free (rest ++ more) (by simp [same])
  | response found =>
    have grows : data <+: data ++ more := List.prefix_append data more
    exact .response (found.imp (·.trans grows) (·.trans grows))

namespace Layout

variable {data whole : Bytes}

/-- The same header block in front of more bytes. -/
def extend {rest : Bytes} (layout : Layout data) (same : whole = data ++ rest) : Layout whole where
  first := layout.first
  method := layout.method
  uri := layout.uri
  lines := layout.lines
  body := layout.body ++ rest
  split := by
    rw [same]
    conv => lhs; rw [layout.split]
    simp
  free := layout.free
  start := layout.start.extend ⟨rest, same.symm⟩
  nonempty := layout.nonempty
  valid := layout.valid

private theorem take_split (layout : Layout data) {n : Nat} (fits : layout.headLength ≤ n) :
    data.take n = layout.first ++ (crlf ++ (joinLines layout.lines ++ (crlf ++ layout.body.take (n - layout.headLength)))) := by
  have whole : data = (layout.first ++ (crlf ++ (joinLines layout.lines ++ crlf))) ++ layout.body := by
    conv => lhs; rw [layout.split]
    simp
  have size : layout.headLength = (layout.first ++ (crlf ++ (joinLines layout.lines ++ crlf))).length := by
    simp only [headLength, List.length_append, List.length_cons, List.length_nil]
    omega
  rw [size] at fits
  conv => lhs; rw [whole]
  rw [List.take_append, List.take_of_length_le fits, ← size]
  simp

/-- The same header block in front of fewer bytes. -/
def take (layout : Layout data) {n : Nat} (fits : layout.headLength ≤ n)
    (start : StartLine (data.take n) layout.method layout.uri) : Layout (data.take n) where
  first := layout.first
  method := layout.method
  uri := layout.uri
  lines := layout.lines
  body := layout.body.take (n - layout.headLength)
  split := layout.take_split fits
  free := layout.free
  start := start
  nonempty := layout.nonempty
  valid := layout.valid

private theorem pushHeader_length_lt {self : IncomingHttpMessage} (small : self.length < 2 ^ 64) (pair : HttpPair) :
    (self.pushHeader pair).length < 2 ^ 64 := by
  unfold pushHeader
  split
  · exact small
  · dsimp only
    split
    · exact strtoul_lt pair.value
    · repeat' split
      all_goals exact small

private theorem pushLines_length_lt {self : IncomingHttpMessage} (small : self.length < 2 ^ 64) (lines : List Bytes) :
    (pushLines self lines).length < 2 ^ 64 := by
  induction lines generalizing self with
  | nil => exact small
  | cons line lines ih => exact ih (pushHeader_length_lt small (fieldOf line))

theorem contentLength_lt (layout : Layout data) : layout.contentLength < 2 ^ 64 :=
  pushLines_length_lt (by decide) layout.lines

/-- The end of a message lies behind its header block unless the sum wraps. -/
theorem headLength_le_eof_iff (layout : Layout data) :
    layout.headLength ≤ layout.eof ↔ layout.headLength + layout.contentLength < 2 ^ 64 := by
  have small := layout.contentLength_lt
  rw [eof, addSize]
  constructor
  · intro behind
    by_contra wraps
    have bound : (layout.headLength + layout.contentLength) % 2 ^ 64 < 2 ^ 64 := Nat.mod_lt _ (by decide)
    have less : layout.headLength < 2 ^ 64 := by omega
    rw [Nat.mod_eq_sub_mod (by omega), Nat.mod_eq_of_lt (by omega)] at behind
    omega
  · intro room
    rw [Nat.mod_eq_of_lt room]
    omega

theorem eof_eq (layout : Layout data) (room : layout.headLength + layout.contentLength < 2 ^ 64) :
    layout.eof = layout.headLength + layout.contentLength :=
  Nat.mod_eq_of_lt room

/-- The message ends inside the address space, its start line is complete within
it, and the body of a POST or response has a NUL. -/
structure SelfContained (layout : Layout data) : Prop where
  room : layout.headLength + layout.contentLength < 2 ^ 64
  start : ∃ method uri, StartLine (data.take (layout.headLength + layout.contentLength)) method uri
  closed : layout.method = .get ∨ 0 ∈ layout.body.take layout.contentLength

private theorem of_take {n : Nat} {layout : Layout data} (mine : Layout (data.take n)) (eof : n = layout.eof) :
    layout.headLength + layout.contentLength < 2 ^ 64 ∧
      ∃ method uri, StartLine (data.take (layout.headLength + layout.contentLength)) method uri := by
  have same : mine.extend (List.take_append_drop n data).symm = layout := Subsingleton.elim _ _
  have head : mine.headLength = layout.headLength := by rw [← same]; rfl
  have room : layout.headLength + layout.contentLength < 2 ^ 64 := by
    rw [← layout.headLength_le_eof_iff, ← eof, ← head]
    have size := mine.length_eq
    rw [List.length_take] at size
    omega
  refine ⟨room, mine.method, mine.uri, ?_⟩
  rw [← layout.eof_eq room, ← eof]
  exact mine.start

end Layout

open Layout

/-- With its header block and start line among the bytes it consumes, a message is
accepted whatever follows; only its queries may differ. -/
private theorem deserialize_take {data : Bytes} (layout : Layout data)
    (room : layout.headLength + layout.contentLength < 2 ^ 64)
    (start : ∃ method uri, StartLine (data.take (layout.headLength + layout.contentLength)) method uri)
    (inside : layout.eof ≤ data.length) (rest : Bytes) :
    deserialize (data.take layout.eof ++ rest) = some (.complete { layout.message with
      queries := queriesOf layout.method layout.uri (layout.body.take layout.contentLength ++ rest) } layout.eof) := by
  obtain ⟨method, uri, start⟩ := start
  rw [← layout.eof_eq room] at start
  obtain ⟨rfl, rfl⟩ := layout.start.unique layout.split layout.free (start.extend (List.take_prefix _ data))
  have behind := layout.headLength_le_eof_iff.mpr room
  have size : layout.eof - layout.headLength = layout.contentLength := by rw [layout.eof_eq room]; omega
  rw [deserialize_complete_iff]
  refine ⟨(layout.take behind start).extend rfl, .inr ?_, ?_, rfl⟩
  · change layout.eof ≤ (data.take layout.eof ++ rest).length
    rw [List.length_append, List.length_take]
    omega
  · rw [← size]
    rfl

private theorem queriesOf_closed {method : HttpMethod} {part : Bytes} (closed : method = .get ∨ 0 ∈ part)
    (uri rest after : Bytes) : queriesOf method uri (part ++ rest) = queriesOf method uri (part ++ after) := by
  cases method with
  | get => rfl
  | post | response =>
    obtain ⟨before, last, rfl⟩ := List.append_of_mem (closed.resolve_left (by decide))
    simp only [queriesOf, List.append_assoc, List.cons_append, parseQueries_nul]

private theorem queriesOf_open {method : HttpMethod} {part : Bytes} (posted : method ≠ .get) (opened : 0 ∉ part)
    (uri : Bytes) : queriesOf method uri (part ++ furtherQuery) ≠ queriesOf method uri (part ++ [0]) := by
  have longer := parseQueries_follow opened
  intro same
  have ends : parseQueries (part ++ [0]) = parseQueries part := parseQueries_nul part []
  cases method with
  | get => exact posted rfl
  | post | response =>
    simp only [queriesOf, ends] at same
    rw [same] at longer
    omega

/-- Independence of the tail, and exactly when it holds. -/
theorem deserialize_local_iff {data : Bytes} {message : IncomingHttpMessage} {eof : Nat}
    (accepted : deserialize data = some (.complete message eof)) (inside : eof ≤ data.length) :
    (∀ rest, deserialize (data.take eof ++ rest) = some (.complete message eof)) ↔
      ∃ layout : Layout data, layout.SelfContained := by
  obtain ⟨layout, _, rfl, rfl⟩ := deserialize_complete_iff.mp accepted
  constructor
  · intro everywhere
    have alone := everywhere []
    rw [List.append_nil] at alone
    obtain ⟨mine, _, _, _⟩ := deserialize_complete_iff.mp alone
    obtain ⟨room, start⟩ := of_take mine rfl
    have queries (rest : Bytes) :
        queriesOf layout.method layout.uri (layout.body.take layout.contentLength ++ rest) = layout.message.queries := by
      have found := everywhere rest
      rw [deserialize_take layout room start inside rest, Option.some.injEq, Outcome.complete.injEq] at found
      exact congrArg IncomingHttpMessage.queries found.1
    refine ⟨layout, room, start, ?_⟩
    by_contra opened
    obtain ⟨posted, opened⟩ := not_or.mp opened
    exact queriesOf_open posted opened layout.uri ((queries furtherQuery).trans (queries [0]).symm)
  · intro ⟨other, room, start, closed⟩ rest
    obtain rfl : layout = other := Subsingleton.elim _ _
    have whole : layout.body.take layout.contentLength ++ layout.body.drop layout.contentLength = layout.body :=
      List.take_append_drop _ _
    rw [deserialize_take layout room start inside rest,
      queriesOf_closed closed layout.uri rest (layout.body.drop layout.contentLength), whole]
    rfl

theorem deserialize_local_get :
    (∀ rest, deserialize ((ascii "GET /?k=v HTTP/1.1\r\nHost: a\r\n\r\n").take 31 ++ rest) = some (.complete
        { method := .get, uri := ascii "/?k=v", headers := [⟨ascii "Host", ascii "a"⟩],
          queries := [⟨ascii "k", ascii "v"⟩] } 31)) ↔
      ∃ layout : Layout (ascii "GET /?k=v HTTP/1.1\r\nHost: a\r\n\r\n"), layout.SelfContained :=
  deserialize_local_iff (by decide +kernel) (by decide)

/-- The parameters of a body are read on into what follows it. -/
theorem deserialize_reads_on :
    ¬ ∀ (data : Bytes) (message : IncomingHttpMessage) (eof : Nat), deserialize data = some (.complete message eof) →
      eof ≤ data.length → ∀ rest, deserialize (data.take eof ++ rest) = some (.complete message eof) := by
  intro always
  have alone : deserialize (ascii "POST / HTTP/1.1\r\nContent-Length: 3\r\n\r\na=b") = some (.complete
      { method := .post, uri := ascii "/", length := 3, headers := [⟨ascii "Content-Length", ascii "3"⟩],
        queries := [⟨ascii "a", ascii "b"⟩] } 41) := by decide +kernel
  have followed := always _ _ _ alone (by decide) (ascii "GET / HTTP/1.1\r\n")
  have different : deserialize ((ascii "POST / HTTP/1.1\r\nContent-Length: 3\r\n\r\na=b").take 41 ++
      ascii "GET / HTTP/1.1\r\n") ≠ some (.complete
      { method := .post, uri := ascii "/", length := 3, headers := [⟨ascii "Content-Length", ascii "3"⟩],
        queries := [⟨ascii "a", ascii "b"⟩] } 41) := by decide +kernel
  exact different followed

end LibWebserver.IncomingHttpMessage
