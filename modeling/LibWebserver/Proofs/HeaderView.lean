import LibWebserver.Proofs.Fields
import LibWebserver.Proofs.Locality

/-! The headers a message is framed by and those it shows. The parser keeps the last
header of a name and `FindHeader` finds the first, so that the two agree only when
the first and the last say the same. -/

namespace LibWebserver.IncomingHttpMessage
open CStr

/-- The headers of a name. -/
def named (headers : List HttpPair) (name : Bytes) : List HttpPair := headers.filter (strcasecmp ·.key name = .eq)

theorem findPair_eq (headers : List HttpPair) (name : Bytes) : findPair headers name = (named headers name).head? := by
  rw [findPair, named, List.head?_filter]
  congr
  funext pair
  exact decide_eq_decide.mpr strcasecmp_comm

private theorem pushFields_last {β : Type} (get : IncomingHttpMessage → β) (name : Bytes) (read : HttpPair → β)
    (each : ∀ message pair, pair.value ≠ [] →
      get (pushHeader message pair) = if strcasecmp pair.key name = .eq then read pair else get message)
    {headers : List HttpPair} (values : ∀ pair ∈ headers, pair.value ≠ []) (self : IncomingHttpMessage) :
    get (pushFields self headers) = ((named headers name).getLast?.map read).getD (get self) := by
  have picked : headers.filterMap (fun pair => if strcasecmp pair.key name = .eq then some (read pair) else none) =
      (named headers name).map read := by
    rw [named]
    induction headers with
    | nil => rfl
    | cons pair headers ih =>
      have rest := ih fun other member => values other (by simp [member])
      by_cases same : strcasecmp pair.key name = .eq <;> simp [same, rest]
  rw [← List.getLast?_map, ← picked, pushFields]
  apply foldl_last get
  intro message pair member
  rw [each message pair (values pair member)]
  split <;> rfl

private theorem other_name {key one two : Bytes} (found : strcasecmp key one = .eq) (differ : strcasecmp one two ≠ .eq) :
    strcasecmp key two ≠ .eq :=
  fun also => differ (strcasecmp_trans found also)

section Headers

variable {headers : List HttpPair} (values : ∀ pair ∈ headers, pair.value ≠ []) (self : IncomingHttpMessage)
include values

theorem pushFields_length_eq : (pushFields self headers).length =
    ((named headers (ascii "content-length")).getLast?.map (strtoul ·.value)).getD self.length := by
  refine pushFields_last IncomingHttpMessage.length (ascii "content-length") (strtoul ·.value) ?_ values self
  intro message pair value
  rw [pushHeader, if_neg value]
  dsimp only
  repeat' split
  all_goals rfl

theorem pushFields_isPersistent_eq : (pushFields self headers).isPersistent =
    ((named headers (ascii "connection")).getLast?.map
      fun pair => decide (strcasecmp pair.value (ascii "keep-alive") = .eq)).getD self.isPersistent := by
  refine pushFields_last IncomingHttpMessage.isPersistent (ascii "connection")
    (fun pair => decide (strcasecmp pair.value (ascii "keep-alive") = .eq)) ?_ values self
  intro message pair value
  rw [pushHeader, if_neg value]
  dsimp only
  split
  next length => rw [if_neg (other_name length (by decide))]
  · repeat' split
    all_goals rfl

theorem pushFields_requestId_eq : (pushFields self headers).requestId =
    ((named headers (ascii "x-request-id")).getLast?.map some).getD self.requestId := by
  refine pushFields_last IncomingHttpMessage.requestId (ascii "x-request-id") some ?_ values self
  intro message pair value
  rw [pushHeader, if_neg value]
  dsimp only
  split
  next length => rw [if_neg (other_name length (by decide))]
  · split
    next connection => rw [if_neg (other_name connection (by decide))]
    · split <;> rfl

end Headers

theorem named_congr (headers : List HttpPair) {one two : Bytes} (same : strcasecmp one two = .eq) :
    named headers one = named headers two := by
  refine List.filter_congr fun pair _ => decide_eq_decide.mpr ⟨fun found => ?_, fun found => ?_⟩
  · exact strcasecmp_trans (strcasecmp_comm.mp found) same
  · exact strcasecmp_trans (strcasecmp_comm.mp found) (strcasecmp_comm.mp same)

namespace Layout

variable {data : Bytes}

/-- The fields of the block that have a value. -/
def headers (layout : Layout data) : List HttpPair := (layout.lines.map fieldOf).filter (·.value ≠ [])

theorem headers_values (layout : Layout data) : ∀ pair ∈ layout.headers, pair.value ≠ [] := by
  intro pair member
  simpa using (List.mem_filter.mp member).2

theorem pushLines_headers (layout : Layout data) : pushLines {} layout.lines = pushFields {} layout.headers := by
  rw [pushLines_eq, pushFields_filter, headers]

theorem message_headers (layout : Layout data) : layout.message.headers = layout.headers := by
  rw [message, pushLines_headers]
  exact pushFields_headers layout.headers_values

end Layout

/-- A plain decimal numeral. -/
def Numeral (value : Bytes) : Prop := value ≠ [] ∧ ∀ c ∈ value, isdigit c

def KeepAlive (value : Bytes) : Prop := strcasecmp value (ascii "keep-alive") = .eq

/-- The headers that `FindHeader` finds are those the message is framed by. -/
structure Agrees (data : Bytes) : Prop where
  framing : ∀ (layout : Layout data) message eof, deserialize data = some (.complete message eof) → message.method ≠ .get →
    (message.findHeader (ascii "Content-Length") = none → eof = layout.headLength) ∧
    ∀ pair ∈ message.findHeader (ascii "Content-Length"),
      Numeral pair.value ∧ eof = layout.headLength + digitsValue pair.value
  persistence : ∀ message eof, deserialize data = some (.complete message eof) →
    (message.isPersistent = true ↔ ∃ pair ∈ message.findHeader (ascii "Connection"), KeepAlive pair.value)
  requestId : ∀ message eof, deserialize data = some (.complete message eof) →
    message.getRequestId = message.findHeader (ascii "X-Request-Id")

/-- The first and the last header of each of the three names say the same. -/
structure Layout.Unambiguous {data : Bytes} (layout : Layout data) : Prop where
  room : layout.method ≠ .get → layout.headLength + layout.contentLength < 2 ^ 64
  length : layout.method ≠ .get → ∀ first ∈ (named layout.headers (ascii "content-length")).head?,
    ∀ last ∈ (named layout.headers (ascii "content-length")).getLast?,
    Numeral first.value ∧ strtoul last.value = digitsValue first.value
  connection : ∀ first ∈ (named layout.headers (ascii "connection")).head?,
    ∀ last ∈ (named layout.headers (ascii "connection")).getLast?, KeepAlive first.value ↔ KeepAlive last.value
  requestId : ∀ first ∈ (named layout.headers (ascii "x-request-id")).head?,
    ∀ last ∈ (named layout.headers (ascii "x-request-id")).getLast?, first = last

section View

variable {data : Bytes} (layout : Layout data)

theorem findHeader_eq {one two : Bytes} (same : strcasecmp one two = .eq) :
    layout.message.findHeader one = (named layout.headers two).head? := by
  rw [findHeader, findPair_eq, layout.message_headers, named_congr _ same]

private theorem ends_cases (l : List HttpPair) :
    l.head? = none ∧ l.getLast? = none ∨ ∃ first last, l.head? = some first ∧ l.getLast? = some last := by
  cases l with
  | nil => exact .inl ⟨rfl, rfl⟩
  | cons first rest => exact .inr ⟨first, _, rfl, List.getLast?_eq_some_getLast (by simp)⟩

/-- The end of the body is where the shown length puts it. -/
private theorem framing_iff :
    ((layout.message.findHeader (ascii "Content-Length") = none → layout.eof = layout.headLength) ∧
      ∀ pair ∈ layout.message.findHeader (ascii "Content-Length"),
        Numeral pair.value ∧ layout.eof = layout.headLength + digitsValue pair.value) ↔
    layout.headLength + layout.contentLength < 2 ^ 64 ∧
      ∀ first ∈ (named layout.headers (ascii "content-length")).head?,
        ∀ last ∈ (named layout.headers (ascii "content-length")).getLast?,
        Numeral first.value ∧ strtoul last.value = digitsValue first.value := by
  have length : layout.contentLength =
      ((named layout.headers (ascii "content-length")).getLast?.map (strtoul ·.value)).getD 0 := by
    rw [Layout.contentLength, layout.pushLines_headers, pushFields_length_eq layout.headers_values]
  have behind := layout.headLength_le_eof_iff
  have sum := layout.eof_eq
  rw [findHeader_eq layout (show strcasecmp (ascii "Content-Length") (ascii "content-length") = .eq by decide)]
  rcases ends_cases (named layout.headers (ascii "content-length")) with ⟨none, empty⟩ | ⟨first, last, head, tail⟩
  · rw [empty, Option.map_none, Option.getD_none] at length
    simp only [none, empty, forall_const, Option.mem_def, reduceCtorEq, false_implies, implies_true, and_true]
    constructor
    · intro ends
      exact behind.mp (Nat.le_of_eq ends.symm)
    · intro room
      rw [sum room, length, Nat.add_zero]
  · rw [tail, Option.map_some, Option.getD_some] at length
    simp only [head, tail, reduceCtorEq, false_implies, true_and, Option.mem_def, Option.some.injEq, forall_eq']
    constructor
    · rintro ⟨numeral, ends⟩
      have room := behind.mp (by omega)
      have reached := sum room
      exact ⟨room, numeral, by omega⟩
    · rintro ⟨room, numeral, same⟩
      have reached := sum room
      exact ⟨numeral, by omega⟩

private theorem persistence_iff :
    (layout.message.isPersistent = true ↔
      ∃ pair ∈ layout.message.findHeader (ascii "Connection"), KeepAlive pair.value) ↔
    ∀ first ∈ (named layout.headers (ascii "connection")).head?,
      ∀ last ∈ (named layout.headers (ascii "connection")).getLast?, KeepAlive first.value ↔ KeepAlive last.value := by
  have persistent : layout.message.isPersistent = ((named layout.headers (ascii "connection")).getLast?.map
      fun pair => decide (strcasecmp pair.value (ascii "keep-alive") = .eq)).getD false := by
    rw [Layout.message, layout.pushLines_headers]
    exact pushFields_isPersistent_eq layout.headers_values {}
  rw [persistent, findHeader_eq layout (show strcasecmp (ascii "Connection") (ascii "connection") = .eq by decide)]
  rcases ends_cases (named layout.headers (ascii "connection")) with ⟨none, empty⟩ | ⟨first, last, head, tail⟩
  · simp [none, empty]
  · simp [head, tail, KeepAlive, iff_comm]

theorem message_requestId : layout.message.requestId = (named layout.headers (ascii "x-request-id")).getLast? := by
  have kept : layout.message.requestId = ((named layout.headers (ascii "x-request-id")).getLast?.map some).getD none := by
    rw [Layout.message, layout.pushLines_headers]
    exact pushFields_requestId_eq layout.headers_values {}
  rw [kept]
  cases (named layout.headers (ascii "x-request-id")).getLast? <;> rfl

private theorem requestId_iff :
    layout.message.getRequestId = layout.message.findHeader (ascii "X-Request-Id") ↔
    ∀ first ∈ (named layout.headers (ascii "x-request-id")).head?,
      ∀ last ∈ (named layout.headers (ascii "x-request-id")).getLast?, first = last := by
  rw [getRequestId, message_requestId,
    findHeader_eq layout (show strcasecmp (ascii "X-Request-Id") (ascii "x-request-id") = .eq by decide)]
  rcases ends_cases (named layout.headers (ascii "x-request-id")) with ⟨none, empty⟩ | ⟨first, last, head, tail⟩
  · simp [none, empty]
  · simp [head, tail, eq_comm]

end View

/-- Framing and view agree exactly where the first and the last header of each name do. -/
theorem agrees_iff (data : Bytes) : Agrees data ↔ ∀ layout : Layout data, layout.Whole → layout.Unambiguous := by
  constructor
  · intro ⟨framing, persistence, requestId⟩ layout whole
    have done := deserialize_complete_iff.mpr ⟨layout, whole, rfl, rfl⟩
    have framed (other : layout.method ≠ .get) := (framing_iff layout).mp (framing layout _ _ done other)
    exact ⟨fun other => (framed other).1, fun other => (framed other).2,
      (persistence_iff layout).mp (persistence _ _ done), (requestId_iff layout).mp (requestId _ _ done)⟩
  · intro clear
    refine ⟨fun other message eof done request => ?_, fun message eof done => ?_, fun message eof done => ?_⟩
    · obtain ⟨layout, whole, rfl, rfl⟩ := deserialize_complete_iff.mp done
      obtain rfl : layout = other := Subsingleton.elim _ _
      exact (framing_iff layout).mpr ⟨(clear layout whole).room request, (clear layout whole).length request⟩
    · obtain ⟨layout, whole, rfl, rfl⟩ := deserialize_complete_iff.mp done
      exact (persistence_iff layout).mpr (clear layout whole).connection
    · obtain ⟨layout, whole, rfl, rfl⟩ := deserialize_complete_iff.mp done
      exact (requestId_iff layout).mpr (clear layout whole).requestId

/-- A persistent message that shows a header which says the opposite. -/
theorem duplicate_disagrees : ¬ ∀ data : Bytes, Agrees data := by
  intro always
  let message : IncomingHttpMessage :=
    { method := .get, uri := ascii "/", isPersistent := true
      headers := [⟨ascii "Connection", ascii "close"⟩, ⟨ascii "Connection", ascii "keep-alive"⟩] }
  have accepted : deserialize (ascii "GET / HTTP/1.1\r\nConnection: close\r\nConnection: keep-alive\r\n\r\n") =
      some (.complete message 61) := by decide +kernel
  obtain ⟨pair, found, alive⟩ := ((always _).persistence _ _ accepted).mp rfl
  have first : message.findHeader (ascii "Connection") = some ⟨ascii "Connection", ascii "close"⟩ := by decide +kernel
  cases first.symm.trans found
  exact absurd alive (by unfold KeepAlive; decide)

end LibWebserver.IncomingHttpMessage
