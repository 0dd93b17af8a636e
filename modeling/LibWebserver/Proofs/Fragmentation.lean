import LibWebserver.Proofs.Fields
import LibWebserver.Proofs.Locality
import LibWebserver.Proofs.Receive

/-! However a stream of well-formed requests is cut into reads, exactly these
requests are pushed, in order, and nothing is left in the buffer. -/

namespace LibWebserver
open CStr CString IncomingHttpMessage

/-- A well-formed GET request. -/
structure Request where
  uri : Bytes
  version : Bytes
  fields : List HttpPair
  uriClean : 32 ∉ uri ∧ cr ∉ uri ∧ lf ∉ uri ∧ 0 ∉ uri
  versionClean : cr ∉ version ∧ lf ∉ version ∧ 0 ∉ version
  nonempty : fields ≠ []
  names : ∀ pair ∈ fields, pair.key ≠ [] ∧ 58 ∉ pair.key ∧ cr ∉ pair.key ∧ lf ∉ pair.key ∧ 0 ∉ pair.key ∧
    strcasecmp pair.key (ascii "content-length") ≠ .eq
  values : ∀ pair ∈ fields, pair.value ≠ [] ∧ cr ∉ pair.value ∧ lf ∉ pair.value ∧ 0 ∉ pair.value

namespace Request

def firstLine (request : Request) : Bytes := ascii "GET " ++ (request.uri ++ (ascii " HTTP/1." ++ request.version))

def lines (request : Request) : List Bytes := request.fields.map fieldLine

def bytes (request : Request) : Bytes := request.firstLine ++ (crlf ++ (joinLines request.lines ++ crlf))

def message (request : Request) : IncomingHttpMessage :=
  { pushFields {} request.fields with
    method := .get, uri := request.uri, queries := queriesOf .get request.uri [] }

theorem named (request : Request) : ∀ pair ∈ request.fields, Name pair.key ∧ Free crlf pair.value := by
  intro pair member
  obtain ⟨nonempty, colon, start, _, nul, _⟩ := request.names pair member
  obtain ⟨_, head, _, absent⟩ := request.values pair member
  exact ⟨.of_colon nonempty start nul colon, .of_head absent head⟩

theorem keyLines (request : Request) : ∀ line ∈ request.lines, KeyLine line := by
  intro line member
  obtain ⟨pair, inside, rfl⟩ := List.mem_map.mp member
  exact keyLine_field (request.named pair inside).1 (request.named pair inside).2

theorem firstLine_free (request : Request) : Free crlf request.firstLine := by
  obtain ⟨_, start, _, nul⟩ := request.uriClean
  obtain ⟨head, _, absent⟩ := request.versionClean
  have verb : 0 ∉ ascii "GET " ∧ cr ∉ ascii "GET " := by decide
  have protocol : 0 ∉ ascii " HTTP/1." ∧ cr ∉ ascii " HTTP/1." := by decide
  apply Free.of_head <;> simp only [firstLine, List.mem_append, not_or]
  · exact ⟨verb.1, nul, protocol.1, absent⟩
  · exact ⟨verb.2, start, protocol.2, head⟩

theorem startLine (request : Request) {data : Bytes} (starts : request.firstLine <+: data) :
    StartLine data .get request.uri := by
  obtain ⟨rest, rfl⟩ := starts
  obtain ⟨blank, _, _, nul⟩ := request.uriClean
  exact .get (Free.of_head nul blank) (request.version ++ rest) (by simp [firstLine])

/-- The layout of any buffer that starts with the request. -/
def layout (request : Request) {data rest : Bytes} (same : data = request.bytes ++ rest) : Layout data where
  first := request.firstLine
  method := .get
  uri := request.uri
  lines := request.lines
  body := rest
  split := by rw [same, bytes]; simp
  free := request.firstLine_free
  start := request.startLine ⟨_, by rw [same, bytes, List.append_assoc]⟩
  nonempty := by simpa [lines] using request.nonempty
  valid := fun line member => .key (request.keyLines line member)

theorem length_bytes (request : Request) {data rest : Bytes} (same : data = request.bytes ++ rest) :
    (request.layout same).headLength = request.bytes.length := by
  simp only [Layout.headLength, layout, bytes, List.length_append, List.length_cons, List.length_nil]
  omega

theorem whole (request : Request) (fits : request.bytes.length < 2 ^ 64) (rest : Bytes) :
    deserialize (request.bytes ++ rest) = some (.complete request.message request.bytes.length) := by
  have parsed : pushLines {} request.lines = pushFields {} request.fields := pushLines_fields request.named {}
  have plain : (pushFields {} request.fields).length = 0 :=
    pushFields_length fun pair member => (request.names pair member).2.2.2.2.2
  have length : (request.layout rfl : Layout (request.bytes ++ rest)).contentLength = 0 := by
    rw [Layout.contentLength, layout, parsed, plain]
  rw [deserialize_complete_iff]
  refine ⟨request.layout rfl, .inl rfl, ?_, ?_⟩
  · rw [Layout.message, layout, parsed]
    rfl
  · rw [Layout.eof, length, length_bytes, addSize, Nat.add_zero, Nat.mod_eq_of_lt fits]

/-- The loop is never stuck in lines that start with a key, cut anywhere. -/
theorem not_stuck {lines : List Bytes} (keyed : ∀ line ∈ lines, KeyLine line) {flag : Bool}
    (some : flag = true ∨ lines ≠ []) {p : Bytes} (starts : p <+: joinLines lines ++ crlf) : ¬ Stuck flag p := by
  intro stuck
  induction lines generalizing flag p with
  | nil =>
    have set : flag = true := some.resolve_right (by simp)
    cases stuck with
    | cr more unfinished =>
      have second := (List.cons_prefix_cons.mp (List.cons_prefix_cons.mp starts).2).1
      rcases unfinished with clear | differs
      · rw [set] at clear; cases clear
      · exact differs second
    | separator later => exact absurd (List.cons_prefix_cons.mp starts).1 (by decide)
    | @line _ line p valid later =>
      have size := starts.length_le
      have positive := List.length_pos_iff.mpr valid.nonempty
      simp only [joinLines_nil, List.length_append, List.length_cons, List.length_nil] at size
      omega
  | cons line lines ih =>
    have head := keyed line (by simp)
    rw [joinLines_cons, List.append_assoc, List.append_assoc] at starts
    cases stuck with
    | cr more unfinished =>
      obtain ⟨c, line, rfl⟩ := List.exists_cons_of_ne_nil head.nonempty
      exact head.start (List.cons_prefix_cons.mp starts).1.symm
    | separator later =>
      obtain ⟨c, line, rfl⟩ := List.exists_cons_of_ne_nil head.nonempty
      obtain ⟨rfl, after⟩ := List.cons_prefix_cons.mp starts
      cases line with
      | nil => exact absurd (List.cons_prefix_cons.mp after).1 (by decide)
      | cons d line =>
        obtain ⟨rfl, _⟩ := List.cons_prefix_cons.mp after
        exact head.unseparated ⟨line, rfl⟩
    | @line _ other p valid later =>
      obtain ⟨more, same⟩ := starts
      rw [List.append_assoc, List.append_assoc] at same
      obtain ⟨_, rest⟩ := Free.cut_unique (by decide) valid.free head.free same
      exact ih (fun line member => keyed line (by simp [member])) (.inl rfl) ⟨more, rest⟩ later

theorem waits (request : Request) {start : Bytes} (starts : start <+: request.bytes) (proper : start ≠ request.bytes) :
    deserialize start = some .incomplete := by
  obtain ⟨more, same⟩ := starts
  have cut {first p : Bytes} (split : start = first ++ (crlf ++ p)) (free : Free crlf first) :
      first = request.firstLine ∧ p ++ more = joinLines request.lines ++ crlf := by
    rw [split, List.append_assoc, List.append_assoc, bytes] at same
    exact Free.cut_unique (by decide) free request.firstLine_free same
  cases shape start with
  | unfinished waiting => exact waiting
  | @malformed first p split free bad =>
    obtain ⟨rfl, _⟩ := cut split free
    exact absurd (request.startLine ⟨crlf ++ p, split.symm⟩) (bad .get request.uri)
  | stuck split free _ stuck =>
    obtain ⟨_, rest⟩ := cut split free
    have lines : request.lines ≠ [] := by simpa [lines] using request.nonempty
    exact absurd stuck (not_stuck request.keyLines (.inr lines) ⟨more, rest⟩)
  | block layout =>
    have whole : request.bytes = request.bytes ++ [] := (List.append_nil _).symm
    have unique : layout.extend same.symm = request.layout whole := Subsingleton.elim _ _
    have head : layout.headLength = request.bytes.length := by
      rw [← request.length_bytes whole, ← unique]
      rfl
    have size := layout.length_eq
    have total := congrArg List.length same
    rw [List.length_append] at total
    have none : more = [] := List.length_eq_zero_iff.mp (by omega)
    rw [none, List.append_nil] at same
    exact absurd same proper

theorem frame (request : Request) (fits : request.bytes.length < 2 ^ 64) :
    Framing.Frame verdict request.bytes request.message where
  nonempty := by simp [bytes, firstLine, ascii]
  whole := fun rest => verdict_complete_iff.mpr (request.whole fits rest)
  waits := fun start starts proper => verdict_incomplete_iff.mpr (request.waits starts proper)

def sample : Request where
  uri := ascii "/?k=v"
  version := ascii "1"
  fields := [⟨ascii "Host", ascii "a"⟩]
  uriClean := by decide
  versionClean := by decide
  nonempty := by decide
  names := by decide
  values := by decide

theorem headers (request : Request) : request.message.headers = request.fields :=
  pushFields_headers fun pair member => (request.values pair member).1

end Request

namespace World

variable {w : World} {c : Nat}

theorem readAll_receives {held last : Bytes} {chunks : List Bytes} {messages : List IncomingHttpMessage}
    (receives : Framing.Receives verdict (fun held => held.length + 1501 < 2 ^ 64) held chunks messages last)
    (short : ∀ chunk ∈ chunks, chunk ≠ [] ∧ chunk.length ≤ bufferLength) (connected : (w.conn c).state = .connected)
    (holds : Holds (w.conn c).buffer held) :
    ∃ after, w.readAll c (chunks.map .received) = some ⟨after, none⟩ ∧
      (after.conn c).incoming = (w.conn c).incoming ++ messages ∧ Holds (after.conn c).buffer last := by
  induction receives generalizing w with
  | done => exact ⟨w, rfl, (List.append_nil _).symm, holds⟩
  | @read held chunk chunks messages more rest last fits drained later ih =>
    obtain ⟨nonempty, size⟩ := short chunk (by simp)
    obtain ⟨next, read, first⟩ := eventRead_drains connected holds nonempty size fits drained
    obtain ⟨after, reads, incoming, buffer⟩ := @ih next (fun other member => short other (by simp [member]))
      (first.state.trans connected) first.buffer
    refine ⟨after, ?_, ?_, buffer⟩
    · rw [List.map_cons, readAll, read]
      exact reads
    · rw [incoming, first.incoming, List.append_assoc]

theorem initialise_conn {start : World} (opened : w.initialise c = ⟨start, none⟩) :
    start.conn c = { w.conn c with state := .connected } := by
  unfold initialise at opened
  split at opened
  next => cases opened
  next =>
    cases opened
    rw [setState_conn, poll_conn]

theorem initialise_holds {fd : Int} (fresh : w.conn c = Connection.create fd) {start : World}
    (opened : w.initialise c = ⟨start, none⟩) : Holds (start.conn c).buffer [] := by
  rw [initialise_conn opened, fresh]
  exact ⟨valid_ofSize (by decide), content_ofSize _⟩

/-- A stream of well-formed requests, cut in any way, is received as these requests. -/
theorem readAll_requests (requests : List Request) (chunks : List Bytes)
    (stream : chunks.flatten = (requests.map Request.bytes).flatten)
    (short : ∀ chunk ∈ chunks, chunk ≠ [] ∧ chunk.length ≤ bufferLength)
    (fits : ∀ request ∈ requests, request.bytes.length + 1501 < 2 ^ 64)
    (fd : Int) (fresh : w.conn c = Connection.create fd) {start : World} (opened : w.initialise c = ⟨start, none⟩) :
    ∃ after, start.readAll c (chunks.map .received) = some ⟨after, none⟩ ∧
      ((after.conn c).incoming.map fun message => (message.method, message.uri, message.headers, message.queries)) =
        requests.map (fun request => (HttpMethod.get, request.uri, request.fields, queriesOf .get request.uri [])) ∧
      (after.conn c).buffer.content = [] := by
  have conn := initialise_conn opened
  rw [fresh] at conn
  have framed : ∀ frame ∈ requests.map (fun request => (request.bytes, request.message)),
      Framing.Frame verdict frame.1 frame.2 := by
    intro frame member
    obtain ⟨request, inside, rfl⟩ := List.mem_map.mp member
    exact request.frame (by have small := fits request inside; omega)
  have starts : ∀ frame ∈ requests.map (fun request => (request.bytes, request.message)), ∀ held : Bytes,
      held <+: frame.1 → held.length + 1501 < 2 ^ 64 := by
    intro frame member held inside
    obtain ⟨request, found, rfl⟩ := List.mem_map.mp member
    have small := fits request found
    have le : held.length ≤ request.bytes.length := inside.length_le
    omega
  have nonempty : ∀ bytes ∈ (requests.map fun request => (request.bytes, request.message)).map Prod.fst, bytes ≠ [] := by
    intro bytes member
    obtain ⟨frame, inside, rfl⟩ := List.mem_map.mp member
    exact (framed frame inside).nonempty
  have receives := Framing.receives_frames framed (verdict_incomplete_iff.mpr rfl) (by decide) starts
    (Framing.Held.nil nonempty) (by rw [List.map_map]; exact stream)
  obtain ⟨after, reads, incoming, buffer⟩ := readAll_receives receives short (by rw [conn])
    (initialise_holds fresh opened)
  refine ⟨after, reads, ?_, buffer.content⟩
  rw [incoming, conn, List.map_append, List.map_map, List.map_map]
  apply List.map_congr_left
  intro request _
  exact Prod.ext rfl (Prod.ext rfl (Prod.ext request.headers rfl))

theorem readAll_requests_twice :
    ∃ after, (vacant.initialise 3).world.readAll 3 ([ascii "GE", ascii "T /?k=v HTTP/1.1\r", ascii "\nHost: a\r\n\r\nGET /",
        ascii "?k=v HTTP/1.1\r\nHost:", ascii " a\r\n\r\n"].map .received) = some ⟨after, none⟩ ∧
      ((after.conn 3).incoming.map fun message => (message.method, message.uri, message.headers, message.queries)) =
        [Request.sample, Request.sample].map (fun request =>
          (HttpMethod.get, request.uri, request.fields, queriesOf .get request.uri [])) ∧
      (after.conn 3).buffer.content = [] :=
  readAll_requests [Request.sample, Request.sample] _ (by decide +kernel) (by decide +kernel) (by decide +kernel) 3
    (show vacant.conn 3 = _ from rfl) rfl

end World
end LibWebserver
