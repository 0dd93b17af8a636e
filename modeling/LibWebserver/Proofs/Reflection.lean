import LibWebserver.Proofs.ClientFraming
import LibWebserver.Proofs.FramingHeaders
import LibWebserver.Proofs.HeaderGrammar

/-! What a stored header can do to a response it is copied into. The parser ends a line at
CR LF and nowhere else, and so does the serializer: neither minds a lone LF. -/

namespace LibWebserver

namespace Client
open CStr

/-- The line that CR LF ends is the line to the first LF when no other is in it. -/
theorem readFeed_line_iff {line rest : Bytes} : readFeed (line ++ (crlf ++ rest)) = some (line, rest) ↔ lf ∉ line := by
  have found : lf ∈ line ++ (crlf ++ rest) := by simp [crlf]
  rw [readFeed, if_pos found]
  dsimp only
  constructor
  · intro read inside
    have same := congrArg Prod.fst (Option.some.inj read)
    dsimp only at same
    have kept : lf ∈ (line ++ (crlf ++ rest)).takeWhile (· ≠ lf) := by
      rw [← same] at inside
      split at inside
      · exact List.dropLast_subset _ inside
      · exact inside
    simpa using List.mem_takeWhile_imp kept
  · intro free
    have other : ∀ c ∈ line, decide (c ≠ lf) = true := by
      intro c member
      apply decide_eq_true
      rintro rfl
      exact free member
    have taken : (line ++ (crlf ++ rest)).takeWhile (· ≠ lf) = line ++ [cr] := by
      rw [List.takeWhile_append_of_pos other]
      rfl
    have dropped : (line ++ (crlf ++ rest)).dropWhile (· ≠ lf) = lf :: rest := by
      rw [List.dropWhile_append_of_pos other]
      rfl
    rw [taken, dropped, List.getLast?_concat, if_pos rfl, List.dropLast_concat]
    rfl

end Client

namespace IncomingHttpMessage
open CStr

theorem FieldLine.parts {line : Bytes} (valid : FieldLine line) :
    (cr ∉ (fieldOf line).key ∧ 0 ∉ (fieldOf line).key) ∧ Free crlf (fieldOf line).value := by
  have keyed := valid.text_valid
  rw [← valid.fieldOf_text, keyed.fieldOf_eq]
  refine ⟨⟨scanKey_key_free _ 0, ?_⟩, ?_⟩
  · intro nul
    exact keyed.free.nul ((scanKey_key_starts _ 0).subset nul)
  · exact keyed.free.of_infix (scanKey_suffix _ 0).isInfix

theorem deserialize_parts {data : Bytes} {message : IncomingHttpMessage} {eof : Nat}
    (accepted : deserialize data = some (.complete message eof)) :
    ∀ pair ∈ message.headers, (cr ∉ pair.key ∧ 0 ∉ pair.key) ∧ Free crlf pair.value ∧ pair.value ≠ [] := by
  obtain ⟨layout, _, rfl, _⟩ := deserialize_complete_iff.mp accepted
  intro pair member
  rw [layout.message_headers] at member
  have nonempty := layout.headers_values pair member
  obtain ⟨line, inside, rfl⟩ := List.mem_map.mp (List.mem_filter.mp member).1
  obtain ⟨key, value⟩ := (layout.valid line inside).parts
  exact ⟨key, value, nonempty⟩

theorem deserialize_requestId {data : Bytes} {message : IncomingHttpMessage} {eof : Nat} {pair : HttpPair}
    (accepted : deserialize data = some (.complete message eof)) (kept : message.getRequestId = some pair) :
    pair ∈ message.headers := by
  obtain ⟨layout, _, rfl, _⟩ := deserialize_complete_iff.mp accepted
  rw [layout.message_headers]
  rw [getRequestId, message_requestId] at kept
  exact (List.mem_filter.mp (List.mem_of_getLast? kept)).1

end IncomingHttpMessage

namespace OutgoingHttpMessage
open CStr IncomingHttpMessage

/-- A field adds to any header what a client reads as one line. -/
def AddsLine (read : Bytes → Option (Bytes × Bytes)) (pair : HttpPair) : Prop :=
  ∀ response : OutgoingHttpMessage, ∃ text, (response.addHeader pair.key pair.value).header = response.header ++ text ∧
    ∀ rest, read (text ++ rest) = some (fieldLine pair, rest)

theorem addsLine_iff {read : Bytes → Option (Bytes × Bytes)} {pair : HttpPair} (key : 0 ∉ pair.key) (value : 0 ∉ pair.value) :
    AddsLine read pair ↔ ∀ rest, read (fieldLine pair ++ (crlf ++ rest)) = some (fieldLine pair, rest) := by
  have added (response : OutgoingHttpMessage) :
      (response.addHeader pair.key pair.value).header = response.header ++ (fieldLine pair ++ crlf) := by
    rw [addHeader, cstr_of_not_mem key, cstr_of_not_mem value, fieldLine]
    simp
  constructor
  · intro adds rest
    obtain ⟨text, same, reads⟩ := adds {}
    rw [added] at same
    have line := reads rest
    rw [← List.append_cancel_left same, List.append_assoc] at line
    exact line
  · intro reads response
    refine ⟨fieldLine pair ++ crlf, added response, ?_⟩
    intro rest
    rw [List.append_assoc, reads]

def requestIdField (requestId : Bytes) : HttpPair := ⟨ascii "X-Request-Id", requestId⟩

private theorem respond_header (code : HttpCode) (isPersistent : Bool) {requestId : Bytes} (given : requestId ≠ []) :
    ((respond code isPersistent).addRequestId requestId).header =
      joinLines [(Line.persistence isPersistent).bytes, fieldLine (requestIdField (cstr requestId))] := by
  have name : cstr (ascii "X-Request-Id") = ascii "X-Request-Id" := by decide
  rw [addRequestId, if_pos given, addHeader, name]
  cases isPersistent <;> simp [respond, setPersistence, setResponseCode, setMethod, fieldLine, requestIdField, Line.bytes,
    persistenceValue, ascii]

private theorem respond_frame (code : HttpCode) (isPersistent : Bool) (requestId : Bytes) :
    ((respond code isPersistent).addRequestId requestId).isPersistent = isPersistent ∧
      ((respond code isPersistent).addRequestId requestId).method = .response := by
  unfold addRequestId
  split <;> exact ⟨rfl, rfl⟩

theorem serialize_method {message : OutgoingHttpMessage} (response : message.method = .response) :
    message.serialize.method = .response := by
  unfold serialize
  rw [response]
  dsimp only
  split <;> rfl

namespace Factory

theorem header_eq {factory : Factory} (given : factory.requestId ≠ []) :
    factory.message.header = joinLines
      [(Line.persistence factory.message.isPersistent).bytes, fieldLine (requestIdField (cstr factory.requestId))] := by
  obtain ⟨code, isPersistent, data, same⟩ := factory.message_eq
  rw [same]
  change ((respond code isPersistent).addRequestId factory.requestId).header = joinLines
    [(Line.persistence ((respond code isPersistent).addRequestId factory.requestId).isPersistent).bytes, _]
  rw [(respond_frame code isPersistent _).1, respond_header code isPersistent given]

theorem stored (factory : Factory) : factory.message.data.length = factory.message.dataLen := by
  obtain ⟨code, isPersistent, data, same⟩ := factory.message_eq
  rw [same]
  simp [setData]

theorem holds (factory : Factory) : Holds factory.message (.of factory.message) := by
  refine ⟨rfl, rfl, rfl, rfl, factory.stored.symm, ?_⟩
  obtain ⟨code, isPersistent, data, same⟩ := factory.message_eq
  rw [same]
  unfold setData addRequestId
  split <;> rfl

theorem startLine_whole (factory : Factory) : ¬ crlf <:+: factory.message.serialize.startLine := by
  apply Client.absent_of_cr
  obtain ⟨code, isPersistent, data, same⟩ := factory.message_eq
  have response : factory.message.method = .response := by
    rw [same]
    exact (respond_frame code isPersistent _).2
  rw [startLine, serialize_method response]
  dsimp only
  cases factory.message.serialize.responseCode <;> decide

/-- The head of a serialized response, as a client reads it behind the first line. -/
theorem lines_serialize {factory : Factory} (given : factory.requestId ≠ []) (free : Free crlf factory.requestId) :
    (Client.readLine factory.message.serialize.getSerializedMessage).map (Grammar.lines ·.2) =
      some ([(Line.persistence factory.message.isPersistent).bytes, fieldLine (requestIdField factory.requestId)] ++
        (Act.serialize.lines (.of factory.message)).map Line.bytes) := by
  have header : factory.message.serialize.header =
      joinLines ([(Line.persistence factory.message.isPersistent).bytes, fieldLine (requestIdField factory.requestId)] ++
        (Act.serialize.lines (.of factory.message)).map Line.bytes) := by
    rw [joinLines_append]
    have first := header_eq given
    rw [cstr_of_not_mem free.nul] at first
    rw [← first]
    exact factory.holds.header .serialize
  have whole : ∀ line ∈ [(Line.persistence factory.message.isPersistent).bytes, fieldLine (requestIdField factory.requestId)] ++
      (Act.serialize.lines (.of factory.message)).map Line.bytes, ¬ crlf <:+: line ∧ line ≠ [] := by
    intro line member
    rcases List.mem_append.mp member with first | written
    · simp only [List.mem_cons, List.not_mem_nil, or_false] at first
      rcases first with rfl | rfl
      · exact ⟨Line.bytes_whole (fun piece same => by cases same), by simp [Line.bytes, ascii]⟩
      · exact ⟨fieldLine_whole (show cr ∉ ascii "X-Request-Id" by decide) free.absent,
          by simp [fieldLine, requestIdField, ascii]⟩
    · obtain ⟨line, added, rfl⟩ := List.mem_map.mp written
      refine ⟨Act.lines_whole _ _ line added, ?_⟩
      rw [Act.mem_serialize_lines added]
      simp [Line.bytes, ascii]
  rw [getSerializedMessage, serialize_message factory.stored, header, Client.readLine_line factory.startLine_whole,
    Option.map_some, Grammar.lines_join fun line member => (whole line member).1, List.takeWhile_eq_self_iff.mpr]
  intro line member
  exact decide_eq_true (whole line member).2

end Factory

/-- What an accepted message can add to a response. -/
structure Reflects (message : IncomingHttpMessage) : Prop where
  fields : ∀ pair ∈ message.headers, (cr ∉ pair.key ∧ 0 ∉ pair.key) ∧ Free crlf pair.value
  requestId : ∀ pair, message.getRequestId = some pair → pair ∈ message.headers
  /-- Under its own name or that of the request id, a stored value is one line, and for a client that
  takes a bare LF for a line end exactly when there is none in it. -/
  line : ∀ pair ∈ message.headers, ∀ name ∈ [pair.key, ascii "X-Request-Id"],
    AddsLine Client.readLine ⟨name, pair.value⟩ ∧
      (AddsLine Client.readFeed ⟨name, pair.value⟩ ↔ lf ∉ name ∧ lf ∉ pair.value)
  response : ∀ pair, message.getRequestId = some pair → ∀ factory : Factory, factory.requestId = pair.value →
    (Client.readLine factory.message.serialize.getSerializedMessage).map (Grammar.lines ·.2) =
      some ([(Line.persistence factory.message.isPersistent).bytes, fieldLine (requestIdField pair.value)] ++
        (Act.serialize.lines (.of factory.message)).map Line.bytes)

/-- No stored name has a CR, and no stored name or value a CR LF, so that every header is one line of
a response for a client that ends lines at CR LF. -/
theorem deserialize_reflects {data : Bytes} {message : IncomingHttpMessage} {eof : Nat}
    (accepted : deserialize data = some (.complete message eof)) : Reflects message := by
  have parts := deserialize_parts accepted
  refine ⟨fun pair member => ⟨(parts pair member).1, (parts pair member).2.1⟩, ?_, ?_, ?_⟩
  · intro pair kept
    exact deserialize_requestId accepted kept
  · intro pair member name either
    obtain ⟨⟨start, nul⟩, value, _⟩ := parts pair member
    have plain : cr ∉ name ∧ 0 ∉ name := by
      simp only [List.mem_cons, List.not_mem_nil, or_false] at either
      rcases either with rfl | rfl
      · exact ⟨start, nul⟩
      · decide
    have one := @addsLine_iff Client.readLine ⟨name, pair.value⟩ plain.2 value.nul
    have other := @addsLine_iff Client.readFeed ⟨name, pair.value⟩ plain.2 value.nul
    rw [one, other]
    constructor
    · exact Client.readLine_line (fieldLine_whole plain.1 value.absent)
    · have separator : lf ∉ ascii ": " := by decide
      simp only [Client.readFeed_line_iff, forall_const, fieldLine, List.mem_append, not_or, separator, not_false_eq_true,
        and_true]
  · intro pair kept factory same
    obtain ⟨_, value, nonempty⟩ := parts pair (deserialize_requestId accepted kept)
    rw [← same] at value nonempty ⊢
    exact factory.lines_serialize nonempty value

/-- A request whose id goes on behind a lone LF. -/
def twoLined : Bytes := ascii "GET / HTTP/1.1\r\nX-Request-Id: a\nSet-Cookie: b\r\n\r\n"

def twoLinedMessage : IncomingHttpMessage :=
  { method := .get
    uri := ascii "/"
    headers := [⟨ascii "X-Request-Id", ascii "a\nSet-Cookie: b"⟩]
    requestId := some ⟨ascii "X-Request-Id", ascii "a\nSet-Cookie: b"⟩ }

theorem deserialize_reflects_twoLined : Reflects twoLinedMessage :=
  deserialize_reflects (show deserialize twoLined = some (.complete twoLinedMessage 49) by decide +kernel)

/-- The parser keeps it, and copied into a response it is two lines for a client that takes
a bare LF for a line end. -/
theorem feed_reflected :
    (¬ ∀ (data : Bytes) (message : IncomingHttpMessage) (eof : Nat), deserialize data = some (.complete message eof) →
      ∀ pair ∈ message.headers, (cr ∉ pair.key ∧ lf ∉ pair.key) ∧ cr ∉ pair.value ∧ lf ∉ pair.value) ∧
    ¬ ∀ (data : Bytes) (message : IncomingHttpMessage) (eof : Nat), deserialize data = some (.complete message eof) →
      ∀ pair, message.getRequestId = some pair → AddsLine Client.readFeed (requestIdField pair.value) := by
  have accepted : deserialize twoLined = some (.complete twoLinedMessage 49) := by decide +kernel
  have feed : lf ∈ ascii "a\nSet-Cookie: b" := by decide
  constructor
  · intro always
    exact (always _ _ _ accepted _ List.mem_cons_self).2.2 feed
  · intro always
    have adds := always _ _ _ accepted _ rfl
    have reads := (addsLine_iff (by decide) (by decide)).mp adds []
    have free := Client.readFeed_line_iff.mp reads
    apply free
    exact List.mem_append_right _ feed

end OutgoingHttpMessage
end LibWebserver
