import LibWebserver.Client
import LibWebserver.Proofs.RoundTrip

/-! How a client reads a stream of serialized responses. Every response frames
itself except those built with the code for no content, which the serializer
gives a body and a Content-Length all the same. -/

namespace LibWebserver.OutgoingHttpMessage
open CStr IncomingHttpMessage Client

theorem readHead_block {line : Bytes} (start : cr ∉ line) {lines : List Bytes}
    (free : ∀ line ∈ lines, cr ∉ line ∧ line ≠ []) (rest : Bytes) :
    readHead (line ++ (crlf ++ (joinLines lines ++ (crlf ++ rest)))) =
      some ⟨(line.drop 9).take 3, lines.map readField, rest⟩ := by
  have enough : lines.length < (joinLines lines ++ (crlf ++ rest)).length + 1 := by
    have short := length_joinLines lines
    rw [List.length_append]
    omega
  rw [readHead, readLine_line (absent_of_cr start)]
  dsimp only
  rw [readLines_block (whole_of_cr free) enough]
  rfl

/-- The factories of the class, with their arguments. -/
inductive Factory where
  | ok (requestId : Bytes) (isPersistent : Bool)
  | noContent (requestId : Bytes) (isPersistent : Bool)
  | badRequest
  | badRequestFor (requestId : Bytes)
  | forbidden
  | forbiddenFor (requestId : Bytes)
  | notFound (isPersistent : Bool)
  | notFoundWith (content : Bytes) (isPersistent : Bool)
  | notFoundFor (requestId content : Bytes) (isPersistent : Bool)
  | notAcceptable (isPersistent : Bool)
  | notAcceptableWith (content : Bytes) (isPersistent : Bool)
  | notAcceptableFor (requestId content : Bytes) (isPersistent : Bool)
  | requestTimeout (requestId : Bytes) (isPersistent : Bool)
  | tooManyConnections
  deriving DecidableEq, Repr

namespace Factory

def message : Factory → OutgoingHttpMessage
  | ok requestId isPersistent => OutgoingHttpMessage.ok requestId isPersistent
  | noContent requestId isPersistent => OutgoingHttpMessage.noContent requestId isPersistent
  | badRequest => OutgoingHttpMessage.badRequest
  | badRequestFor requestId => OutgoingHttpMessage.badRequestFor requestId
  | forbidden => OutgoingHttpMessage.forbidden
  | forbiddenFor requestId => OutgoingHttpMessage.forbiddenFor requestId
  | notFound isPersistent => OutgoingHttpMessage.notFound isPersistent
  | notFoundWith content isPersistent => OutgoingHttpMessage.notFoundWith content isPersistent
  | notFoundFor requestId content isPersistent => OutgoingHttpMessage.notFoundFor requestId content isPersistent
  | notAcceptable isPersistent => OutgoingHttpMessage.notAcceptable isPersistent
  | notAcceptableWith content isPersistent => OutgoingHttpMessage.notAcceptableWith content isPersistent
  | notAcceptableFor requestId content isPersistent =>
    OutgoingHttpMessage.notAcceptableFor requestId content isPersistent
  | requestTimeout requestId isPersistent => OutgoingHttpMessage.requestTimeout requestId isPersistent
  | tooManyConnections => OutgoingHttpMessage.tooManyConnections

/-- The request id a factory puts in a field. -/
def requestId : Factory → Bytes
  | ok requestId _ | noContent requestId _ | badRequestFor requestId | forbiddenFor requestId
  | notFoundFor requestId _ _ | notAcceptableFor requestId _ _ | requestTimeout requestId _ => requestId
  | badRequest | forbidden | notFound _ | notFoundWith _ _ | notAcceptable _ | notAcceptableWith _ _
  | tooManyConnections => []

end Factory

/-- A call a response may be built with: any code and data, and fields that stay
on their line. -/
inductive Call.Plain : Call → Prop where
  | method : Plain (.setMethod .response)
  | code (code : HttpCode) : Plain (.setResponseCode code)
  | persistence (isPersistent : Bool) : Plain (.setPersistence isPersistent)
  | header {key value : Bytes} (start : cr ∉ key ∧ cr ∉ value) (feed : lf ∉ key ∧ lf ∉ value) :
      Plain (.addHeader key value)
  | data (data : Bytes) : Plain (.setData data)

/-- A response as an application builds it. -/
inductive Response : OutgoingHttpMessage → Prop where
  | factory (factory : Factory) (start : cr ∉ factory.requestId) (feed : lf ∉ factory.requestId) :
      Response factory.message
  | calls {calls : List Call} (plain : ∀ call ∈ calls, call.Plain) : Response (build calls)

/-- What of it the serializer relies on: a header made of lines. -/
structure Framed (message : OutgoingHttpMessage) (lines : List Bytes) : Prop where
  method : message.method = .response
  header : message.header = joinLines lines
  free : ∀ line ∈ lines, cr ∉ line ∧ line ≠ []
  stored : message.data.length = message.dataLen

private theorem not_mem_cstr_of {c : UInt8} {s : Bytes} (absent : c ∉ s) : c ∉ cstr s :=
  fun member => absent ((List.takeWhile_prefix _).subset member)

section Framing

variable {message : OutgoingHttpMessage} {lines : List Bytes}

private theorem Framed.add (framed : Framed message lines) {line : Bytes} (start : cr ∉ line) (nonempty : line ≠ []) :
    ∀ other ∈ lines ++ [line], cr ∉ other ∧ other ≠ [] := by
  intro other member
  rcases List.mem_append.mp member with member | member
  · exact framed.free other member
  · rw [List.mem_singleton.mp member]
    exact ⟨start, nonempty⟩

private theorem Framed.apply (framed : Framed message lines) {call : Call} (plain : call.Plain) :
    ∃ lines, Framed (call.apply message) lines := by
  have added := @framed.add
  obtain ⟨method, header, free, stored⟩ := framed
  cases plain with
  | method => exact ⟨lines, rfl, header, free, stored⟩
  | code code => exact ⟨lines, method, header, free, stored⟩
  | data data => exact ⟨lines, method, header, free, by simp [Call.apply, setData]⟩
  | persistence isPersistent =>
    refine ⟨lines ++ [ascii (if isPersistent then "Connection: keep-alive" else "Connection: close")], method, ?_,
      added (by cases isPersistent <;> decide) (by cases isPersistent <;> decide), stored⟩
    cases isPersistent <;> simp [Call.apply, setPersistence, header, joinLines_append, ascii]
  | @header key value start feed =>
    refine ⟨lines ++ [cstr key ++ ascii ": " ++ cstr value], method, ?_, added ?_ (by simp [ascii]), stored⟩
    · simp [Call.apply, addHeader, header, joinLines_append]
    · have separator : cr ∉ ascii ": " := by decide
      simp only [List.mem_append, not_or]
      exact ⟨⟨not_mem_cstr_of start.1, separator⟩, not_mem_cstr_of start.2⟩

private theorem framed_build {calls : List Call} (plain : ∀ call ∈ calls, call.Plain) :
    ∃ lines, Framed (build calls) lines := by
  suffices general : ∀ message, (∃ lines, Framed message lines) → ∃ lines, Framed (calls.foldl Call.apply message) lines from
    general {} ⟨[], rfl, rfl, by simp, rfl⟩
  induction calls with
  | nil => exact fun _ framed => framed
  | cons call calls ih =>
    intro message ⟨lines, framed⟩
    exact ih (fun other member => plain other (by simp [member])) _ (framed.apply (plain call (by simp)))

/-- Built by calls a response may be built with. -/
private def Built (message : OutgoingHttpMessage) : Prop := ∃ calls, message = build calls ∧ ∀ call ∈ calls, call.Plain

private theorem Built.call (built : Built message) {call : Call} (plain : call.Plain) : Built (call.apply message) := by
  obtain ⟨calls, rfl, all⟩ := built
  refine ⟨calls ++ [call], by simp [build], fun other member => ?_⟩
  rcases List.mem_append.mp member with member | member
  · exact all other member
  · exact List.mem_singleton.mp member ▸ plain

private theorem built_respond (code : HttpCode) (isPersistent : Bool) : Built (respond code isPersistent) :=
  ⟨[.setMethod .response, .setResponseCode code, .setPersistence isPersistent], rfl,
    fun call member => by
      simp only [List.mem_cons, List.not_mem_nil, or_false] at member
      rcases member with rfl | rfl | rfl
      · exact .method
      · exact .code code
      · exact .persistence isPersistent⟩

private theorem Built.addRequestId (built : Built message) {requestId : Bytes} (start : cr ∉ requestId)
    (feed : lf ∉ requestId) : Built (message.addRequestId requestId) := by
  unfold OutgoingHttpMessage.addRequestId
  split
  · exact built.call (.header ⟨by decide, start⟩ ⟨by decide, feed⟩)
  · exact built

theorem setMessage_eq (message : OutgoingHttpMessage) (code : HttpCode) :
    ∃ data, message.setMessage code = message.setData data data.length := by
  refine ⟨code.message, ?_⟩
  rw [setMessage, HttpCode.message_length]

theorem setContent_eq (message : OutgoingHttpMessage) (code : HttpCode) (content : Bytes) :
    ∃ data, message.setContent code content = message.setData data data.length := by
  unfold setContent
  split
  · exact ⟨content, rfl⟩
  · exact setMessage_eq message code

/-- A factory sets a code, the persistence, the request id and the data, in this order. -/
theorem Factory.message_eq (factory : Factory) :
    ∃ code isPersistent data,
      factory.message = ((respond code isPersistent).addRequestId factory.requestId).setData data data.length := by
  cases factory with
  | ok | noContent | badRequest | badRequestFor | forbidden | forbiddenFor | notFound | notAcceptable | requestTimeout
  | tooManyConnections =>
    obtain ⟨data, same⟩ := setMessage_eq _ _
    exact ⟨_, _, data, same⟩
  | notFoundWith | notFoundFor | notAcceptableWith | notAcceptableFor =>
    obtain ⟨data, same⟩ := setContent_eq _ _ _
    exact ⟨_, _, data, same⟩

private theorem Factory.built (factory : Factory) (start : cr ∉ factory.requestId) (feed : lf ∉ factory.requestId) :
    Built factory.message := by
  obtain ⟨code, isPersistent, data, same⟩ := factory.message_eq
  rw [same]
  have fields := (built_respond code isPersistent).addRequestId start feed
  exact fields.call (.data data)

theorem Response.framed (response : Response message) : ∃ lines, Framed message lines := by
  cases response with
  | factory factory start feed =>
    obtain ⟨calls, same, plain⟩ := factory.built start feed
    rw [same]
    exact framed_build plain
  | calls plain => exact framed_build plain

end Framing

/-- The code a response is sent with. -/
def status (message : OutgoingHttpMessage) : HttpCode :=
  if message.responseCode = .ok ∧ message.dataLen = 0 then .noContent else message.responseCode

/-- The bytes handed to the socket. -/
def wire (message : OutgoingHttpMessage) : Bytes := message.serialize.message.take message.serialize.getLength

/-- The fields a client reads from the header built so far. -/
def headerFields (message : OutgoingHttpMessage) : List HttpPair :=
  match readLines (message.header.length + 1) (message.header ++ crlf) with
  | none => []
  | some (lines, _) => lines.map readField

/-- The lines of the serialized header. -/
private def wireLines (message : OutgoingHttpMessage) (lines : List Bytes) : List Bytes :=
  if message.responseCode = .ok ∧ message.dataLen = 0 then lines
  else lines ++ [ascii "Content-Length: " ++ decimal message.dataLen]

section Reading

variable {message : OutgoingHttpMessage} {lines : List Bytes}

private theorem wire_text (framed : Framed message lines) (fits : message.text.length + 1 < 2 ^ 64) :
    wire message = message.text := by
  rw [wire, (serialize_text framed.stored fits).1, getLength_text framed.stored fits, List.take_left]

private theorem Framed.headerFields_eq (framed : Framed message lines) :
    headerFields message = lines.map readField := by
  have enough : lines.length < message.header.length + 1 := by
    rw [framed.header]
    exact Nat.lt_succ_of_le (length_joinLines lines)
  have read := readLines_block (whole_of_cr framed.free) enough []
  rw [headerFields]
  rw [framed.header] at read ⊢
  rw [List.append_nil] at read
  rw [read]

private theorem cr_not_mem_length (n : Nat) : cr ∉ ascii "Content-Length: " ++ decimal n := by
  have text : cr ∉ ascii "Content-Length: " := by decide
  rw [List.mem_append, not_or]
  refine ⟨text, fun member => ?_⟩
  exact absurd (isdigit_decimal n cr member) (by decide)

private theorem Framed.text_eq (framed : Framed message lines) :
    message.text = (ascii "HTTP/1.1 " ++ (status message).message) ++
      (crlf ++ (joinLines (wireLines message lines) ++ (crlf ++ message.data))) := by
  simp only [text, framed.method, framed.header, status, wireLines]
  split
  · simp
  · simp [joinLines_append, contentLength]

private theorem Framed.readHead_text (framed : Framed message lines) (rest : Bytes) :
    readHead (message.text ++ rest) =
      some ⟨(status message).code, (wireLines message lines).map readField, message.data ++ rest⟩ := by
  have start : cr ∉ ascii "HTTP/1.1 " ++ (status message).message := by cases status message <;> decide
  have code : ((ascii "HTTP/1.1 " ++ (status message).message).drop 9).take 3 = (status message).code := by
    cases status message <;> rfl
  have free : ∀ line ∈ wireLines message lines, cr ∉ line ∧ line ≠ [] := by
    unfold wireLines
    split
    · exact framed.free
    · exact framed.add (cr_not_mem_length message.dataLen) (by simp [ascii])
  have split : message.text ++ rest = (ascii "HTTP/1.1 " ++ (status message).message) ++
      (crlf ++ (joinLines (wireLines message lines) ++ (crlf ++ (message.data ++ rest)))) := by
    rw [framed.text_eq]
    simp only [List.append_assoc]
  rw [split, readHead_block start free, code]

private theorem Framed.readHead_wire (framed : Framed message lines) (fits : message.text.length + 1 < 2 ^ 64) :
    readHead (wire message) =
      some ⟨(status message).code, (wireLines message lines).map readField, message.data⟩ := by
  have read := framed.readHead_text []
  rw [List.append_nil, List.append_nil] at read
  rw [wire_text framed fits, read]

theorem HttpCode.code_eq_204 {code : HttpCode} : code.code = ascii "204" ↔ code = .noContent := by
  cases code <;> decide

private theorem readField_length (n : Nat) :
    readField (ascii "Content-Length: " ++ decimal n) = ⟨ascii "Content-Length", 32 :: decimal n⟩ := by
  have split : ascii "Content-Length: " ++ decimal n = ascii "Content-Length" ++ (58 :: 32 :: decimal n) := by
    simp [ascii]
  have name : ∀ c ∈ ascii "Content-Length", decide (c ≠ 58) := by decide +kernel
  rw [readField, split, List.takeWhile_append_of_pos name, List.dropWhile_append_of_pos name]
  simp

private theorem readNumber_decimal (n : Nat) : readNumber (32 :: decimal n) = some n := by
  have digits : (decimal n).all isdigit := List.all_eq_true.mpr (isdigit_decimal n)
  have blank : (32 :: decimal n).dropWhile isspace = decimal n := by
    rw [List.dropWhile_cons_of_pos (by decide), dropWhile_isspace_decimal]
  have behind : (decimal n).reverse.dropWhile isspace = (decimal n).reverse := by
    rw [List.dropWhile_eq_self_iff]
    intro nonempty blank
    have digit := isdigit_decimal n _ (List.mem_reverse.mp (List.getElem_mem nonempty))
    simp only [isdigit, isspace] at digit blank
    grind
  simp only [readNumber, blank, behind, List.reverse_reverse, decimal_ne_nil, digits, ne_eq, not_false_eq_true, true_and, if_true, digitsValue_decimal]

private theorem isLength_length (n : Nat) : IsLength (readField (ascii "Content-Length: " ++ decimal n)) := by
  rw [readField_length]
  exact (by decide : strcasecmp (ascii "Content-Length") (ascii "content-length") = .eq)

/-- The Content-Length fields in the header built so far give the length of the data. -/
def TrueLengths (message : OutgoingHttpMessage) : Prop :=
  ∀ field ∈ headerFields message, IsLength field → readNumber field.value = some message.dataLen

/-- A response that is not sent as 204 ends its header with the length of its body, and is
read by it where no other field says something else. -/
private theorem Framed.bodyLength_wire (framed : Framed message lines) (other : status message ≠ .noContent) (rest : Bytes) :
    bodyLength ⟨(status message).code, (wireLines message lines).map readField, rest⟩ =
        some message.dataLen ∧ TrueLengths message ∨
      bodyLength ⟨(status message).code, (wireLines message lines).map readField, rest⟩ = none ∧
        ¬ TrueLengths message := by
  have written : wireLines message lines = lines ++ [ascii "Content-Length: " ++ decimal message.dataLen] := by
    refine if_neg fun empty => other ?_
    rw [status, if_pos empty]
  have kept : ((wireLines message lines).map readField).filter (IsLength ·) =
      (headerFields message).filter (IsLength ·) ++ [readField (ascii "Content-Length: " ++ decimal message.dataLen)] := by
    rw [written, List.map_append, List.filter_append, List.map_singleton, framed.headerFields_eq,
      List.filter_singleton, decide_eq_true (isLength_length _)]
    rfl
  have own : readNumber (readField (ascii "Content-Length: " ++ decimal message.dataLen)).value = some message.dataLen := by
    rw [readField_length, readNumber_decimal]
  have exact : TrueLengths message ↔
      ∀ field ∈ (headerFields message).filter (IsLength ·), readNumber field.value = some message.dataLen := by
    simp only [TrueLengths, List.mem_filter, decide_eq_true_eq, and_imp]
  rw [bodyLength, if_neg (mt HttpCode.code_eq_204.mp other), exact]
  dsimp only
  rw [kept]
  cases (headerFields message).filter (IsLength ·) with
  | nil =>
    refine .inl ⟨?_, by simp⟩
    rw [List.nil_append]
    dsimp only
    rw [if_pos (by simp), own]
  | cons field fields =>
    rw [List.cons_append]
    dsimp only
    by_cases all : ∀ other ∈ field :: fields, readNumber other.value = some message.dataLen
    · refine .inl ⟨?_, all⟩
      have first := all field List.mem_cons_self
      rw [first, if_pos fun other member => ?_]
      rcases List.mem_append.mp member with member | member
      · exact all other (List.mem_cons_of_mem _ member)
      · rw [List.mem_singleton.mp member, own]
    · refine .inr ⟨if_neg fun same => all ?_, all⟩
      have first := same _ (List.mem_append_right fields List.mem_cons_self)
      rw [own] at first
      intro other member
      rcases List.mem_cons.mp member with rfl | member
      · exact first.symm
      · exact (same other (List.mem_append_left _ member)).trans first.symm

/-- The first response is taken off a stream with exactly its body, where its lengths agree. -/
private theorem readResponses_text (framed : Framed message lines) (bare : status message = .noContent → message.data = [])
    (lengths : TrueLengths message) (fuel : Nat) (rest : Bytes) :
    readResponses (fuel + 1) (message.text ++ rest) =
      (readResponses fuel rest).map (((status message).code, message.data) :: ·) := by
  have nonempty : message.text ++ rest ≠ [] := by
    rw [framed.text_eq]
    simp [ascii]
  have size : bodyLength ⟨(status message).code, (wireLines message lines).map readField, message.data ++ rest⟩ =
      some message.data.length := by
    by_cases empty : status message = .noContent
    · rw [bodyLength, if_pos (HttpCode.code_eq_204.mpr empty), bare empty]
      rfl
    · rcases framed.bodyLength_wire empty (message.data ++ rest) with ⟨same, _⟩ | ⟨_, differs⟩
      · rw [same, framed.stored]
      · exact absurd lengths differs
  have room : ¬ (message.data ++ rest).length < message.data.length := by simp
  rw [readResponses, if_neg nonempty, framed.readHead_text]
  dsimp only
  rw [size]
  dsimp only
  rw [if_neg room, List.drop_left, List.take_left]

private theorem readResponses_differing (framed : Framed message lines) (other : status message ≠ .noContent)
    (lengths : ¬ TrueLengths message) (fuel : Nat) (rest : Bytes) : readResponses fuel (message.text ++ rest) = none := by
  cases fuel with
  | zero => rfl
  | succ fuel =>
    have nonempty : message.text ++ rest ≠ [] := by
      rw [framed.text_eq]
      simp [ascii]
    have size : bodyLength ⟨(status message).code, (wireLines message lines).map readField, message.data ++ rest⟩ = none := by
      rcases framed.bodyLength_wire other (message.data ++ rest) with ⟨_, agree⟩ | ⟨none, _⟩
      · exact absurd agree lengths
      · exact none
    rw [readResponses, if_neg nonempty, framed.readHead_text]
    dsimp only
    rw [size]

private theorem empty_of_status (code : message.responseCode ≠ .noContent) :
    status message = .noContent → message.responseCode = .ok ∧ message.dataLen = 0 := by
  intro empty
  by_contra filled
  rw [status, if_neg filled] at empty
  exact code empty

end Reading

private theorem read_texts {messages : List OutgoingHttpMessage}
    (framed : ∀ message ∈ messages, ∃ lines, Framed message lines)
    (bare : ∀ message ∈ messages, status message = .noContent → message.data = [])
    (lengths : ∀ message ∈ messages, TrueLengths message) {fuel : Nat} (enough : messages.length < fuel) :
    readResponses fuel (messages.map text).flatten =
      some (messages.map fun message => ((status message).code, message.data)) := by
  induction messages generalizing fuel with
  | nil =>
    obtain ⟨fuel, rfl⟩ := Nat.exists_eq_add_of_le' enough
    rfl
  | cons message messages ih =>
    obtain ⟨fuel, rfl⟩ := Nat.exists_eq_add_of_le' (Nat.zero_lt_of_lt enough)
    obtain ⟨lines, head⟩ := framed message (by simp)
    have later := ih (fun other member => framed other (by simp [member])) (fun other member => bare other (by simp [member]))
      (fun other member => lengths other (by simp [member])) (Nat.lt_of_succ_lt_succ enough)
    rw [List.map_cons, List.flatten_cons, readResponses_text head (bare message (by simp)) (lengths message (by simp)), later]
    rfl

private theorem lengths_of_read {messages : List OutgoingHttpMessage}
    (framed : ∀ message ∈ messages, ∃ lines, Framed message lines)
    (bare : ∀ message ∈ messages, status message = .noContent → message.data = [] ∧ TrueLengths message) {fuel : Nat}
    (read : (readResponses fuel (messages.map text).flatten).isSome) : ∀ message ∈ messages, TrueLengths message := by
  induction messages generalizing fuel with
  | nil => simp
  | cons message messages ih =>
    obtain ⟨lines, head⟩ := framed message (by simp)
    rw [List.map_cons, List.flatten_cons] at read
    have first : TrueLengths message := by
      by_cases empty : status message = .noContent
      · exact (bare message (by simp) empty).2
      · by_contra differs
        rw [readResponses_differing head empty differs] at read
        cases read
    cases fuel with
    | zero => cases read
    | succ fuel =>
      rw [readResponses_text head (fun empty => (bare message (by simp) empty).1) first, Option.isSome_map] at read
      exact List.forall_mem_cons.mpr ⟨first, ih (fun other member => framed other (by simp [member]))
        (fun other member => bare other (by simp [member])) read⟩

private theorem length_le_texts {messages : List OutgoingHttpMessage}
    (framed : ∀ message ∈ messages, ∃ lines, Framed message lines) :
    messages.length ≤ (messages.map text).flatten.length := by
  induction messages with
  | nil => exact Nat.le_refl _
  | cons message messages ih =>
    obtain ⟨lines, head⟩ := framed message (by simp)
    have later := ih fun other member => framed other (by simp [member])
    have verb : (ascii "HTTP/1.1 ").length = 9 := rfl
    rw [List.map_cons, List.flatten_cons, List.length_append, List.length_cons, head.text_eq, List.length_append,
      List.length_append, verb]
    omega

private theorem wires_eq {messages : List OutgoingHttpMessage} (built : ∀ message ∈ messages, Response message)
    (fits : ∀ message ∈ messages, message.text.length + 1 < 2 ^ 64) : messages.map wire = messages.map text :=
  List.map_congr_left fun message member => by
    obtain ⟨lines, inner⟩ := (built message member).framed
    exact wire_text inner (fits message member)

/-- A 204 without body and Content-Length is an empty response that was given none. -/
private theorem unsized_of_bare {message : OutgoingHttpMessage} (framed : ∃ lines, Framed message lines)
    (fits : message.text.length + 1 < 2 ^ 64)
    (bare : ∀ head, readHead (wire message) = some head → head.status = ascii "204" →
      head.rest = [] ∧ ∀ field ∈ head.fields, ¬ IsLength field) :
    message.responseCode ≠ .noContent ∧
      (message.responseCode = .ok ∧ message.dataLen = 0 → ∀ field ∈ headerFields message, ¬ IsLength field) := by
  obtain ⟨lines, inner⟩ := framed
  have clean := bare _ (inner.readHead_wire fits)
  constructor
  · intro code
    have written : ¬ (message.responseCode = .ok ∧ message.dataLen = 0) := fun empty => by
      rw [code] at empty
      exact absurd empty.1 (by decide)
    have sent : status message = .noContent := by rw [status, if_neg written, code]
    refine (clean (HttpCode.code_eq_204.mpr sent)).2 _ ?_ (isLength_length message.dataLen)
    simp [wireLines, written]
  · intro empty
    have sent : status message = .noContent := by rw [status, if_pos empty]
    have same : wireLines message lines = lines := if_pos empty
    rw [inner.headerFields_eq, ← same]
    exact (clean (HttpCode.code_eq_204.mpr sent)).2

/-- A client reads back what was sent, as long as an empty response is all that is sent as 204
and no field gives another length. -/
theorem read_wires {messages : List OutgoingHttpMessage} (built : ∀ message ∈ messages, Response message)
    (fits : ∀ message ∈ messages, message.text.length + 1 < 2 ^ 64)
    (bare : ∀ message ∈ messages, status message = .noContent → message.data = [])
    (lengths : ∀ message ∈ messages, TrueLengths message) :
    Client.read (messages.map wire).flatten =
      some (messages.map fun message => ((status message).code, message.data)) := by
  have framed : ∀ message ∈ messages, ∃ lines, Framed message lines := fun message member => (built message member).framed
  rw [wires_eq built fits, Client.read]
  exact read_texts framed bare lengths (Nat.lt_succ_of_le (length_le_texts framed))

/-- A stream of responses is read back, and none of them is a 204 with a body or a
Content-Length, exactly when none is built with the code for no content and a
Content-Length field is given only to a response that is not left empty, with the
length of its data. -/
theorem read_responses_iff (messages : List OutgoingHttpMessage) (built : ∀ message ∈ messages, Response message)
    (fits : ∀ message ∈ messages, message.text.length + 1 < 2 ^ 64) :
    (Client.read (messages.map wire).flatten =
        some (messages.map fun message => ((status message).code, message.data)) ∧
      ∀ message ∈ messages, ∀ head, readHead (wire message) = some head → head.status = ascii "204" →
        head.rest = [] ∧ ∀ field ∈ head.fields, ¬ IsLength field) ↔
    ∀ message ∈ messages, message.responseCode ≠ .noContent ∧
      ∀ field ∈ headerFields message, IsLength field →
        ¬ (message.responseCode = .ok ∧ message.dataLen = 0) ∧ readNumber field.value = some message.dataLen := by
  have framed : ∀ message ∈ messages, ∃ lines, Framed message lines := fun message member => (built message member).framed
  constructor
  · intro ⟨parsed, bare⟩
    have clean : ∀ message ∈ messages, message.responseCode ≠ .noContent ∧
        (message.responseCode = .ok ∧ message.dataLen = 0 → ∀ field ∈ headerFields message, ¬ IsLength field) :=
      fun message member => unsized_of_bare (framed message member) (fits message member) (bare message member)
    have lengths : ∀ message ∈ messages, TrueLengths message := by
      rw [wires_eq built fits, Client.read] at parsed
      refine lengths_of_read framed (fun message member sent => ?_) (Option.isSome_of_eq_some parsed)
      obtain ⟨lines, inner⟩ := framed message member
      obtain ⟨code, none⟩ := clean message member
      have empty := empty_of_status code sent
      exact ⟨List.length_eq_zero_iff.mp (inner.stored.trans empty.2),
        fun field inside length => absurd length (none empty field inside)⟩
    intro message member
    obtain ⟨code, none⟩ := clean message member
    exact ⟨code, fun field inside length =>
      ⟨fun empty => none empty field inside length, lengths message member field inside length⟩⟩
  · intro each
    have empty {message} (member : message ∈ messages) :
        status message = .noContent → message.responseCode = .ok ∧ message.dataLen = 0 :=
      empty_of_status (each message member).1
    have bare : ∀ message ∈ messages, status message = .noContent → message.data = [] := by
      intro message member sent
      obtain ⟨lines, inner⟩ := framed message member
      exact List.length_eq_zero_iff.mp (inner.stored.trans (empty member sent).2)
    have lengths : ∀ message ∈ messages, TrueLengths message :=
      fun message member field inside length => ((each message member).2 field inside length).2
    refine ⟨read_wires built fits bare lengths, fun message member found same code => ?_⟩
    obtain ⟨lines, inner⟩ := framed message member
    rw [inner.readHead_wire (fits message member)] at same
    cases same
    have sent := HttpCode.code_eq_204.mp code
    have kept : wireLines message lines = lines := if_pos (empty member sent)
    refine ⟨bare message member sent, ?_⟩
    dsimp only
    rw [kept, ← inner.headerFields_eq]
    exact fun field inside length => ((each message member).2 field inside length).1 (empty member sent)

private theorem factory_plain (factory : Factory) (plain : factory.requestId = []) : Response factory.message :=
  .factory factory (by rw [plain]; exact List.not_mem_nil) (by rw [plain]; exact List.not_mem_nil)

/-- A response that is given the length it has, and one from a factory. -/
theorem read_responses_two :
    let sized := build [.setMethod .response, .addHeader (ascii "Content-Length") (ascii "2"), .setData (ascii "hi")]
    (Client.read ([sized, notFound true].map wire).flatten =
        some ([sized, notFound true].map fun message => ((status message).code, message.data)) ∧
      ∀ message ∈ [sized, notFound true], ∀ head, readHead (wire message) = some head →
        head.status = ascii "204" → head.rest = [] ∧ ∀ field ∈ head.fields, ¬ IsLength field) ↔
    ∀ message ∈ [sized, notFound true], message.responseCode ≠ .noContent ∧
      ∀ field ∈ headerFields message, IsLength field →
        ¬ (message.responseCode = .ok ∧ message.dataLen = 0) ∧ readNumber field.value = some message.dataLen := by
  refine read_responses_iff _ ?_ (by decide +kernel)
  simp only [List.forall_mem_cons, List.not_mem_nil, false_imp_iff, implies_true, and_true]
  refine ⟨.calls fun call member => ?_, factory_plain (.notFound true) rfl⟩
  simp only [List.mem_cons, List.not_mem_nil, or_false] at member
  rcases member with rfl | rfl | rfl
  · exact .method
  · exact .header (by decide) (by decide)
  · exact .data _

/-- The body of `NoContent` is taken for the start of the next response, and not even
the statuses are read back. -/
theorem read_noContent_ok :
    (Client.read ([noContent [] true, ok [] true].map wire).flatten).map (·.map Prod.fst) ≠
      some ([noContent [] true, ok [] true].map fun message => (status message).code) := by
  decide +kernel

end LibWebserver.OutgoingHttpMessage
