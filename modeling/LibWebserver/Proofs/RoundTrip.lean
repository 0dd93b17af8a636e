import LibWebserver.Proofs.Fields
import LibWebserver.Proofs.Serialize

/-! Serializing a message and parsing the text gives the message back. -/

namespace LibWebserver.OutgoingHttpMessage
open CStr IncomingHttpMessage

/-- The calls that build a message. -/
inductive Call where
  | setMethod (method : HttpMethod)
  | setResponseCode (code : HttpCode)
  | setPersistence (isPersistent : Bool)
  | addHeader (key value : Bytes)
  | setData (data : Bytes)
  deriving DecidableEq, Repr

namespace Call

def apply (message : OutgoingHttpMessage) : Call → OutgoingHttpMessage
  | setMethod method => message.setMethod method
  | setResponseCode code => message.setResponseCode code
  | setPersistence isPersistent => message.setPersistence isPersistent
  | addHeader key value => message.addHeader key value
  | setData data => message.setData data data.length

def persistence : Call → Option Bool
  | setPersistence isPersistent => some isPersistent
  | _ => none

def data : Call → Option Bytes
  | setData data => some data
  | _ => none

/-- The field a call adds to the header. -/
def field : Call → Option HttpPair
  | setPersistence isPersistent => some ⟨ascii "Connection", ascii (if isPersistent then "keep-alive" else "close")⟩
  | addHeader key value => some ⟨key, value⟩
  | _ => none

/-- A field the parser stores as it was added, and takes nothing from. -/
structure Field (pair : HttpPair) : Prop where
  name : Name pair.key
  notConnection : strcasecmp pair.key (ascii "connection") ≠ .eq
  notLength : strcasecmp pair.key (ascii "content-length") ≠ .eq
  value : pair.value ≠ []
  line : Free crlf pair.value

inductive Valid : Call → Prop where
  | method (method : HttpMethod) : Valid (setMethod method)
  | code : Valid (setResponseCode .ok)
  | persistence (isPersistent : Bool) : Valid (setPersistence isPersistent)
  | header {key value : Bytes} (field : Field ⟨key, value⟩) : Valid (addHeader key value)
  | data (data : Bytes) : Valid (setData data)

end Call

open Call

def build (calls : List Call) : OutgoingHttpMessage := calls.foldl apply {}

/-- The data a message of each method can carry. -/
def Carries (method : HttpMethod) (data : Bytes) : Prop :=
  match method with
  | .response => data ≠ []
  | .post => True
  | .get => 0 ∉ data ∧ cr ∉ data ∧ lf ∉ data ∧ 63 ∉ data ∧ ¬ ascii " HTTP/1." <:+: data

private theorem apply_header {call : Call} (valid : call.Valid) (message : OutgoingHttpMessage) :
    (call.apply message).header = message.header ++ joinLines (call.field.toList.map fieldLine) := by
  cases valid with
  | method _ | code | data _ => exact (List.append_nil _).symm
  | persistence isPersistent => cases isPersistent <;> rfl
  | header field =>
    simp [apply, addHeader, Call.field, fieldLine, cstr_of_not_mem field.name.nul, cstr_of_not_mem field.line.nul]

private theorem filterMap_cons (f : Call → Option α) (call : Call) (calls : List Call) :
    (call :: calls).filterMap f = (f call).toList ++ calls.filterMap f := by
  cases found : f call <;> simp [found]

private theorem foldl_header {calls : List Call} (valid : ∀ call ∈ calls, call.Valid) (message : OutgoingHttpMessage) :
    (calls.foldl apply message).header = message.header ++ joinLines ((calls.filterMap field).map fieldLine) := by
  induction calls generalizing message with
  | nil => exact (List.append_nil _).symm
  | cons call calls ih =>
    rw [List.foldl_cons, ih (fun other member => valid other (by simp [member])), apply_header (valid call (by simp)),
      filterMap_cons, List.map_append, joinLines_append, List.append_assoc]

private theorem build_data (calls : List Call) : (build calls).data = (calls.filterMap Call.data).getLast?.getD [] :=
  foldl_last OutgoingHttpMessage.data
    (fun _ call _ => by cases call <;> simp [apply, Call.data, setData, setMethod, setResponseCode, setPersistence, addHeader]) {}

private theorem build_stored (calls : List Call) : (build calls).data.length = (build calls).dataLen := by
  suffices general : ∀ message : OutgoingHttpMessage, message.data.length = message.dataLen →
      (calls.foldl apply message).data.length = (calls.foldl apply message).dataLen from general {} rfl
  induction calls with
  | nil => exact fun _ stored => stored
  | cons call calls ih =>
    intro message stored
    apply ih
    cases call with
    | setData data => simp [apply, setData]
    | _ => exact stored

private theorem build_uri (calls : List Call) : (build calls).uri = [] := by
  suffices general : ∀ message : OutgoingHttpMessage, (calls.foldl apply message).uri = message.uri from general {}
  induction calls with
  | nil => exact fun _ => rfl
  | cons call calls ih =>
    intro message
    rw [List.foldl_cons, ih]
    cases call <;> rfl

private theorem build_responseCode {calls : List Call} (valid : ∀ call ∈ calls, call.Valid) :
    (build calls).responseCode = .ok := by
  suffices general : ∀ message : OutgoingHttpMessage, message.responseCode = .ok →
      (calls.foldl apply message).responseCode = .ok from general {} rfl
  induction calls with
  | nil => exact fun _ same => same
  | cons call calls ih =>
    intro message same
    apply ih (fun other member => valid other (by simp [member]))
    cases valid call (by simp) with
    | code => rfl
    | _ => exact same

private theorem field_valid {calls : List Call} (valid : ∀ call ∈ calls, call.Valid) :
    ∀ pair ∈ calls.filterMap field, Name pair.key ∧ Free crlf pair.value ∧ pair.value ≠ [] ∧
      strcasecmp pair.key (ascii "content-length") ≠ .eq := by
  intro pair member
  obtain ⟨call, inside, same⟩ := List.mem_filterMap.mp member
  cases valid call inside with
  | method _ | code | data _ => cases same
  | persistence isPersistent =>
    cases same
    cases isPersistent <;> exact ⟨⟨by decide, by decide, by decide, by decide⟩, ⟨by decide, by decide⟩, by decide, by decide⟩
  | header field => cases same; exact ⟨field.name, field.line, field.value, field.notLength⟩

private theorem pushFields_persistence {calls : List Call} (valid : ∀ call ∈ calls, call.Valid) :
    (pushFields {} (calls.filterMap field)).isPersistent = (calls.filterMap persistence).getLast?.getD false := by
  rw [pushFields, List.foldl_filterMap]
  apply foldl_last IncomingHttpMessage.isPersistent
  intro self call member
  cases valid call member with
  | method _ | code | data _ => rfl
  | persistence isPersistent => cases isPersistent <;> rfl
  | header field => exact pushHeader_isPersistent field.notConnection

/-- The field the serializer adds itself. -/
def sizeField (data : Bytes) : HttpPair := ⟨ascii "Content-Length", decimal data.length⟩

private theorem sizeField_valid (data : Bytes) : Name (sizeField data).key ∧ Free crlf (sizeField data).value := by
  have digits := isdigit_decimal data.length
  have name : Name (ascii "Content-Length") := ⟨by decide, by decide, by decide, by decide⟩
  refine ⟨name, ⟨fun nul => ?_, fun found => ?_⟩⟩
  · exact absurd (digits 0 nul) (by decide)
  · exact absurd (digits cr (found.subset (by simp))) (by decide)

private theorem contentLength_eq (data : Bytes) : contentLength data.length = joinLines [fieldLine (sizeField data)] := by
  simp [contentLength, fieldLine, sizeField, ascii]

private theorem pushHeader_sizeField {data : Bytes} (fits : data.length < 2 ^ 64) (self : IncomingHttpMessage) :
    self.pushHeader (sizeField data) =
      { self with headers := self.headers ++ [sizeField data], length := data.length } := by
  have printed : (sizeField data).value ≠ [] := decimal_ne_nil data.length
  have key : strcasecmp (sizeField data).key (ascii "content-length") = .eq :=
    (by decide : strcasecmp (ascii "Content-Length") (ascii "content-length") = .eq)
  have value : strtoul (sizeField data).value = data.length := strtoul_decimal (by unfold ULONG_MAX; omega)
  rw [pushHeader, if_neg printed]
  dsimp only
  rw [if_pos key, value]

/-- What is parsed from a text laid out as first line, fields and body. -/
private theorem deserialize_fields {text : Bytes} (layout : Layout text) {fields : List HttpPair}
    (lines : layout.lines = fields.map fieldLine) (valid : ∀ pair ∈ fields, Name pair.key ∧ Free crlf pair.value)
    (ends : (pushFields {} fields).length = layout.body.length) (fits : text.length < 2 ^ 64) :
    deserialize text = some (.complete { pushFields {} fields with
      method := layout.method, uri := layout.uri, queries := queriesOf layout.method layout.uri layout.body }
      text.length) := by
  have parsed : pushLines {} layout.lines = pushFields {} fields := by rw [lines, pushLines_fields valid]
  have length : layout.contentLength = layout.body.length := by rw [Layout.contentLength, parsed, ends]
  have eof : layout.eof = text.length := by
    rw [Layout.eof, length, addSize, ← layout.length_eq, Nat.mod_eq_of_lt fits]
  rw [deserialize_layout layout, if_pos (.inr (Nat.le_of_eq eof)), eof, Layout.message, parsed]

/-- The fields a text carries: those added, and the size of the body. -/
def textFields (method : HttpMethod) (fields : List HttpPair) (data : Bytes) : List HttpPair :=
  match method with
  | .get => fields
  | .post | .response => fields ++ [sizeField data]

/-- Where the data of a message is found in its text. -/
private def textUri (method : HttpMethod) (data : Bytes) : Bytes := if method = .get then ascii "?" ++ data else []
private def textBody (method : HttpMethod) (data : Bytes) : Bytes := if method = .get then [] else data

theorem fieldLines_valid {fields : List HttpPair} (valid : ∀ pair ∈ fields, Name pair.key ∧ Free crlf pair.value) :
    ∀ line ∈ fields.map fieldLine, FieldLine line := by
  intro line member
  obtain ⟨pair, inside, rfl⟩ := List.mem_map.mp member
  obtain ⟨name, value⟩ := valid pair inside
  exact .key (keyLine_field name value)

private theorem getLine_free {data : Bytes} (nul : 0 ∉ data) (start : cr ∉ data) :
    Free crlf (ascii "GET ?" ++ data ++ ascii " HTTP/1.1") := by
  apply Free.of_head
  · simp only [List.mem_append, not_or]
    exact ⟨⟨by decide, nul⟩, by decide⟩
  · simp only [List.mem_append, not_or]
    exact ⟨⟨by decide, start⟩, by decide⟩

private theorem getUri_free {data : Bytes} (nul : 0 ∉ data) (marker : ¬ ascii " HTTP/1." <:+: data) :
    Free (ascii " HTTP/1.") (ascii "?" ++ data) := by
  constructor
  · rw [List.mem_append, not_or]
    exact ⟨by decide, nul⟩
  · intro found
    rcases List.infix_cons_iff.mp found with starts | later
    · exact absurd (List.cons_prefix_cons.mp starts).1 (by decide)
    · exact marker later

/-- A layout of a text with the parts the message was built from. -/
private def LaidOut (message : OutgoingHttpMessage) (fields : List HttpPair) : Prop :=
  ∃ layout : Layout message.text, layout.method = message.method ∧
    layout.lines = (textFields message.method fields message.data).map fieldLine ∧
    layout.uri = textUri message.method message.data ∧ layout.body = textBody message.method message.data

section
variable {message : OutgoingHttpMessage} {fields : List HttpPair}

private theorem get_laidOut (kind : message.method = .get) (nonempty : fields ≠ [])
    (valid : ∀ pair ∈ fields, Name pair.key ∧ Free crlf pair.value)
    (header : message.header = joinLines (fields.map fieldLine)) (uri : message.uri = [])
    (carries : Carries .get message.data) : LaidOut message fields := by
  obtain ⟨nul, start, _, _, marker⟩ := carries
  unfold LaidOut
  rw [kind]
  exact ⟨{
    first := ascii "GET ?" ++ message.data ++ ascii " HTTP/1.1"
    method := .get
    uri := ascii "?" ++ message.data
    lines := fields.map fieldLine
    body := []
    split := by
      have verb : ascii "GET ?" = ascii "GET " ++ ascii "?" := rfl
      have protocol : ascii " HTTP/1.1\r\n" = ascii " HTTP/1.1" ++ crlf := rfl
      simp only [text, kind, uri, header, protocol, verb, List.append_assoc, List.append_nil]
    free := getLine_free nul start
    start := by
      have version : ascii " HTTP/1.1\r\n" = ascii " HTTP/1." ++ ascii "1\r\n" := rfl
      refine .get (getUri_free nul marker) (ascii "1\r\n" ++ message.header ++ crlf) ?_
      simp only [text, kind, uri, version, List.append_assoc, List.nil_append]
    nonempty := by simpa using nonempty
    valid := fieldLines_valid valid }, rfl, rfl, rfl, rfl⟩

private theorem sizedLines_valid (valid : ∀ pair ∈ fields, Name pair.key ∧ Free crlf pair.value) (data : Bytes) :
    ∀ line ∈ (fields ++ [sizeField data]).map fieldLine, FieldLine line := by
  apply fieldLines_valid
  intro pair member
  rcases List.mem_append.mp member with member | member
  · exact valid pair member
  · rw [List.mem_singleton.mp member]
    exact sizeField_valid data

private theorem header_block (header : message.header = joinLines (fields.map fieldLine))
    (stored : message.data.length = message.dataLen) :
    message.header ++ contentLength message.dataLen = joinLines ((fields ++ [sizeField message.data]).map fieldLine) := by
  rw [header, ← stored, contentLength_eq, List.map_append, joinLines_append, List.map_singleton]

private theorem post_laidOut (kind : message.method = .post)
    (valid : ∀ pair ∈ fields, Name pair.key ∧ Free crlf pair.value)
    (header : message.header = joinLines (fields.map fieldLine)) (uri : message.uri = [])
    (stored : message.data.length = message.dataLen) : LaidOut message fields := by
  have block := header_block header stored
  unfold LaidOut
  rw [kind]
  exact ⟨{
    first := ascii "POST  HTTP/1.1"
    method := .post
    uri := []
    lines := (fields ++ [sizeField message.data]).map fieldLine
    body := message.data
    split := by
      have verb : ascii "POST  HTTP/1.1" = ascii "POST " ++ ascii " HTTP/1.1" := rfl
      have protocol : ascii " HTTP/1.1\r\n" = ascii " HTTP/1.1" ++ crlf := rfl
      simp only [text, kind, uri, ← block, protocol, verb, List.append_assoc, List.nil_append]
    free := ⟨by decide, by decide⟩
    start := by
      have version : ascii " HTTP/1.1\r\n" = ascii " HTTP/1." ++ ascii "1\r\n" := rfl
      refine .post ⟨by decide, by decide⟩
        (ascii "1\r\n" ++ message.header ++ contentLength message.dataLen ++ crlf ++ message.data) ?_
      simp only [text, kind, uri, version, List.append_assoc, List.nil_append]
    nonempty := by simp
    valid := sizedLines_valid valid message.data }, rfl, rfl, rfl, rfl⟩

private theorem response_laidOut (kind : message.method = .response)
    (valid : ∀ pair ∈ fields, Name pair.key ∧ Free crlf pair.value)
    (header : message.header = joinLines (fields.map fieldLine)) (stored : message.data.length = message.dataLen)
    (code : message.responseCode = .ok) (carries : Carries .response message.data) : LaidOut message fields := by
  have block := header_block header stored
  have filled : message.dataLen ≠ 0 := fun empty => carries (List.length_eq_zero_iff.mp (stored.trans empty))
  unfold LaidOut
  rw [kind]
  exact ⟨{
    first := ascii "HTTP/1.1 200 OK"
    method := .response
    uri := []
    lines := (fields ++ [sizeField message.data]).map fieldLine
    body := message.data
    split := by
      have status : ascii "HTTP/1.1 200 OK" = ascii "HTTP/1.1 " ++ HttpCode.ok.message := rfl
      simp only [text, kind, filled, and_false, if_false, code, ← block, status, List.append_assoc]
    free := ⟨by decide, by decide⟩
    start := by
      refine .response (.inl ⟨ascii " OK" ++ crlf ++ message.header ++ contentLength message.dataLen ++ crlf ++
        message.data, ?_⟩)
      have status : ascii "HTTP/1.1 200" ++ ascii " OK" = ascii "HTTP/1.1 " ++ HttpCode.ok.message := rfl
      simp only [text, kind, filled, and_false, if_false, code, ← List.append_assoc, status]
    nonempty := by simp
    valid := sizedLines_valid valid message.data }, rfl, rfl, rfl, rfl⟩

private theorem text_layout (nonempty : fields ≠ [])
    (valid : ∀ pair ∈ fields, Name pair.key ∧ Free crlf pair.value)
    (header : message.header = joinLines (fields.map fieldLine)) (uri : message.uri = [])
    (stored : message.data.length = message.dataLen) (code : message.responseCode = .ok)
    (carries : Carries message.method message.data) : LaidOut message fields := by
  cases kind : message.method with
  | get => exact get_laidOut kind nonempty valid header uri (kind ▸ carries)
  | post => exact post_laidOut kind valid header uri stored
  | response => exact response_laidOut kind valid header stored code (kind ▸ carries)

end

private theorem textFields_parsed {method : HttpMethod} {fields : List HttpPair} {data : Bytes}
    (plain : (pushFields {} fields).length = 0) (fits : data.length < 2 ^ 64) :
    (pushFields {} (textFields method fields data)).length = (textBody method data).length ∧
      (pushFields {} (textFields method fields data)).isPersistent = (pushFields {} fields).isPersistent := by
  cases method with
  | get => exact ⟨plain, rfl⟩
  | post | response =>
    simp only [textFields, pushFields_append]
    rw [pushFields, List.foldl_cons, List.foldl_nil, pushHeader_sizeField fits]
    exact ⟨rfl, rfl⟩

private theorem textFields_valid {method : HttpMethod} {fields : List HttpPair} {data : Bytes}
    (valid : ∀ pair ∈ fields, (Name pair.key ∧ Free crlf pair.value) ∧ pair.value ≠ []) :
    ∀ pair ∈ textFields method fields data, (Name pair.key ∧ Free crlf pair.value) ∧ pair.value ≠ [] := by
  cases method with
  | get => exact valid
  | post | response =>
    intro pair member
    rcases List.mem_append.mp member with member | member
    · exact valid pair member
    · obtain rfl := List.mem_singleton.mp member
      exact ⟨sizeField_valid data, decimal_ne_nil data.length⟩

private theorem queriesOf_join (method : HttpMethod) {pairs : List HttpPair} (valid : ∀ pair ∈ pairs, Parameter pair) :
    queriesOf method (textUri method (joinParameters pairs)) (textBody method (joinParameters pairs)) = pairs := by
  cases method with
  | get =>
    have separators : ∀ c ∈ ascii "?", isSeparator c := by decide +kernel
    have found : strstr (ascii "?") (ascii "?" ++ joinParameters pairs) = some 0 := by
      cases joinParameters pairs <;> rfl
    simp only [queriesOf, textUri, if_true, found, List.drop_zero]
    exact parseQueries_join separators valid
  | post | response =>
    have none : ∀ c ∈ ([] : Bytes), isSeparator c := List.forall_mem_nil _
    exact parseQueries_join none valid

private theorem data_le_text (self : OutgoingHttpMessage) : self.data.length ≤ self.text.length := by
  unfold text
  repeat' split
  all_goals simp only [List.length_append]; omega

/-- What a message built by any sequence of calls serializes to is parsed back to
its method, fields, persistence and parameters. -/
theorem deserialize_serialize (calls : List Call) (isPersistent : Bool) (data : Bytes)
    (valid : ∀ call ∈ calls, call.Valid) (once : calls.filterMap persistence = [isPersistent])
    (sent : calls.filterMap Call.data = [data]) (carries : Carries (build calls).method data)
    (fits : (build calls).text.length + 1 < 2 ^ 64) :
    let out := (build calls).serialize
    (out.message.length = out.len ∧ out.message = out.message.take out.getLength ++ [0] ∧
      (out.message.take out.getLength).length = out.getLength) ∧
    ∃ message, deserialize (out.message.take out.getLength) = some (.complete message out.getLength) ∧
      message.method = (build calls).method ∧
      message.headers = textFields (build calls).method (calls.filterMap field) data ∧
      message.isPersistent = isPersistent ∧
      ∀ pairs, (∀ pair ∈ pairs, Parameter pair) → data = joinParameters pairs → message.queries = pairs := by
  have kept : (build calls).data = data := by rw [build_data, sent]; rfl
  have fields := field_valid valid
  have named : ∀ pair ∈ calls.filterMap field, Name pair.key ∧ Free crlf pair.value :=
    fun pair member => ⟨(fields pair member).1, (fields pair member).2.1⟩
  have nonempty : calls.filterMap field ≠ [] := by
    have member : isPersistent ∈ calls.filterMap persistence := by simp [once]
    obtain ⟨call, inside, same⟩ := List.mem_filterMap.mp member
    cases call with
    | setPersistence set => exact List.ne_nil_of_mem (List.mem_filterMap.mpr ⟨_, inside, rfl⟩)
    | _ => cases same
  have header : (build calls).header = joinLines ((calls.filterMap field).map fieldLine) := by
    rw [build, foldl_header valid]
    rfl
  have small : data.length < 2 ^ 64 := by
    have inside := data_le_text (build calls)
    rw [kept] at inside
    omega
  obtain ⟨written, counted⟩ := serialize_text (build_stored calls) fits
  have long := getLength_text (build_stored calls) fits
  have taken : (build calls).serialize.message.take (build calls).serialize.getLength = (build calls).text := by
    rw [written, long, List.take_left]
  obtain ⟨layout, method, lines, uri, body⟩ := text_layout nonempty named header (build_uri calls) (build_stored calls)
    (build_responseCode valid) (kept.symm ▸ carries)
  rw [kept] at lines uri body
  have plain : (pushFields {} (calls.filterMap field)).length = 0 :=
    pushFields_length fun pair member => (fields pair member).2.2.2
  obtain ⟨length, persistent⟩ := @textFields_parsed (build calls).method _ _ plain small
  have all := @textFields_valid (build calls).method _ data fun pair member =>
    ⟨named pair member, (fields pair member).2.2.1⟩
  have parsed := deserialize_fields layout lines (fun pair member => (all pair member).1) (by rw [length, body]) (by omega)
  refine ⟨⟨by rw [written, counted]; simp, by rw [taken, written], by rw [taken, long]⟩, ?_⟩
  rw [taken, long, parsed]
  refine ⟨_, rfl, method, pushFields_headers fun pair member => (all pair member).2, ?_, ?_⟩
  · change (pushFields {} (textFields (build calls).method (calls.filterMap field) data)).isPersistent = isPersistent
    rw [persistent, pushFields_persistence valid, once]
    rfl
  · rintro pairs valid rfl
    change queriesOf layout.method layout.uri layout.body = pairs
    rw [method, uri, body]
    exact queriesOf_join _ valid

def sampleCalls : List Call :=
  [.setMethod .post, .setPersistence true, .addHeader (ascii "Host") (ascii "a"), .setData (ascii "a=b&c=d")]

theorem deserialize_serialize_post :
    let out := (build sampleCalls).serialize
    (out.message.length = out.len ∧ out.message = out.message.take out.getLength ++ [0] ∧
      (out.message.take out.getLength).length = out.getLength) ∧
    ∃ message, deserialize (out.message.take out.getLength) = some (.complete message out.getLength) ∧
      message.method = (build sampleCalls).method ∧
      message.headers = textFields (build sampleCalls).method (sampleCalls.filterMap field) (ascii "a=b&c=d") ∧
      message.isPersistent = true ∧
      ∀ pairs, (∀ pair ∈ pairs, Parameter pair) → ascii "a=b&c=d" = joinParameters pairs → message.queries = pairs := by
  have host : Field ⟨ascii "Host", ascii "a"⟩ :=
    ⟨.of_colon (by decide) (by decide) (by decide) (by decide), by decide, by decide, by decide,
      .of_head (by decide) (by decide)⟩
  have valid : ∀ call ∈ sampleCalls, call.Valid := by
    simp only [sampleCalls, List.forall_mem_cons, List.not_mem_nil, false_imp_iff, implies_true, and_true]
    exact ⟨.method .post, .persistence true, .header host, .data _⟩
  exact deserialize_serialize sampleCalls true (ascii "a=b&c=d") valid rfl rfl trivial (by decide +kernel)

end LibWebserver.OutgoingHttpMessage
