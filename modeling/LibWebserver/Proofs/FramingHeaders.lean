import LibWebserver.Grammar
import LibWebserver.Proofs.HeaderView
import LibWebserver.Proofs.RoundTrip

/-! The framing headers of a message that is set up and serialized any number of
times. Every call only adds to the header, so that the text shows a Connection and a
Content-Length for each call that wrote one. -/

namespace LibWebserver.Grammar
open CStr IncomingHttpMessage

theorem cut_ne_nil (s : Bytes) : cut s ≠ [] := by
  fun_induction cut s with
  | case1 => exact List.cons_ne_nil _ _
  | case2 s ih => exact List.cons_ne_nil _ _
  | case3 c s line ih => rwa [Ne, List.modifyHead_eq_nil_iff]

theorem joinLines_cut (s : Bytes) : joinLines (cut s) = s ++ crlf := by
  fun_induction cut s with
  | case1 => rfl
  | case2 s ih => rw [joinLines_cons, ih]; rfl
  | case3 c s line ih =>
    obtain ⟨piece, pieces, same⟩ := List.exists_cons_of_ne_nil (cut_ne_nil s)
    rw [same, joinLines_cons] at ih
    rw [same, List.modifyHead_cons, joinLines_cons, List.cons_append, ih, List.cons_append]

theorem cut_whole (s : Bytes) : ∀ piece ∈ cut s, ¬ crlf <:+: piece := by
  fun_induction cut s with
  | case1 =>
    intro piece member
    rw [List.mem_singleton.mp member]
    decide
  | case2 s ih =>
    intro piece member
    rcases List.mem_cons.mp member with rfl | member
    · decide
    · exact ih piece member
  | case3 c s line ih =>
    obtain ⟨piece, pieces, same⟩ := List.exists_cons_of_ne_nil (cut_ne_nil s)
    have joined := joinLines_cut s
    rw [same, joinLines_cons] at joined
    rw [same] at ih
    rw [same, List.modifyHead_cons]
    intro other member
    rcases List.mem_cons.mp member with rfl | member
    · intro found
      rcases List.infix_cons_iff.mp found with starts | later
      · obtain ⟨rfl, feed⟩ := List.cons_prefix_cons.mp starts
        obtain ⟨rest, rfl⟩ := feed
        cases s with
        | nil =>
          have differs : (10 : UInt8) = 13 := congrArg peek joined
          exact absurd differs (by decide)
        | cons d s =>
          obtain rfl : 10 = d := congrArg peek joined
          exact line s rfl rfl
      · exact ih piece List.mem_cons_self later
    · exact ih other (List.mem_cons_of_mem _ member)

theorem cut_append {line : Bytes} (start : cr ∉ line) (s : Bytes) : cut (line ++ s) = (cut s).modifyHead (line ++ ·) := by
  induction line with
  | nil => exact (congrFun List.modifyHead_id (cut s)).symm
  | cons c line ih =>
    simp only [List.mem_cons, not_or] at start
    have piece : cut (c :: (line ++ s)) = (cut (line ++ s)).modifyHead (c :: ·) := by
      rw [cut.eq_3]
      rintro rest rfl
      exact absurd rfl start.1
    rw [List.cons_append, piece, ih start.2, List.modifyHead_modifyHead]
    rfl

theorem cut_line {line : Bytes} (start : cr ∉ line) : cut line = [line] := by
  have whole := cut_append start []
  rw [List.append_nil] at whole
  rw [whole]
  simp [cut]

/-- Of lines up to a blank one, those in front of the first that is blank are read. -/
theorem lines_join {lines : List Bytes} (whole : ∀ line ∈ lines, ¬ crlf <:+: line) (rest : Bytes) :
    Grammar.lines (joinLines lines ++ (crlf ++ rest)) = lines.takeWhile (· ≠ []) := by
  have enough : lines.length < (joinLines lines ++ (crlf ++ rest)).length + 1 := by
    have short := Client.length_joinLines lines
    rw [List.length_append]
    omega
  rw [Grammar.lines, Client.readLines_takeWhile whole enough]
  rfl

theorem messageHeaders_join {first : Bytes} {lines : List Bytes} (whole : ∀ line ∈ first :: lines, ¬ crlf <:+: line)
    (rest : Bytes) : messageHeaders (joinLines (first :: lines) ++ (crlf ++ rest)) =
      (lines.takeWhile (· ≠ [])).filterMap header := by
  rw [messageHeaders, joinLines_cons, List.append_assoc, List.append_assoc, Client.readLine_line (whole first (by simp)),
    Option.map_some, Option.getD_some, headers, lines_join fun line member => whole line (by simp [member])]

end LibWebserver.Grammar

namespace LibWebserver.OutgoingHttpMessage
open CStr IncomingHttpMessage Grammar

/-- A call on a message that may be sent any number of times. -/
inductive Act where
  | set (call : Call)
  | serialize
  deriving DecidableEq, Repr

/-- What the calls have set. A response that is sent empty is not OK any more. -/
structure Settings where
  isPersistent : Bool := false
  method : HttpMethod := .response
  code : HttpCode := .ok
  data : Bytes := []
  deriving DecidableEq, Repr

namespace Settings

/-- What a message is set to. -/
def of (message : OutgoingHttpMessage) : Settings where
  isPersistent := message.isPersistent
  method := message.method
  code := message.responseCode
  data := message.data

/-- A response that is OK and has no data. -/
def Bare (self : Settings) : Prop := self.method = .response ∧ self.code = .ok ∧ self.data = []

instance (settings : Settings) : Decidable settings.Bare := by unfold Bare; infer_instance

def next (self : Settings) : Act → Settings
  | .set (.setPersistence isPersistent) => { self with isPersistent }
  | .set (.setMethod method) => { self with method }
  | .set (.setResponseCode code) => { self with code }
  | .set (.setData data) => { self with data }
  | .set (.addHeader _ _) => self
  | .serialize => if self.Bare then { self with code := .noContent } else self

end Settings

def settings (acts : List Act) : Settings := acts.foldl Settings.next {}

def persistenceValue (isPersistent : Bool) : Bytes := ascii (if isPersistent then "keep-alive" else "close")

/-- A line of the head: one the class writes itself, or any other. -/
inductive Line where
  | persistence (isPersistent : Bool)
  | length (dataLen : Nat)
  | text (line : Bytes)
  deriving DecidableEq, Repr

namespace Line

def bytes : Line → Bytes
  | persistence isPersistent => ascii "Connection: " ++ persistenceValue isPersistent
  | length dataLen => ascii "Content-Length: " ++ decimal dataLen
  | text line => line

/-- The value a line gives the header of a name. -/
def value (name : Bytes) (line : Line) : Option Bytes :=
  ((Grammar.header line.bytes).filter (strcasecmp ·.key name = .eq)).map (·.value)

/-- The persistence that a line of `SetPersistence` declares. -/
def asked : Line → Option Bool
  | persistence isPersistent => some isPersistent
  | _ => none

/-- The length that a line of `Serialize` declares. -/
def written : Line → Option Nat
  | length dataLen => some dataLen
  | _ => none

/-- The value that a line brought in by a text gives the header of a name. -/
def told (name : Bytes) : Line → Option Bytes
  | text line => value name (text line)
  | _ => none

end Line

def Act.apply (message : OutgoingHttpMessage) : Act → OutgoingHttpMessage
  | set call => call.apply message
  | serialize => message.serialize

/-- The message after calls, from the one the constructor builds. -/
def after (acts : List Act) : OutgoingHttpMessage := acts.foldl Act.apply {}

/-- The lines a call adds to the header: the text of a header is cut at the line ends
in it, and `Serialize` adds no length to a GET and to an empty answer. -/
def Act.lines (settings : Settings) : Act → List Line
  | set (.setPersistence isPersistent) => [.persistence isPersistent]
  | set (.addHeader key value) => (cut (cstr key ++ ascii ": " ++ cstr value)).map .text
  | set (.setMethod _) | set (.setResponseCode _) | set (.setData _) => []
  | serialize => if settings.method = .get ∨ settings.Bare then [] else [.length settings.data.length]

/-- The lines calls add, in order. -/
def added (settings : Settings) : List Act → List Line
  | [] => []
  | act :: acts => act.lines settings ++ added (settings.next act) acts

/-- The lines that the line ends in the data of a GET bring in. -/
def Settings.query (self : Settings) : List Line :=
  if self.method = .get then ((cut (self.data ++ ascii " HTTP/1.1")).tail).map .text else []

/-- The lines of the head behind the first one that a reader comes to, up to the first
blank one. -/
def shown (acts : List Act) : List Line :=
  ((settings acts).query ++ added {} acts).takeWhile (·.bytes ≠ [])

/-- A message holds what the calls have set. -/
structure Holds (message : OutgoingHttpMessage) (settings : Settings) : Prop where
  isPersistent : message.isPersistent = settings.isPersistent
  method : message.method = settings.method
  code : message.responseCode = settings.code
  data : message.data = settings.data
  dataLen : message.dataLen = settings.data.length
  uri : message.uri = []

section Holds

variable {message : OutgoingHttpMessage} {settings : Settings}

theorem Holds.bare (holds : Holds message settings) (response : message.method = .response) :
    (message.responseCode = .ok ∧ message.dataLen = 0) ↔ settings.Bare := by
  unfold Settings.Bare
  rw [← holds.method, ← holds.code, holds.dataLen, List.length_eq_zero_iff]
  exact ⟨fun both => ⟨response, both⟩, And.right⟩

theorem Holds.apply (holds : Holds message settings) (act : Act) : Holds (act.apply message) (settings.next act) := by
  obtain ⟨isPersistent, method, code, data, dataLen, uri⟩ := holds
  cases act with
  | set call =>
    cases call with
    | setData bytes => exact ⟨isPersistent, method, code, List.take_length, rfl, uri⟩
    | setMethod | setResponseCode | setPersistence | addHeader => constructor <;> first | assumption | rfl
  | serialize =>
    cases kind : message.method with
    | get | post =>
      have full : ¬ settings.Bare := fun bare => by
        have response := bare.1
        rw [← method, kind] at response
        cases response
      rw [Settings.next, if_neg full]
      constructor <;> simp only [Act.apply, serialize, kind, write] <;> first | assumption | exact kind ▸ method
    | response =>
      have bare := Holds.bare ⟨isPersistent, method, code, data, dataLen, uri⟩ kind
      by_cases empty : settings.Bare
      · rw [Settings.next, if_pos empty]
        constructor <;> simp only [Act.apply, serialize, kind, write, if_pos (bare.mpr empty)] <;>
          first | assumption | exact kind ▸ method
      · rw [Settings.next, if_neg empty]
        constructor <;> simp only [Act.apply, serialize, kind, write, if_neg (mt bare.mp empty)] <;>
          first | assumption | exact kind ▸ method

theorem Holds.header (holds : Holds message settings) (act : Act) :
    (act.apply message).header = message.header ++ joinLines ((act.lines settings).map Line.bytes) := by
  cases act with
  | set call =>
    cases call with
    | setMethod _ | setResponseCode _ | setData _ => exact (List.append_nil _).symm
    | setPersistence isPersistent => cases isPersistent <;> rfl
    | addHeader key value =>
      have same : (cut (cstr key ++ ascii ": " ++ cstr value)).map (Line.bytes ∘ Line.text) =
          cut (cstr key ++ ascii ": " ++ cstr value) := List.map_id _
      simp only [Act.apply, Call.apply, addHeader, Act.lines, List.map_map, same, joinLines_cut]
      simp
  | serialize =>
    have method := holds.method
    cases kind : message.method with
    | get =>
      rw [Act.lines, if_pos (.inl (method.symm.trans kind))]
      simp [Act.apply, serialize, kind, write]
    | post =>
      have full : ¬ (settings.method = .get ∨ settings.Bare) := by
        rintro (get | bare)
        · rw [← method, kind] at get
          cases get
        · have response := bare.1
          rw [← method, kind] at response
          cases response
      rw [Act.lines, if_neg full, ← holds.dataLen]
      simp [Act.apply, serialize, kind, write, Line.bytes, contentLength]
    | response =>
      have other : settings.method ≠ .get := by rw [← method, kind]; decide
      have bare := holds.bare kind
      by_cases empty : settings.Bare
      · rw [Act.lines, if_pos (.inr empty)]
        simp [Act.apply, serialize, kind, write, bare.mpr empty]
      · rw [Act.lines, if_neg (not_or.mpr ⟨other, empty⟩), ← holds.dataLen]
        simp [Act.apply, serialize, kind, write, mt bare.mp empty, Line.bytes, contentLength]

/-- Only the data of a GET can bring in lines behind the first one. -/
theorem Holds.startLine (holds : Holds message settings) :
    (cut message.startLine).tail.map Line.text = settings.query := by
  unfold OutgoingHttpMessage.startLine Settings.query
  have method := holds.method
  cases kind : message.method with
  | get =>
    have start : cr ∉ ascii "GET " ++ [] ++ ascii "?" := by decide
    rw [if_pos (method.symm.trans kind), holds.uri, holds.data]
    dsimp only
    rw [List.append_assoc _ settings.data, cut_append start, List.tail_modifyHead]
  | post =>
    have other : settings.method ≠ .get := by rw [← method, kind]; decide
    have start : cr ∉ ascii "POST " ++ [] ++ ascii " HTTP/1.1" := by decide
    rw [if_neg other, holds.uri]
    dsimp only
    rw [cut_line start]
    rfl
  | response =>
    have other : settings.method ≠ .get := by rw [← method, kind]; decide
    have start : cr ∉ ascii "HTTP/1.1 " ++ message.responseCode.message := by cases message.responseCode <;> decide
    rw [if_neg other]
    dsimp only
    rw [cut_line start]
    rfl

theorem Holds.foldl (holds : Holds message settings) (acts : List Act) :
    Holds (acts.foldl Act.apply message) (acts.foldl Settings.next settings) ∧
      (acts.foldl Act.apply message).header = message.header ++ joinLines ((added settings acts).map Line.bytes) := by
  induction acts generalizing message settings with
  | nil => exact ⟨holds, (List.append_nil _).symm⟩
  | cons act acts ih =>
    obtain ⟨later, header⟩ := ih (holds.apply act)
    refine ⟨later, ?_⟩
    rw [List.foldl_cons, header, holds.header, added, List.map_append, joinLines_append, List.append_assoc]

end Holds

theorem after_holds (acts : List Act) : Holds (after acts) (settings acts) ∧
    (after acts).header = joinLines ((added {} acts).map Line.bytes) :=
  @Holds.foldl {} {} ⟨rfl, rfl, rfl, rfl, rfl, rfl⟩ acts

theorem after_stored (acts : List Act) : (after acts).data.length = (after acts).dataLen := by
  rw [(after_holds acts).1.dataLen, (after_holds acts).1.data]

theorem Line.bytes_whole {line : Line} (text : ∀ piece, line = .text piece → ¬ crlf <:+: piece) :
    ¬ crlf <:+: line.bytes := by
  cases line with
  | text piece => exact text piece rfl
  | persistence isPersistent =>
    cases isPersistent with
    | true => exact Client.absent_of_cr (by decide)
    | false => exact Client.absent_of_cr (by decide)
  | length dataLen =>
    apply Client.absent_of_cr
    simp only [Line.bytes, List.mem_append, not_or]
    refine ⟨by decide, fun member => ?_⟩
    exact absurd (isdigit_decimal dataLen cr member) (by decide)

private theorem text_whole (s : Bytes) : ∀ line ∈ (cut s).map Line.text, ¬ crlf <:+: line.bytes := by
  intro line member
  obtain ⟨piece, inside, rfl⟩ := List.mem_map.mp member
  exact cut_whole s piece inside

theorem Act.mem_serialize_lines {settings : Settings} {line : Line} (member : line ∈ Act.serialize.lines settings) :
    line = .length settings.data.length := by
  simp only [lines] at member
  split at member
  · exact absurd member List.not_mem_nil
  · exact List.mem_singleton.mp member

theorem Act.lines_whole (settings : Settings) (act : Act) :
    ∀ line ∈ act.lines settings, ¬ crlf <:+: line.bytes := by
  intro line member
  cases act with
  | set call =>
    cases call with
    | setMethod _ | setResponseCode _ | setData _ => exact absurd member List.not_mem_nil
    | addHeader key value => exact text_whole _ line member
    | setPersistence isPersistent =>
      rw [List.mem_singleton.mp member]
      exact Line.bytes_whole fun piece same => by cases same
  | serialize =>
    rw [Act.mem_serialize_lines member]
    exact Line.bytes_whole fun piece same => by cases same

theorem added_whole (settings : Settings) (acts : List Act) :
    ∀ line ∈ added settings acts, ¬ crlf <:+: line.bytes := by
  induction acts generalizing settings with
  | nil => exact fun line member => absurd member List.not_mem_nil
  | cons act acts ih =>
    intro line member
    rcases List.mem_append.mp member with member | member
    · exact act.lines_whole settings line member
    · exact ih _ line member

/-- What `Serialize` has written after calls of which it is the last. -/
def serialized (acts : List Act) : OutgoingHttpMessage := after (acts ++ [.serialize])

/-- The values of the headers of a name in the text. -/
def valuesOf (message : OutgoingHttpMessage) (name : Bytes) : List Bytes :=
  (named (messageHeaders message.getSerializedMessage) name).map (·.value)

theorem valuesOf_serialized (acts : List Act) (name : Bytes) :
    valuesOf (serialized acts) name = (shown (acts ++ [.serialize])).filterMap (Line.value name) := by
  have final : serialized acts = (after acts).serialize := List.foldl_append
  have written := serialize_message (after_stored acts)
  obtain ⟨holds, header⟩ := after_holds (acts ++ [Act.serialize])
  rw [← serialized] at holds header
  obtain ⟨first, more, pieces⟩ := List.exists_cons_of_ne_nil (cut_ne_nil (serialized acts).startLine)
  have whole : (serialized acts).getSerializedMessage = joinLines (first ::
      (more.map Line.text ++ added {} (acts ++ [.serialize])).map Line.bytes) ++ (crlf ++ ((serialized acts).body ++ [0])) := by
    have start := joinLines_cut (serialized acts).startLine
    rw [pieces, joinLines_cons] at start
    rw [List.map_append, List.map_map, show Line.bytes ∘ Line.text = id from rfl, List.map_id, joinLines_cons,
      joinLines_append, ← header, ← List.append_assoc crlf, ← List.append_assoc first, start]
    rw [← final] at written
    rw [getSerializedMessage, written]
    simp
  have lines : ∀ line ∈ first :: (more.map Line.text ++ added {} (acts ++ [.serialize])).map Line.bytes,
      ¬ crlf <:+: line := by
    intro line member
    rcases List.mem_cons.mp member with rfl | member
    · exact cut_whole _ _ (pieces ▸ List.mem_cons_self)
    · obtain ⟨line, behind, rfl⟩ := List.mem_map.mp member
      rcases List.mem_append.mp behind with started | called
      · obtain ⟨piece, inside, rfl⟩ := List.mem_map.mp started
        exact cut_whole _ _ (pieces ▸ List.mem_cons_of_mem _ inside)
      · exact added_whole _ _ line called
  rw [valuesOf, whole, messageHeaders_join lines, shown, ← holds.startLine, pieces, List.tail_cons, named,
    List.takeWhile_map, List.filterMap_map, List.filter_filterMap, List.map_filterMap]
  rfl

theorem Line.value_connection (line : Line) : line.value (ascii "connection") =
    (line.asked.map persistenceValue).or (line.told (ascii "connection")) := by
  cases line with
  | text piece => rfl
  | persistence isPersistent => cases isPersistent <;> decide
  | length dataLen =>
    have split : splitField (bytes (length dataLen)) = ⟨ascii "Content-Length", decimal dataLen⟩ := rfl
    have other : ¬ strcasecmp (ascii "Content-Length") (ascii "connection") = .eq := by decide
    have nonempty : ascii "Content-Length" ≠ [] := by decide
    simp [value, asked, told, Grammar.header, split, decimal_ne_nil, nonempty, other]

theorem Line.value_contentLength (line : Line) : line.value (ascii "content-length") =
    (line.written.map decimal).or (line.told (ascii "content-length")) := by
  cases line with
  | text piece => rfl
  | persistence isPersistent => cases isPersistent <;> decide
  | length dataLen =>
    have split : splitField (bytes (length dataLen)) = ⟨ascii "Content-Length", decimal dataLen⟩ := rfl
    have same : strcasecmp (ascii "Content-Length") (ascii "content-length") = .eq := by decide
    have nonempty : ascii "Content-Length" ≠ [] := by decide
    simp [value, written, told, Grammar.header, split, decimal_ne_nil, nonempty, same]

section Once

variable {α : Type} {own : Line → Option α} {told : Line → Option Bytes} {encode : α → Bytes}

private theorem length_values (encode : α → Bytes) (apart : ∀ line, (own line).isSome → told line = none) (lines : List Line) :
    (lines.filterMap fun line => ((own line).map encode).or (told line)).length =
      (lines.filterMap own).length + (lines.filterMap told).length := by
  induction lines with
  | nil => rfl
  | cons line lines ih =>
    cases mine : own line with
    | none =>
      cases other : told line with
      | none => simp [mine, other, ih]
      | some value =>
        simp [mine, other, ih]
        omega
    | some value =>
      have none := apart line (by rw [mine]; rfl)
      simp [mine, none, ih]
      omega

private theorem forall_values (injective : Function.Injective encode) (apart : ∀ line, (own line).isSome → told line = none)
    (lines : List Line) (current : α) :
    (∀ value ∈ lines.filterMap (fun line => ((own line).map encode).or (told line)), value = encode current) ↔
      (∀ value ∈ lines.filterMap own, value = current) ∧ ∀ value ∈ lines.filterMap told, value = encode current := by
  induction lines with
  | nil => simp
  | cons line lines ih =>
    cases mine : own line with
    | none =>
      cases other : told line with
      | none =>
        rw [List.filterMap_cons_none (by rw [mine, other]; rfl), List.filterMap_cons_none mine, List.filterMap_cons_none other]
        exact ih
      | some value =>
        rw [List.filterMap_cons_some (by rw [mine, other]; rfl), List.filterMap_cons_none mine,
          List.filterMap_cons_some other, List.forall_mem_cons, List.forall_mem_cons, ih]
        exact and_left_comm
    | some value =>
      have none := apart line (by rw [mine]; rfl)
      rw [List.filterMap_cons_some (by rw [mine]; rfl), List.filterMap_cons_some mine,
        List.filterMap_cons_none none, List.forall_mem_cons, List.forall_mem_cons, ih, injective.eq_iff, and_assoc]

/-- Lines of two kinds give one value at most, and that the current one, when there is one
of them at most and it is current. -/
private theorem once_iff (injective : Function.Injective encode) (apart : ∀ line, (own line).isSome → told line = none)
    (lines : List Line) (current : α) :
    (lines.filterMap (fun line => ((own line).map encode).or (told line)) = [] ∨
      lines.filterMap (fun line => ((own line).map encode).or (told line)) = [encode current]) ↔
    (lines.filterMap own).length + (lines.filterMap told).length ≤ 1 ∧ (∀ value ∈ lines.filterMap own, value = current) ∧
      ∀ value ∈ lines.filterMap told, value = encode current := by
  rw [← length_values encode apart, ← forall_values injective apart]
  generalize lines.filterMap (fun line => ((own line).map encode).or (told line)) = all
  rcases all with _ | ⟨one, _ | ⟨two, rest⟩⟩ <;> simp

end Once

private theorem serialize_again {message : OutgoingHttpMessage} (other : message.method ≠ .get) :
    message.serialize.serialize.startLine = message.serialize.startLine ∧
      message.serialize.serialize.header = message.serialize.header ++ contentLength message.dataLen ∧
      message.serialize.serialize.body = message.serialize.body := by
  cases kind : message.method with
  | get => exact absurd kind other
  | post => simp [serialize, kind, write, startLine, body]
  | response =>
    by_cases empty : message.responseCode = .ok ∧ message.dataLen = 0
    · simp [serialize, kind, write, startLine, body, empty]
    · simp [serialize, kind, write, startLine, body, empty]

/-- A message serialized once more has the same text only where no length is added. -/
theorem serialize_serialize_iff {message : OutgoingHttpMessage} (stored : message.data.length = message.dataLen) :
    message.serialize.serialize.getSerializedMessage = message.serialize.getSerializedMessage ↔ message.method = .get := by
  constructor
  · intro same
    by_contra other
    obtain ⟨start, header, body⟩ := serialize_again other
    have kept : message.serialize.data.length = message.serialize.dataLen := by
      unfold serialize
      split
      · exact stored
      · exact stored
      · dsimp only
        split <;> exact stored
    rw [getSerializedMessage, getSerializedMessage, serialize_message stored, serialize_message kept, start, header,
      body] at same
    have longer := congrArg List.length same
    have positive : 0 < (contentLength message.dataLen).length := by simp [contentLength]
    simp only [List.length_append] at longer
    omega
  · intro kind
    simp [serialize, kind, write, getSerializedMessage]

/-- Each framing header is in the text at most once and says what the message is set
to, and sending the message a second time repeats its text. -/
structure FramedOnce (acts : List Act) : Prop where
  connection : valuesOf (serialized acts) (ascii "connection") = [] ∨
    valuesOf (serialized acts) (ascii "connection") = [persistenceValue (serialized acts).isPersistent]
  length : valuesOf (serialized acts) (ascii "content-length") = [] ∨
    valuesOf (serialized acts) (ascii "content-length") = [decimal (serialized acts).dataLen]
  again : ∀ earlier, acts = earlier ++ [.serialize] →
    (serialized acts).getSerializedMessage = (serialized earlier).getSerializedMessage

/-- What a reader comes to of the lines brought in by the calls: of `SetPersistence` and
of Connection lines in texts one at most, of lengths added by `Serialize` and of Content-Length
lines in texts one at most, and each of them says what is set in the end. Only a GET is
serialized twice in a row. -/
structure Unrepeated (acts : List Act) : Prop where
  connections : ((shown acts).filterMap Line.asked).length +
    ((shown acts).filterMap (Line.told (ascii "connection"))).length ≤ 1
  persistence : ∀ isPersistent ∈ (shown acts).filterMap Line.asked, isPersistent = (settings acts).isPersistent
  connection : ∀ value ∈ (shown acts).filterMap (Line.told (ascii "connection")),
    value = persistenceValue (settings acts).isPersistent
  lengths : ((shown acts).filterMap Line.written).length +
    ((shown acts).filterMap (Line.told (ascii "content-length"))).length ≤ 1
  length : ∀ dataLen ∈ (shown acts).filterMap Line.written, dataLen = (settings acts).data.length
  contentLength : ∀ value ∈ (shown acts).filterMap (Line.told (ascii "content-length")),
    value = decimal (settings acts).data.length
  again : ∀ earlier, acts = earlier ++ [.serialize, .serialize] → (settings earlier).method = .get

private theorem persistenceValue_injective : Function.Injective persistenceValue := by decide

private theorem decimal_injective : Function.Injective decimal := fun one two same => by
  rw [← digitsValue_decimal one, same, digitsValue_decimal]

def Act.persistence : Act → Option Bool
  | set (.setPersistence isPersistent) => some isPersistent
  | _ => none

/-- A header of one line that is neither of the framing headers. -/
structure PlainText (text : Bytes) : Prop where
  line : cut text = [text]
  nonempty : text ≠ []
  connection : (Line.text text).told (ascii "connection") = none
  length : (Line.text text).told (ascii "content-length") = none

def Act.Plain : Act → Prop
  | set (.addHeader key value) => PlainText (cstr key ++ ascii ": " ++ cstr value)
  | _ => True

/-- What a plain call adds: no blank line, and a framing header only where the class
writes one. -/
theorem Act.Plain.lines {act : Act} (plain : act.Plain) (settings : Settings) :
    (∀ line ∈ act.lines settings, line.bytes ≠ [] ∧ line.told (ascii "connection") = none ∧
      line.told (ascii "content-length") = none) ∧
      (act.lines settings).filterMap Line.asked = act.persistence.toList := by
  cases act with
  | set call =>
    cases call with
    | setMethod _ | setResponseCode _ | setData _ => exact ⟨fun line member => absurd member List.not_mem_nil, rfl⟩
    | setPersistence isPersistent =>
      refine ⟨fun line member => ?_, rfl⟩
      rw [List.mem_singleton.mp member]
      cases isPersistent <;> exact ⟨by decide, rfl, rfl⟩
    | addHeader key value =>
      have text : PlainText (cstr key ++ ascii ": " ++ cstr value) := plain
      rw [Act.lines, text.line]
      refine ⟨fun line member => ?_, rfl⟩
      rw [List.mem_singleton.mp member]
      exact ⟨text.nonempty, text.connection, text.length⟩
  | serialize =>
    refine ⟨fun line member => ?_, ?_⟩
    · rw [Act.mem_serialize_lines member]
      exact ⟨by simp [Line.bytes, decimal_ne_nil], rfl, rfl⟩
    · rw [Act.lines]
      split <;> rfl

theorem added_plain {acts : List Act} (plain : ∀ act ∈ acts, act.Plain) (settings : Settings) :
    (∀ line ∈ added settings acts, line.bytes ≠ [] ∧ line.told (ascii "connection") = none ∧
      line.told (ascii "content-length") = none) ∧
      (added settings acts).filterMap Line.asked = acts.filterMap Act.persistence := by
  induction acts generalizing settings with
  | nil => exact ⟨fun line member => absurd member List.not_mem_nil, rfl⟩
  | cons act acts ih =>
    obtain ⟨quiet, asked⟩ := (plain act List.mem_cons_self).lines settings
    obtain ⟨later, behind⟩ := ih (fun other member => plain other (List.mem_cons_of_mem act member)) (settings.next act)
    refine ⟨fun line member => ?_, ?_⟩
    · rcases List.mem_append.mp member with member | member
      · exact quiet line member
      · exact later line member
    · rw [added, List.filterMap_append, asked, behind]
      cases found : act.persistence with
      | none => rw [List.filterMap_cons_none found]; rfl
      | some isPersistent => rw [List.filterMap_cons_some found]; rfl

theorem settings_isPersistent (acts : List Act) :
    (settings acts).isPersistent = (acts.filterMap Act.persistence).getLast?.getD false := by
  refine foldl_last Settings.isPersistent (fun settings act _ => ?_) {}
  cases act with
  | set call => cases call <;> rfl
  | serialize =>
    rw [Settings.next]
    split <;> rfl

/-- Where every header is plain and the data of a GET has no line end, SetPersistence
and Serialize alone decide. -/
theorem unrepeated_iff_of_plain {acts : List Act} (plain : ∀ act ∈ acts, act.Plain) (data : (settings acts).query = []) :
    Unrepeated acts ↔ (acts.filterMap Act.persistence).length ≤ 1 ∧
      ((added {} acts).filterMap Line.written).length ≤ 1 ∧
      (∀ dataLen ∈ (added {} acts).filterMap Line.written, dataLen = (settings acts).data.length) ∧
      ∀ earlier, acts = earlier ++ [.serialize, .serialize] → (settings earlier).method = .get := by
  obtain ⟨quiet, asked⟩ := added_plain plain {}
  have all : shown acts = added {} acts := by
    rw [shown, data, List.nil_append, List.takeWhile_eq_self_iff]
    intro line member
    exact decide_eq_true (quiet line member).1
  have connections : (shown acts).filterMap (Line.told (ascii "connection")) = [] := by
    rw [all]
    exact List.filterMap_eq_nil_iff.mpr fun line member => (quiet line member).2.1
  have lengths : (shown acts).filterMap (Line.told (ascii "content-length")) = [] := by
    rw [all]
    exact List.filterMap_eq_nil_iff.mpr fun line member => (quiet line member).2.2
  have calls : (shown acts).filterMap Line.asked = acts.filterMap Act.persistence := by rw [all, asked]
  constructor
  · intro ⟨once, _, _, sized, current, _, again⟩
    rw [connections, calls, List.length_nil, Nat.add_zero] at once
    rw [lengths, all, List.length_nil, Nat.add_zero] at sized
    rw [all] at current
    exact ⟨once, sized, current, again⟩
  · intro ⟨once, sized, current, again⟩
    refine ⟨?_, ?_, ?_, ?_, ?_, ?_, again⟩
    · rw [connections, calls]
      exact once
    · rw [calls, settings_isPersistent]
      generalize acts.filterMap Act.persistence = asked at once ⊢
      rcases asked with _ | ⟨one, _ | ⟨two, rest⟩⟩
      · simp
      · simp
      · simp at once
    · rw [connections]
      exact fun value member => absurd member List.not_mem_nil
    · rw [lengths, all]
      exact sized
    · rw [all]
      exact current
    · rw [lengths]
      exact fun value member => absurd member List.not_mem_nil

end LibWebserver.OutgoingHttpMessage
