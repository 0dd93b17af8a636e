import LibWebserver.OutgoingHttpMessage

/-! The serializer writes the text of a message and one NUL, and nothing past the
block it allocated. -/

namespace LibWebserver.OutgoingHttpMessage
open CStr

private theorem put_parts (parts : List Bytes) (written free : Bytes) :
    parts.foldl put (written ++ free, written.length) =
      (written ++ parts.flatten ++ free.drop parts.flatten.length, (written ++ parts.flatten).length) := by
  induction parts generalizing written free with
  | nil => simp
  | cons part parts ih =>
    have step : put (written ++ free, written.length) part =
        ((written ++ part) ++ free.drop part.length, (written ++ part).length) := by
      simp only [put, memcpy, List.take_left, List.length_append, List.drop_append, List.append_assoc,
        Nat.add_sub_cancel_left, List.drop_of_length_le (Nat.le_add_right written.length part.length), List.nil_append]
    rw [List.foldl_cons, step, ih]
    simp

/-- Parts that fill the block up to its last byte leave it holding them and the NUL. -/
private theorem write_message (self : OutgoingHttpMessage) {len : Nat} {parts : List Bytes}
    (counted : len ≤ parts.flatten.length + 1) : (self.write len parts).message = parts.flatten ++ [0] := by
  have filled := put_parts parts [] (malloc len)
  rw [List.nil_append, List.nil_append, List.length_nil] at filled
  have room : (malloc len).length = len := List.length_replicate
  rw [write, filled]
  simp only [memcpy, List.take_left, List.length_singleton, List.append_assoc, List.append_cancel_left_eq]
  rw [List.drop_eq_nil_of_le, List.append_nil]
  rw [List.length_append, List.length_drop, room]
  omega

theorem HttpCode.message_length (code : HttpCode) : code.message.length = code.length := by
  cases code <;> rfl

/-- The bytes a message is meant to put on the wire. -/
def text (self : OutgoingHttpMessage) : Bytes :=
  match self.method with
  | .get => ascii "GET " ++ self.uri ++ ascii "?" ++ self.data ++ ascii " HTTP/1.1\r\n" ++ self.header ++ crlf
  | .post => ascii "POST " ++ self.uri ++ ascii " HTTP/1.1\r\n" ++ self.header ++ contentLength self.dataLen ++ crlf ++
      self.data
  | .response =>
    if self.responseCode = .ok ∧ self.dataLen = 0 then
      ascii "HTTP/1.1 " ++ HttpCode.noContent.message ++ crlf ++ self.header ++ crlf ++ self.data
    else ascii "HTTP/1.1 " ++ self.responseCode.message ++ crlf ++ self.header ++ contentLength self.dataLen ++ crlf ++
      self.data

theorem HttpCode.message_take (code : HttpCode) : code.message.take code.length = code.message := by
  rw [← HttpCode.message_length, List.take_length]

private theorem addSize_sum {a b c d : Nat} (fits : a + b + c + d < 2 ^ 64) :
    addSize (addSize (addSize a b) c) d = a + b + c + d := by
  unfold addSize
  omega

private theorem addSize_le (a b c d : Nat) : addSize (addSize (addSize a b) c) d ≤ a + b + c + d := by
  unfold addSize
  omega

/-- What is written is the text, and what is counted is its length and the NUL. -/
private theorem serialize_write {self : OutgoingHttpMessage} (stored : self.data.length = self.dataLen) :
    ∃ filled a b c d parts, self.serialize = write filled (addSize (addSize (addSize a b) c) d) parts ∧
      parts.flatten = self.text ∧ a + b + c + d = self.text.length + 1 := by
  have line : (ascii " HTTP/1.1\r\n").length = 11 := rfl
  cases kind : self.method with
  | get =>
    simp only [serialize, text, kind]
    refine ⟨_, _, _, _, _, _, rfl, by simp, ?_⟩
    have verb : (ascii "GET ").length = 4 := rfl
    have mark : (ascii "?").length = 1 := rfl
    simp only [List.length_append, List.length_cons, List.length_nil, verb, mark, line, stored]
    omega
  | post =>
    simp only [serialize, text, kind]
    refine ⟨_, _, _, _, _, _, rfl, by simp, ?_⟩
    have verb : (ascii "POST ").length = 5 := rfl
    simp only [List.length_append, List.length_cons, List.length_nil, verb, line, stored]
    omega
  | response =>
    simp only [serialize, text, kind]
    have verb : (ascii "HTTP/1.1 ").length = 9 := rfl
    split
    · refine ⟨_, _, _, _, _, _, rfl, by simp [HttpCode.message_take], ?_⟩
      simp only [List.length_append, List.length_cons, List.length_nil, verb, stored, HttpCode.message_length]
      omega
    · refine ⟨_, _, _, _, _, _, rfl, by simp [HttpCode.message_take], ?_⟩
      simp only [List.length_append, List.length_cons, List.length_nil, verb, stored, HttpCode.message_length]
      omega

theorem serialize_holds {self : OutgoingHttpMessage} (stored : self.data.length = self.dataLen) :
    self.serialize.message = self.text ++ [0] := by
  obtain ⟨filled, a, b, c, d, parts, written, same, counted⟩ := serialize_write stored
  rw [written, ← same]
  refine write_message filled (Nat.le_trans (addSize_le a b c d) ?_)
  rw [counted, same]

theorem serialize_text {self : OutgoingHttpMessage} (stored : self.data.length = self.dataLen)
    (fits : self.text.length + 1 < 2 ^ 64) :
    self.serialize.message = self.text ++ [0] ∧ self.serialize.len = self.text.length + 1 := by
  refine ⟨serialize_holds stored, ?_⟩
  obtain ⟨filled, a, b, c, d, parts, written, same, counted⟩ := serialize_write stored
  rw [written, ← counted]
  exact addSize_sum (counted ▸ fits)

def startLine (self : OutgoingHttpMessage) : Bytes :=
  match self.method with
  | .get => ascii "GET " ++ self.uri ++ ascii "?" ++ self.data ++ ascii " HTTP/1.1"
  | .post => ascii "POST " ++ self.uri ++ ascii " HTTP/1.1"
  | .response => ascii "HTTP/1.1 " ++ self.responseCode.message

def body (self : OutgoingHttpMessage) : Bytes :=
  match self.method with
  | .get => []
  | .post | .response => self.data

/-- The text is made of what the message holds afterwards. -/
private theorem text_parts (self : OutgoingHttpMessage) :
    self.text = self.serialize.startLine ++ (crlf ++ (self.serialize.header ++ (crlf ++ self.serialize.body))) := by
  have line : ascii " HTTP/1.1\r\n" = ascii " HTTP/1.1" ++ crlf := rfl
  cases kind : self.method with
  | get => simp [text, serialize, write, startLine, body, kind, line]
  | post => simp [text, serialize, write, startLine, body, kind, line]
  | response =>
    simp only [text, serialize, kind]
    split <;> simp [write, startLine, body]

theorem serialize_message {self : OutgoingHttpMessage} (stored : self.data.length = self.dataLen) :
    self.serialize.message = self.serialize.startLine ++
      (crlf ++ (self.serialize.header ++ (crlf ++ (self.serialize.body ++ [0])))) := by
  rw [serialize_holds stored, text_parts]
  simp

theorem getLength_text {self : OutgoingHttpMessage} (stored : self.data.length = self.dataLen)
    (fits : self.text.length + 1 < 2 ^ 64) : self.serialize.getLength = self.text.length := by
  rw [getLength, (serialize_text stored fits).2]
  unfold subSize
  omega

theorem length_text_pos (self : OutgoingHttpMessage) : 0 < self.text.length := by
  rw [List.length_pos_iff]
  unfold text
  split
  · simp [ascii]
  · simp [ascii]
  · split <;> simp [ascii]

end LibWebserver.OutgoingHttpMessage
