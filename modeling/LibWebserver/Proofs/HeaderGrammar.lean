import LibWebserver.Grammar
import LibWebserver.Proofs.Fields

/-! The header loop beside the grammar of the header block. They take the same lines,
and differ on a line with a CR in its name, which the key loop stops at, and on a line
that starts with ": ", behind which it looks for a name again. -/

namespace LibWebserver.IncomingHttpMessage
open CStr Grammar

theorem scanKey_key_free (p : Bytes) (eof : Nat) : cr ∉ (scanKey p eof).key := by
  induction p generalizing eof with
  | nil => exact List.not_mem_nil
  | cons c p ih =>
    simp only [scanKey]
    split
    · exact List.not_mem_nil
    next running =>
      split
      · exact List.not_mem_nil
      · simp only [List.mem_cons, not_or]
        exact ⟨fun same => running (.inr same.symm), ih _⟩

/-- Up to the first ": " the key loop reads the name, unless a CR comes before it. -/
theorem scanKey_split {line : Bytes} (nul : 0 ∉ line) (eof : Nat) :
    (cr ∉ (splitField line).key ∧ (scanKey line eof).key = (splitField line).key ∧
        (scanKey line eof).p = (splitField line).value) ∨
      cr ∈ (splitField line).key ∧ (scanKey line eof).p ≠ [] := by
  induction line generalizing eof with
  | nil => exact .inl ⟨List.not_mem_nil, rfl, rfl⟩
  | cons c line ih =>
    simp only [List.mem_cons, not_or] at nul
    simp only [scanKey, splitField]
    by_cases separator : c = 58 ∧ peek line = 32
    · have running : ¬ (c = 0 ∨ c = cr) := by
        rw [separator.1]
        decide
      rw [if_neg running, if_pos separator, if_pos separator]
      exact .inl ⟨List.not_mem_nil, rfl, rfl⟩
    · rw [if_neg separator, if_neg separator]
      by_cases start : c = cr
      · rw [if_pos (.inr start)]
        exact .inr ⟨by simp [start], by simp⟩
      · rw [if_neg (not_or.mpr ⟨Ne.symm nul.1, start⟩)]
        rcases ih nul.2 (eof + 1) with ⟨free, key, value⟩ | ⟨found, rest⟩
        · refine .inl ⟨?_, congrArg (c :: ·) key, value⟩
          simp only [List.mem_cons, not_or]
          exact ⟨Ne.symm start, free⟩
        · exact .inr ⟨List.mem_cons_of_mem c found, rest⟩

theorem splitField_key_ne_nil {line : Bytes} (valid : KeyLine line) : (splitField line).key ≠ [] := by
  obtain ⟨c, line, rfl⟩ := List.exists_cons_of_ne_nil valid.nonempty
  have running : ¬ (c = 58 ∧ peek line = 32) := by
    rintro ⟨rfl, blank⟩
    cases line with
    | nil => exact absurd (show (0 : UInt8) = 32 from blank) (by decide)
    | cons d line =>
      obtain rfl : d = 32 := blank
      exact valid.unseparated ⟨line, rfl⟩
  rw [splitField, if_neg running]
  exact List.cons_ne_nil _ _

/-- A line behind the separators it starts with. -/
def text : Bytes → Bytes
  | 58 :: 32 :: line => text line
  | line => line

/-- No CR in the name, and a line that starts with ": " has no other with text behind it. -/
structure Plain (line : Bytes) : Prop where
  name : cr ∉ (splitField (text line)).key
  lead : text line ≠ line → (splitField (text line)).value = []

instance (line : Bytes) : Decidable (Plain line) :=
  decidable_of_iff (cr ∉ (splitField (text line)).key ∧ (text line ≠ line → (splitField (text line)).value = []))
    ⟨fun plain => ⟨plain.1, plain.2⟩, fun plain => ⟨plain.name, plain.lead⟩⟩

/-- What the loop stores from a line. -/
def storedField (line : Bytes) : Option HttpPair := if (fieldOf line).value = [] then none else some (fieldOf line)

theorem KeyLine.text_eq {line : Bytes} (valid : KeyLine line) : text line = line := by
  unfold text
  split
  next rest => exact absurd ⟨rest, rfl⟩ valid.unseparated
  next => rfl

theorem FieldLine.text_valid {line : Bytes} (valid : FieldLine line) : KeyLine (text line) := by
  induction valid with
  | key valid => rwa [valid.text_eq]
  | separator rest ih => exact ih

theorem FieldLine.fieldOf_text {line : Bytes} (valid : FieldLine line) : fieldOf (text line) = fieldOf line := by
  induction valid with
  | key valid => rw [valid.text_eq]
  | separator rest ih => exact ih

theorem text_length (line : Bytes) : (text line).length ≤ line.length := by
  fun_induction text line with
  | case1 line ih => exact Nat.le_trans ih (by simp only [List.length_cons]; omega)
  | case2 line => exact Nat.le_refl _

theorem KeyLine.storedField_eq_none_iff {line : Bytes} (valid : KeyLine line) :
    storedField line = none ↔ cr ∉ (splitField line).key ∧ (splitField line).value = [] := by
  rw [storedField, valid.fieldOf_eq]
  rcases scanKey_split valid.free.nul 0 with ⟨free, _, value⟩ | ⟨found, rest⟩
  · simp [free, value]
  · simp [found, rest]

theorem eq_fieldOf_of_storedField {line : Bytes} {pair : HttpPair} (some : storedField line = some pair) :
    pair = fieldOf line := by
  rw [storedField] at some
  split at some
  · cases some
  · exact (Option.some.inj some).symm

theorem eq_splitField_of_header {line : Bytes} {pair : HttpPair} (some : header line = some pair) :
    pair = splitField line := by
  rw [header] at some
  split at some
  · cases some
  · exact (Option.some.inj some).symm

/-- Loop and grammar read the same from a line exactly when it is plain. -/
theorem FieldLine.storedField_eq_iff {line : Bytes} (valid : FieldLine line) :
    storedField line = header line ↔ Plain line := by
  cases valid with
  | key valid =>
    have nonempty := splitField_key_ne_nil valid
    constructor
    · intro same
      refine ⟨?_, fun differs => absurd valid.text_eq differs⟩
      rw [valid.text_eq]
      intro found
      have kept : storedField line ≠ none := fun none => (valid.storedField_eq_none_iff.mp none).1 found
      obtain ⟨pair, some⟩ := Option.ne_none_iff_exists'.mp kept
      have read := eq_fieldOf_of_storedField some
      rw [eq_splitField_of_header (same.symm.trans some), valid.fieldOf_eq] at read
      have lost := scanKey_key_free line 0
      have key : (splitField line).key = (scanKey line 0).key := congrArg HttpPair.key read
      rw [← key] at lost
      exact lost found
    · intro plain
      have free := plain.name
      rw [valid.text_eq] at free
      obtain ⟨_, key, value⟩ := (scanKey_split valid.free.nul 0).resolve_right fun other => free other.1
      rw [storedField, header, valid.fieldOf_eq, key, value]
      simp [nonempty]
  | @separator line rest =>
    have none : header (58 :: 32 :: line) = none := rfl
    have keyed := rest.text_valid
    have same : storedField (58 :: 32 :: line) = storedField (text line) := by
      rw [storedField, storedField, rest.fieldOf_text]
      rfl
    rw [none, same, keyed.storedField_eq_none_iff]
    have shorter : text (58 :: 32 :: line) ≠ 58 :: 32 :: line := by
      intro same
      have short := congrArg List.length same
      have bound := text_length line
      simp only [text, List.length_cons] at short
      omega
    constructor
    · intro ⟨name, value⟩
      exact ⟨name, fun _ => value⟩
    · intro ⟨name, value⟩
      exact ⟨name, value shorter⟩

theorem FieldLine.storedField_ne_none {line : Bytes} (valid : FieldLine line) (kept : header line ≠ none) :
    storedField line ≠ none := by
  cases valid with
  | separator rest => exact absurd rfl kept
  | key valid =>
    intro none
    have empty := (valid.storedField_eq_none_iff.mp none).2
    apply kept
    rw [header, if_pos (.inr empty)]

theorem length_filterMap_le {α β : Type} {f g : α → Option β} {l : List α} (more : ∀ a ∈ l, g a ≠ none → f a ≠ none) :
    (l.filterMap g).length ≤ (l.filterMap f).length := by
  induction l with
  | nil => exact Nat.le_refl _
  | cons a l ih =>
    have later := ih fun other member => more other (List.mem_cons_of_mem a member)
    have head := more a List.mem_cons_self
    cases kept : g a with
    | none =>
      rw [List.filterMap_cons_none kept]
      exact Nat.le_trans later (((List.sublist_cons_self a l).filterMap f).length_le)
    | some b =>
      obtain ⟨c, found⟩ := Option.ne_none_iff_exists'.mp (head (by simp [kept]))
      rw [List.filterMap_cons_some kept, List.filterMap_cons_some found]
      exact Nat.succ_le_succ later

/-- Two selections of which one keeps more agree only where they keep the same. -/
theorem filterMap_eq_iff {α β : Type} {f g : α → Option β} {l : List α} (more : ∀ a ∈ l, g a ≠ none → f a ≠ none) :
    l.filterMap f = l.filterMap g ↔ ∀ a ∈ l, f a = g a := by
  refine ⟨fun same => ?_, List.filterMap_congr⟩
  induction l with
  | nil => exact fun a member => absurd member List.not_mem_nil
  | cons a l ih =>
    have behind : ∀ other ∈ l, g other ≠ none → f other ≠ none :=
      fun other member => more other (List.mem_cons_of_mem a member)
    have head : f a = g a ∧ l.filterMap f = l.filterMap g := by
      cases found : f a with
      | none =>
        have none : g a = none := not_not.mp fun kept => more a List.mem_cons_self kept found
        rw [List.filterMap_cons_none found, List.filterMap_cons_none none] at same
        exact ⟨none.symm, same⟩
      | some b =>
        cases kept : g a with
        | none =>
          have shorter := length_filterMap_le behind
          rw [List.filterMap_cons_some found, List.filterMap_cons_none kept] at same
          rw [← same] at shorter
          exact absurd shorter (Nat.not_succ_le_self _)
        | some c =>
          rw [List.filterMap_cons_some found, List.filterMap_cons_some kept] at same
          obtain ⟨rfl, rest⟩ := List.cons.inj same
          exact ⟨rfl, rest⟩
    intro other member
    rcases List.mem_cons.mp member with rfl | member
    · exact head.1
    · exact ih behind head.2 other member

theorem pushLines_headers_eq (self : IncomingHttpMessage) (lines : List Bytes) :
    (pushLines self lines).headers = self.headers ++ lines.filterMap storedField := by
  have kept : (lines.map fieldOf).filter (·.value ≠ []) = lines.filterMap storedField := by
    rw [← List.filterMap_eq_filter, List.filterMap_map]
    apply List.filterMap_congr
    intro line _
    by_cases empty : (fieldOf line).value = []
    · simp [storedField, empty]
    · simp [storedField, empty]
  have values : ∀ pair ∈ (lines.map fieldOf).filter (·.value ≠ []), pair.value ≠ [] := by
    intro pair member
    exact of_decide_eq_true (List.mem_filter.mp member).2
  rw [pushLines_eq, pushFields_filter, pushFields_headers values, kept]

theorem lines_eq {lines : List Bytes} (valid : ∀ line ∈ lines, FieldLine line) (rest : Bytes) :
    Grammar.lines (joinLines lines ++ (crlf ++ rest)) = lines := by
  have whole : ∀ line ∈ lines, ¬ crlf <:+: line ∧ line ≠ [] := by
    intro line member
    refine ⟨(valid line member).free.absent, ?_⟩
    rintro rfl
    cases valid [] member with
    | key keyed => exact keyed.nonempty rfl
  have enough : lines.length < (joinLines lines ++ (crlf ++ rest)).length + 1 := by
    have short := Client.length_joinLines lines
    rw [List.length_append]
    omega
  rw [Grammar.lines, Client.readLines_block whole enough]
  rfl

/-- The headers of a message are those of the grammar exactly when every line of the
block is plain. -/
theorem headers_eq_iff {fuel : Nat} {self message : IncomingHttpMessage} {request : Bytes} {eof done : Nat}
    (parsed : deserializeHeader fuel self request eof = some (.complete message done)) :
    message.headers = self.headers ++ Grammar.headers (request.drop eof) ↔
      ∀ line ∈ Grammar.lines (request.drop eof), Plain line := by
  rw [deserializeHeader] at parsed
  split at parsed
  · cases parsed
  next inside =>
    have lock : LockStep request ⟨self, request.drop eof, eof, false⟩ := by
      simp only [LockStep, List.length_drop]
      omega
    rcases complete_lines lock parsed with waits | ⟨lines, rest, same, valid, _, reached⟩
    · cases waits
    · have read := lines_eq valid rest
      obtain ⟨rfl, _⟩ := Outcome.complete.inj reached
      rw [same, Grammar.headers, read, pushLines_headers_eq, List.append_cancel_left_eq,
        filterMap_eq_iff fun line member => (valid line member).storedField_ne_none]
      exact forall₂_congr fun line member => (valid line member).storedField_eq_iff

/-- The header lines behind a request line, one of which has no value. -/
def headed : Bytes := ascii "GET / HTTP/1.1\r\nHost: a\r\nAccept: */*\r\nX-Empty: \r\nCookie:  b=1\r\n\r\n"

theorem headers_eq_plain :
    let headers : List HttpPair := [⟨ascii "Host", ascii "a"⟩, ⟨ascii "Accept", ascii "*/*"⟩, ⟨ascii "Cookie", ascii " b=1"⟩]
    (∀ line ∈ Grammar.lines (headed.drop 16), Plain line) ∧ headers = [] ++ Grammar.headers (headed.drop 16) := by
  intro headers
  have parsed : deserializeHeader 12 {} headed 16 = some (.complete { headers } 65) := by decide +kernel
  have plain : ∀ line ∈ Grammar.lines (headed.drop 16), Plain line := by decide +kernel
  exact ⟨plain, (headers_eq_iff parsed).mpr plain⟩

/-- The value of a line without a name is read as a header of its own. -/
theorem value_becomes_name :
    ¬ ∀ (fuel : Nat) (self message : IncomingHttpMessage) (request : Bytes) (eof done : Nat),
      deserializeHeader fuel self request eof = some (.complete message done) →
        message.headers = self.headers ++ Grammar.headers (request.drop eof) := by
  intro always
  have read := always 4 {} { headers := [⟨ascii "a", ascii "b"⟩] } (ascii ": a: b\r\n\r\n") 0 10 (by decide +kernel)
  exact absurd read (by decide +kernel)

end LibWebserver.IncomingHttpMessage
