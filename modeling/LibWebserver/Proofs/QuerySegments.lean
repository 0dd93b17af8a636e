import LibWebserver.Proofs.Query

/-! Query text as segments between '&'. A segment is read by itself unless it has a
key without '=': the key then goes on through the segments behind it. -/

namespace LibWebserver.IncomingHttpMessage
open CStr

/-- What `DeserializeQuery_` extracts from a text, behind the '?' of a uri or as a body. -/
def extracted (method : HttpMethod) (text : Bytes) : Option (List HttpPair) :=
  match deserializeQuery (text.length + 2) { method, uri := 63 :: text } text 0 with
  | some (.complete message _) => some message.queries
  | _ => none

/-- What a pass may skip before it comes to a key. -/
def isLead (c : UInt8) : Bool := isSeparator c ∨ isEquals c

/-- A segment with a key and no '=' behind it. -/
def Flag (segment : Bytes) : Prop := segment.dropWhile isLead ≠ [] ∧ 61 ∉ segment.dropWhile isLead

instance (segment : Bytes) : Decidable (Flag segment) := by unfold Flag; infer_instance

/-- The text behind the first run of '='. -/
def valueOf (segment : Bytes) : Bytes := (segment.dropWhile (· ≠ 61)).dropWhile isEquals

/-- Behind a flag, the next segment with a '=' has no value. -/
def Local : Bool → List Bytes → Prop
  | _, [] => True
  | false, segment :: segments => Local (Flag segment) segments
  | true, segment :: segments =>
    if 61 ∈ segment then valueOf segment = [] ∧ Local false segments else Local true segments

instance decidableLocal : ∀ (opened : Bool) (segments : List Bytes), Decidable (Local opened segments)
  | _, [] => inferInstanceAs (Decidable True)
  | false, segment :: segments => decidableLocal (Flag segment) segments
  | true, segment :: segments =>
    have := decidableLocal false segments
    have := decidableLocal true segments
    inferInstanceAs (Decidable (if 61 ∈ segment then valueOf segment = [] ∧ Local false segments else Local true segments))

private theorem parse_nil : parseQueries [] = [] := parseQueries_stop rfl

private theorem parseQueries_separator {c : UInt8} (separator : isSeparator c) (p : Bytes) :
    parseQueries (c :: p) = parseQueries p := by
  have running : peek (c :: p) ≠ 0 := by
    rintro rfl
    exact absurd separator (by decide)
  have skips : queryPass (c :: p) = queryPass p := by
    unfold queryPass
    rw [List.dropWhile_cons_of_pos separator]
  rw [parseQueries_pass running, skips]
  by_cases stops : peek p = 0
  · rw [parseQueries_stop stops]
    cases p with
    | nil => rfl
    | cons d p =>
      obtain rfl : d = 0 := stops
      exact parseQueries_stop (peek_cons 0 p)
  · rw [← parseQueries_pass stops]

private theorem parseQueries_equals (p : Bytes) : parseQueries (61 :: p) = parseQueries p := by
  have skips (p : Bytes) : queryPass (61 :: p) = ([], p.dropWhile isEquals) := by
    simp [queryPass, isSeparator, inKey, isEquals]
  have run (p : Bytes) : parseQueries (61 :: p) = parseQueries (p.dropWhile isEquals) := by
    rw [@parseQueries_pass (61 :: p) (by simp), skips, List.nil_append]
  rw [run]
  cases p with
  | nil => rfl
  | cons c p =>
    by_cases equals : c = 61
    · rw [equals, run, List.dropWhile_cons_of_pos (by decide)]
    · rw [List.dropWhile_cons_of_neg (by simp [isEquals, equals])]

theorem parseQueries_lead {lead : Bytes} (leads : ∀ c ∈ lead, isLead c) (p : Bytes) :
    parseQueries (lead ++ p) = parseQueries p := by
  induction lead with
  | nil => rfl
  | cons c lead ih =>
    have rest := ih fun d member => leads d (by simp [member])
    have head : isSeparator c ∨ isEquals c := by simpa [isLead] using leads c (by simp)
    rw [List.cons_append]
    rcases head with separator | equals
    · rw [parseQueries_separator separator, rest]
    · obtain rfl : c = 61 := by simpa [isEquals] using equals
      rw [parseQueries_equals, rest]

/-- The start of a key that goes on until a '=' comes. -/
structure Pending (key : Bytes) : Prop where
  nonempty : key ≠ []
  start : isSeparator (peek key) = false
  equals : 61 ∉ key
  nul : 0 ∉ key

theorem Pending.append {key more : Bytes} (pending : Pending key) (equals : 61 ∉ more) (nul : 0 ∉ more) :
    Pending (key ++ more) := by
  obtain ⟨c, key, rfl⟩ := List.exists_cons_of_ne_nil pending.nonempty
  have both {c : UInt8} {one two : Bytes} (first : c ∉ one) (second : c ∉ two) : c ∉ one ++ two := by
    rw [List.mem_append, not_or]
    exact ⟨first, second⟩
  exact ⟨by simp, pending.start, both pending.equals equals, both pending.nul nul⟩

/-- What becomes of a key and its value. -/
private def stored (key value : Bytes) : List HttpPair := if value = [] then [] else [⟨key, value⟩]

/-- A pending key takes its value behind the next '='. -/
theorem Pending.parse {key : Bytes} (pending : Pending key) {q t : Bytes} (clean : 38 ∉ q ∧ 0 ∉ q)
    (ends : t = [] ∨ peek t = 38) :
    parseQueries (key ++ 61 :: (q ++ t)) = stored key (q.dropWhile isEquals) ++ parseQueries t := by
  obtain ⟨nonempty, start, equals, nul⟩ := pending
  have running := peek_ne_nul nul nonempty (61 :: (q ++ t))
  have inside := inKey_of_absent equals nul
  have seps := dropWhile_start nonempty start (61 :: (q ++ t))
  have keyEnd : ¬ inKey 61 := by decide
  have within : ∀ c ∈ q.dropWhile isEquals, inValue c := by
    intro c member
    exact inValue_of_absent clean.1 clean.2 c ((List.dropWhile_suffix isEquals).subset member)
  have stops := value_ends ends
  have value : (61 :: (q ++ t)).dropWhile isEquals = q.dropWhile isEquals ++ t := by
    rw [List.dropWhile_cons_of_pos (by decide), List.dropWhile_append]
    split
    next none => rw [stops.1, List.isEmpty_iff.mp none, List.nil_append]
    · rfl
  rw [parseQueries_pass running]
  simp only [queryPass, seps, List.takeWhile_append_of_pos inside, List.dropWhile_append_of_pos inside,
    List.takeWhile_cons_of_neg keyEnd, List.dropWhile_cons_of_neg keyEnd, List.append_nil, if_neg nonempty, value,
    List.takeWhile_append_of_pos within, List.dropWhile_append_of_pos within, stops.2.1, stops.2.2, stored]

theorem Pending.parse_open {key : Bytes} (pending : Pending key) : parseQueries key = [] := by
  obtain ⟨nonempty, start, equals, nul⟩ := pending
  have all := inKey_of_absent equals nul
  have seps := dropWhile_start nonempty start []
  have running := peek_ne_nul nul nonempty []
  rw [List.append_nil] at seps running
  have pass : queryPass key = ([], []) := by
    simp [queryPass, seps, List.dropWhile_eq_nil_iff.mpr all]
  rw [parseQueries_pass running, pass]
  rfl

/-- The segments behind a first one, each with the '&' in front of it. -/
private def tail (segments : List Bytes) : Bytes := segments.flatMap (38 :: ·)

private theorem tail_ends (segments : List Bytes) : tail segments = [] ∨ peek (tail segments) = 38 := by
  cases segments with
  | nil => exact .inl rfl
  | cons segment segments => exact .inr rfl

private theorem tail_eq (segment : Bytes) (segments : List Bytes) :
    tail (segment :: segments) = 38 :: [38].intercalate (segment :: segments) := by
  induction segments generalizing segment with
  | nil => simp [tail]
  | cons other segments ih =>
    rw [List.intercalate_cons_cons, List.append_assoc, List.singleton_append, ← ih]
    rfl

private theorem lead_dropWhile (segment : Bytes) :
    ∃ lead, segment = lead ++ segment.dropWhile isLead ∧ ∀ c ∈ lead, isLead c :=
  ⟨segment.takeWhile isLead, List.takeWhile_append_dropWhile.symm, fun _ member => List.mem_takeWhile_imp member⟩

private theorem pending_dropWhile {text : Bytes} (nonempty : text.dropWhile isLead ≠ [])
    (equals : 61 ∉ text.dropWhile isLead) (nul : 0 ∉ text) : Pending (text.dropWhile isLead) := by
  have head := List.head_dropWhile_not isLead nonempty
  refine ⟨nonempty, ?_, equals, fun member => nul ((List.dropWhile_suffix isLead).subset member)⟩
  obtain ⟨c, rest, same⟩ := List.exists_cons_of_ne_nil nonempty
  simp only [same, List.head_cons] at head
  rw [same, peek_cons]
  by_contra separator
  simp [isLead, separator] at head

private theorem split_equals {text : Bytes} (member : 61 ∈ text) :
    ∃ before after, text = before ++ 61 :: after ∧ 61 ∉ before ∧ valueOf text = after.dropWhile isEquals := by
  obtain ⟨before, after, same, first⟩ := List.eq_append_cons_of_mem member
  refine ⟨before, after, same, first, ?_⟩
  have rest : text.dropWhile (· ≠ 61) = 61 :: after := by
    rw [same, List.dropWhile_append_of_pos, List.dropWhile_cons_of_neg (by simp)]
    intro c inside
    simpa using fun equal : c = 61 => first (equal ▸ inside)
  rw [valueOf, rest, List.dropWhile_cons_of_pos (by decide)]

/-- A segment that is no flag is read by itself, whatever follows. -/
private theorem parse_segment {segment : Bytes} (clean : 38 ∉ segment ∧ 0 ∉ segment) (closed : ¬ Flag segment) {t : Bytes}
    (ends : t = [] ∨ peek t = 38) : parseQueries (segment ++ t) = parseQueries segment ++ parseQueries t := by
  obtain ⟨lead, same, leads⟩ := lead_dropWhile segment
  have inside {c : UInt8} (absent : c ∉ segment) : c ∉ segment.dropWhile isLead :=
    fun member => absent ((List.dropWhile_suffix isLead).subset member)
  have start (t : Bytes) : parseQueries (segment ++ t) = parseQueries (segment.dropWhile isLead ++ t) := by
    conv => lhs; rw [same, List.append_assoc]
    exact parseQueries_lead leads _
  have alone := start []
  rw [List.append_nil, List.append_nil] at alone
  rw [start, alone]
  by_cases empty : segment.dropWhile isLead = []
  · rw [empty, parse_nil]
    rfl
  · have equals : 61 ∈ segment.dropWhile isLead := by
      by_contra absent
      exact closed ⟨empty, absent⟩
    obtain ⟨before, after, cut, first, _⟩ := split_equals equals
    have amp := inside clean.1
    have nul := inside clean.2
    have head := List.head_dropWhile_not isLead empty
    simp only [cut] at amp nul head
    simp only [List.mem_append, List.mem_cons, not_or] at amp nul
    have nonempty : before ≠ [] := by
      rintro rfl
      simp [isLead, isEquals] at head
    have pending : Pending before := by
      refine ⟨nonempty, ?_, first, nul.1⟩
      obtain ⟨c, before, rfl⟩ := List.exists_cons_of_ne_nil nonempty
      simp only [List.cons_append, List.head_cons] at head
      rw [peek_cons]
      by_contra separator
      simp [isLead, separator] at head
    have followed := pending.parse ⟨amp.2.2, nul.2.2⟩ ends
    have ended := pending.parse ⟨amp.2.2, nul.2.2⟩ (.inl rfl)
    rw [List.append_nil, parse_nil, List.append_nil] at ended
    rw [cut, List.append_assoc, List.cons_append, followed, ended]

private theorem parse_flag {segment : Bytes} (nul : 0 ∉ segment) (flag : Flag segment) (t : Bytes) :
    parseQueries segment = [] ∧ Pending (segment.dropWhile isLead) ∧
      parseQueries (segment ++ t) = parseQueries (segment.dropWhile isLead ++ t) := by
  obtain ⟨lead, same, leads⟩ := lead_dropWhile segment
  have pending := pending_dropWhile flag.1 flag.2 nul
  refine ⟨?_, pending, ?_⟩
  · conv => lhs; rw [same]
    rw [parseQueries_lead leads, pending.parse_open]
  · conv => lhs; rw [same, List.append_assoc]
    exact parseQueries_lead leads _

private theorem parse_leads {segment : Bytes} (leads : ∀ c ∈ segment, isLead c) : parseQueries segment = [] := by
  have none := parseQueries_lead leads []
  rwa [List.append_nil, parse_nil] at none

/-- A segment without '=' stores nothing. -/
private theorem parse_bare {segment : Bytes} (nul : 0 ∉ segment) (equals : 61 ∉ segment) : parseQueries segment = [] := by
  by_cases empty : segment.dropWhile isLead = []
  · exact parse_leads (List.dropWhile_eq_nil_iff.mp empty)
  · have absent : 61 ∉ segment.dropWhile isLead := fun member => equals ((List.dropWhile_suffix isLead).subset member)
    exact (parse_flag nul ⟨empty, absent⟩ []).1

private theorem parse_valueless {segment : Bytes} (clean : 38 ∉ segment ∧ 0 ∉ segment) (equals : 61 ∈ segment)
    (none : valueOf segment = []) : parseQueries segment = [] := by
  obtain ⟨before, after, rfl, first, value⟩ := split_equals equals
  rw [none] at value
  simp only [List.mem_append, List.mem_cons, not_or] at clean
  obtain ⟨lead, same, leads⟩ := lead_dropWhile before
  have skip : parseQueries (before ++ 61 :: after) = parseQueries (before.dropWhile isLead ++ 61 :: after) := by
    conv => lhs; rw [same, List.append_assoc]
    exact parseQueries_lead leads _
  rw [skip]
  by_cases empty : before.dropWhile isLead = []
  · rw [empty]
    refine parse_leads fun c member => ?_
    have all := List.dropWhile_eq_nil_iff.mp value.symm
    rcases List.mem_cons.mp member with rfl | member
    · decide
    · simp [isLead, all c member]
  · have absent : 61 ∉ before.dropWhile isLead := fun member => first ((List.dropWhile_suffix isLead).subset member)
    have pending := pending_dropWhile empty absent clean.2.1
    have ended := pending.parse ⟨clean.1.2.2, clean.2.2.2⟩ (.inl rfl)
    rw [List.append_nil, ← value, parse_nil] at ended
    exact ended

private theorem key_subset (p : Bytes) : ∀ pair ∈ parseQueries p, pair.key ⊆ p := by
  induction same : p.length using Nat.strongRecOn generalizing p with
  | ind size ih =>
    intro pair member
    by_cases stops : peek p = 0
    · rw [parseQueries_stop stops] at member
      cases member
    · rw [parseQueries_pass stops, List.mem_append] at member
      rcases member with now | later
      · have inside : (p.dropWhile isSeparator).takeWhile inKey ⊆ p :=
          List.Subset.trans (List.takeWhile_prefix _).subset (List.dropWhile_suffix _).subset
        unfold queryPass at now
        dsimp only at now
        split at now
        · cases now
        · split at now
          · cases now
          · obtain rfl := List.mem_singleton.mp now
            exact inside
      · exact List.Subset.trans (ih _ (same ▸ queryPass_shorter stops) _ rfl pair later) (queryPass_suffix p).subset

private theorem parse_tail {segments : List Bytes} (clean : ∀ segment ∈ segments, 38 ∉ segment ∧ 0 ∉ segment) :
    (parseQueries (tail segments) = segments.flatMap parseQueries ↔ Local false segments) ∧
    ∀ {key}, Pending key →
      (parseQueries (key ++ tail segments) = segments.flatMap parseQueries ↔ Local true segments) := by
  induction segments with
  | nil =>
    refine ⟨iff_of_true parse_nil trivial, fun {key} pending => iff_of_true ?_ trivial⟩
    rw [tail, List.flatMap_nil, List.append_nil, List.flatMap_nil]
    exact pending.parse_open
  | cons segment segments ih =>
    have amp := clean
    obtain ⟨fresh, opened⟩ := ih fun other member => clean other (by simp [member])
    have here := clean segment (by simp)
    have ends := tail_ends segments
    have split : tail (segment :: segments) = 38 :: (segment ++ tail segments) := by
      rw [tail, List.flatMap_cons, List.cons_append]
      rfl
    constructor
    · rw [split, parseQueries_separator (by decide), List.flatMap_cons]
      by_cases flag : Flag segment
      · obtain ⟨none, pending, skip⟩ := parse_flag here.2 flag (tail segments)
        rw [skip, none, List.nil_append, opened pending]
        simp [Local, flag]
      · rw [parse_segment here flag ends, List.append_cancel_left_eq, fresh]
        simp [Local, flag]
    · intro key pending
      rw [split, List.flatMap_cons]
      by_cases equals : 61 ∈ segment
      · obtain ⟨before, after, cut, first, value⟩ := split_equals equals
        have clean := here
        simp only [cut, List.mem_append, List.mem_cons, not_or] at clean
        have goes : Pending (key ++ 38 :: before) :=
          pending.append (by simp [first]) (by simp [clean.2.1])
        have text : key ++ 38 :: (segment ++ tail segments) = (key ++ 38 :: before) ++ 61 :: (after ++ tail segments) := by
          simp [cut]
        rw [text, goes.parse ⟨clean.1.2.2, clean.2.2.2⟩ ends, ← value]
        by_cases none : valueOf segment = []
        · rw [parse_valueless here equals none, none, stored, if_pos rfl, List.nil_append, List.nil_append, fresh]
          simp [Local, equals, none]
        · refine iff_of_false (fun same => ?_) (by simp [Local, equals, none])
          -- the key that went on holds a '&', and no segment does
          have member : ⟨key ++ 38 :: before, valueOf segment⟩ ∈ (segment :: segments).flatMap parseQueries := by
            rw [List.flatMap_cons, ← same, stored, if_neg none]
            simp
          obtain ⟨other, inside, found⟩ := List.mem_flatMap.mp member
          exact (amp other inside).1 (key_subset other _ found (by simp))
      · have bare := parse_bare here.2 equals
        have goes : Pending (key ++ 38 :: segment) := pending.append (by simp [equals]) (by simp [here.2])
        have text : key ++ 38 :: (segment ++ tail segments) = (key ++ 38 :: segment) ++ tail segments := by simp
        rw [text, bare, List.nil_append, opened goes]
        simp [Local, equals]

theorem extracted_eq (method : HttpMethod) (text : Bytes) : extracted method text = some (parseQueries text) := by
  cases method with
  | get =>
    have found : strstr (ascii "?") (63 :: text) = some 0 := by simp [strstr, ascii]
    rw [extracted, deserializeQuery]
    simp only [found, List.drop_zero]
    rw [pushQueries_eq (by simp)]
    simp [parseQueries_separator (show isSeparator 63 by decide)]
  | post | response =>
    rw [extracted, deserializeQuery]
    simp only [List.drop_zero]
    rw [if_neg (by simp [addSize]), pushQueries_eq (by simp)]
    simp

/-- The pairs of a list of segments are those of the segments exactly when no key
goes on from a flag to a segment with a value. -/
theorem extracted_join_iff (method : HttpMethod) {segments : List Bytes}
    (clean : ∀ segment ∈ segments, 38 ∉ segment ∧ 0 ∉ segment) :
    extracted method ([38].intercalate segments) = (segments.mapM (extracted method)).map List.flatten ↔
      Local false segments := by
  have each : segments.mapM (extracted method) = some (segments.map parseQueries) := by
    rw [funext (extracted_eq method)]
    exact List.mapM_pure
  have whole : parseQueries ([38].intercalate segments) = parseQueries (tail segments) := by
    cases segments with
    | nil => rfl
    | cons segment segments =>
      rw [tail_eq, parseQueries_separator (by decide)]
  rw [extracted_eq, each, whole, Option.map_some, Option.some.injEq, ← List.flatMap_def]
  exact (parse_tail clean).1

theorem extracted_join_sample :
    extracted .post ([38].intercalate [ascii "a=b", ascii "c", ascii "d="]) =
        ([ascii "a=b", ascii "c", ascii "d="].mapM (extracted .post)).map List.flatten ↔
      Local false [ascii "a=b", ascii "c", ascii "d="] :=
  extracted_join_iff .post (by decide +kernel)

/-- A bare flag takes the key of the parameter behind it. -/
theorem flag_absorbs :
    ¬ ∀ segments : List Bytes, (∀ segment ∈ segments, 38 ∉ segment ∧ 0 ∉ segment) →
      (∀ segment ∈ segments.head?, peek segment ≠ 63) →
      extracted .post ([38].intercalate segments) = (segments.mapM (extracted .post)).map List.flatten := by
  intro always
  have joined := always [ascii "a", ascii "b=c"] (by decide +kernel) (by decide +kernel)
  revert joined
  decide +kernel

end LibWebserver.IncomingHttpMessage
