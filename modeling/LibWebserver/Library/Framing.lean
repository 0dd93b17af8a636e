import Mathlib.Data.List.Infix

/-! Incremental parsing of a stream of frames. A receiver appends every read to
what it holds, takes complete messages off the front and keeps the rest for the
next read. When each frame is recognised exactly and none of its proper starts
is, the cuts between reads do not show in the messages. -/

namespace LibWebserver.Framing

universe u v
variable {α : Type u} {β : Type v}

inductive Verdict (β : Type v) where
  | complete (message : β) (size : Nat)
  | incomplete
  | malformed

/-- `Drains parse buffer messages rest clean`: taking messages off `buffer`
yields `messages` and stops at `rest`, at a malformed head unless `clean`. A
parser that gives no verdict, or one that counts past the buffer, drains nothing. -/
inductive Drains (parse : List α → Option (Verdict β)) : List α → List β → List α → Bool → Prop where
  | wait {buffer} (waiting : parse buffer = some .incomplete) : Drains parse buffer [] buffer true
  | reject {buffer} (bad : parse buffer = some .malformed) : Drains parse buffer [] buffer false
  | take {buffer message size messages rest clean}
      (found : parse buffer = some (.complete message size)) (inside : size ≤ buffer.length)
      (more : Drains parse (buffer.drop size) messages rest clean) :
      Drains parse buffer (message :: messages) rest clean

/-- Reads arriving one by one, each drained cleanly, at buffers of a kind. -/
inductive Receives (parse : List α → Option (Verdict β)) (kind : List α → Prop) :
    List α → List (List α) → List β → List α → Prop where
  | done {held} : Receives parse kind held [] [] held
  | read {held chunk chunks messages more rest last} (fits : kind held)
      (drained : Drains parse (held ++ chunk) messages rest true)
      (later : Receives parse kind rest chunks more last) :
      Receives parse kind held (chunk :: chunks) (messages ++ more) last

variable {parse : List α → Option (Verdict β)}

/-- The parser recognises these bytes as this message whatever follows, and
waits on every proper start of them. -/
structure Frame (parse : List α → Option (Verdict β)) (bytes : List α) (message : β) : Prop where
  nonempty : bytes ≠ []
  whole : ∀ rest, parse (bytes ++ rest) = some (.complete message bytes.length)
  waits : ∀ start, start <+: bytes → start ≠ bytes → parse start = some .incomplete

/-- What is held between reads: nothing, or a proper start of the next frame. -/
def Held (frames : List (List α)) (held : List α) : Prop :=
  match frames with
  | [] => held = []
  | frame :: _ => held <+: frame ∧ held ≠ frame

theorem Held.nil {frames : List (List α)} (nonempty : ∀ frame ∈ frames, frame ≠ []) : Held frames [] := by
  cases frames with
  | nil => rfl
  | cons frame frames => exact ⟨List.nil_prefix, (nonempty frame (by simp)).symm⟩

/-- Wherever a stream of frames is cut, the part before the cut is a number of
whole frames and a proper start of the next. -/
theorem cut {frames : List (List α)} (nonempty : ∀ frame ∈ frames, frame ≠ []) {start : List α}
    (within : start <+: frames.flatten) :
    ∃ done later held, frames = done ++ later ∧ start = done.flatten ++ held ∧ Held later held := by
  induction frames generalizing start with
  | nil => exact ⟨[], [], [], rfl, by simpa using within, rfl⟩
  | cons frame frames ih =>
    have rest : ∀ frame ∈ frames, frame ≠ [] := fun other member => nonempty other (by simp [member])
    by_cases whole : frame <+: start
    · obtain ⟨start, rfl⟩ := whole
      have within : start <+: frames.flatten := (List.prefix_append_right_inj frame).mp within
      obtain ⟨done, later, held, rfl, rfl, kept⟩ := ih rest within
      exact ⟨frame :: done, later, held, rfl, by simp, kept⟩
    · refine ⟨[], frame :: frames, start, rfl, rfl, ?_, fun same => whole (same ▸ List.prefix_rfl)⟩
      rw [List.flatten_cons] at within
      exact (List.prefix_or_prefix_of_prefix within (List.prefix_append frame _)).resolve_right whole

theorem drains_frames {frames : List (List α × β)} {held : List α}
    (framed : ∀ frame ∈ frames, Frame parse frame.1 frame.2) (waiting : parse held = some .incomplete) :
    Drains parse ((frames.map Prod.fst).flatten ++ held) (frames.map Prod.snd) held true := by
  induction frames with
  | nil => exact .wait waiting
  | cons frame frames ih =>
    have head := framed frame (by simp)
    have rest := ih (fun other member => framed other (by simp [member]))
    simp only [List.map_cons, List.flatten_cons, List.append_assoc]
    refine .take (head.whole _) (by simp) ?_
    rw [List.drop_left]
    exact rest

theorem Held.waiting {frames : List (List α × β)} {held : List α} (kept : Held (frames.map Prod.fst) held)
    (framed : ∀ frame ∈ frames, Frame parse frame.1 frame.2) (idle : parse [] = some .incomplete) :
    parse held = some .incomplete := by
  cases frames with
  | nil => rw [show held = [] from kept]; exact idle
  | cons frame frames => exact (framed frame (by simp)).waits held kept.1 kept.2

/-- However a stream of frames is cut into reads, the receiver takes exactly
the messages of the frames, in order, and is left with nothing. It never holds
more than the start of a frame. -/
theorem receives_frames {frames : List (List α × β)} (framed : ∀ frame ∈ frames, Frame parse frame.1 frame.2)
    (idle : parse [] = some .incomplete) {kind : List α → Prop} (empty : kind [])
    (starts : ∀ frame ∈ frames, ∀ start, start <+: frame.1 → kind start) {held : List α} {chunks : List (List α)}
    (kept : Held (frames.map Prod.fst) held)
    (stream : held ++ chunks.flatten = (frames.map Prod.fst).flatten) :
    Receives parse kind held chunks (frames.map Prod.snd) [] := by
  induction chunks generalizing frames held with
  | nil =>
    cases frames with
    | nil => rw [show held = [] from kept]; exact .done
    | cons frame frames =>
      obtain ⟨⟨after, same⟩, different⟩ := kept
      rw [List.flatten_nil, List.append_nil, List.map_cons, List.flatten_cons] at stream
      have shorter := congrArg List.length stream
      have longer := congrArg List.length same
      simp only [List.length_append] at shorter longer
      have none : after = [] := List.length_eq_zero_iff.mp (by omega)
      exact absurd (by simpa [none] using same) different
  | cons chunk chunks ih =>
    have nonempty : ∀ frame ∈ frames.map Prod.fst, frame ≠ [] := by
      intro frame member
      obtain ⟨pair, inside, rfl⟩ := List.mem_map.mp member
      exact (framed pair inside).nonempty
    have fits : kind held := by
      cases frames with
      | nil => rw [show held = [] from kept]; exact empty
      | cons frame frames => exact starts frame (by simp) held kept.1
    rw [List.flatten_cons, ← List.append_assoc] at stream
    obtain ⟨done, later, rest, split, start, kept⟩ := cut nonempty (stream ▸ List.prefix_append (held ++ chunk) _)
    obtain ⟨done, later, rfl, rfl, rfl⟩ := List.map_eq_append_iff.mp split
    have framedLater : ∀ frame ∈ later, Frame parse frame.1 frame.2 := fun frame member => framed frame (by simp [member])
    have drained : Drains parse (held ++ chunk) (done.map Prod.snd) rest true := by
      rw [start]
      exact drains_frames (fun frame member => framed frame (by simp [member])) (kept.waiting framedLater idle)
    rw [List.map_append]
    apply Receives.read fits drained
    apply ih framedLater (fun frame member => starts frame (by simp [member])) kept
    rw [start, List.map_append, List.flatten_append, List.append_assoc] at stream
    exact List.append_cancel_left stream

/-- One read within a stream of frames is drained to the start of the next frame. -/
theorem drains_within {frames : List (List α × β)} (framed : ∀ frame ∈ frames, Frame parse frame.1 frame.2)
    (idle : parse [] = some .incomplete) {start : List α} (within : start <+: (frames.map Prod.fst).flatten) :
    ∃ done later rest, frames = done ++ later ∧ start = (done.map Prod.fst).flatten ++ rest ∧
      Held (later.map Prod.fst) rest ∧ Drains parse start (done.map Prod.snd) rest true := by
  have nonempty : ∀ frame ∈ frames.map Prod.fst, frame ≠ [] := by
    intro frame member
    obtain ⟨pair, inside, rfl⟩ := List.mem_map.mp member
    exact (framed pair inside).nonempty
  obtain ⟨done, later, rest, split, same, kept⟩ := cut nonempty within
  obtain ⟨done, later, rfl, rfl, rfl⟩ := List.map_eq_append_iff.mp split
  have waiting := kept.waiting (fun frame member => framed frame (by simp [member])) idle
  refine ⟨done, later, rest, rfl, same, kept, ?_⟩
  rw [same]
  exact drains_frames (fun frame member => framed frame (by simp [member])) waiting

end LibWebserver.Framing
