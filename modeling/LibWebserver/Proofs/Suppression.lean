import LibWebserver.Suppression
import LibWebserver.Library.RunLength

/-! What can be read back from the records is the sequence of events, exactly if it does not
begin with an empty message, repeated messages belong to equal events, and no counter
wraps around. -/

namespace LibWebserver.Logger
open RunLength

/-- Copies of the last event written, if there is one. -/
def copies (last : Option LoggingEvent) (count : Nat) : List LoggingEvent :=
  (last.map fun event => List.replicate count event).getD []

/-- The last event written and the events read back so far. -/
def readRecord (state : Option LoggingEvent × List LoggingEvent) (record : Record) :
    Option LoggingEvent × List LoggingEvent :=
  match record with
  | .event event => (some event, state.2 ++ [event])
  | .repeated count _ => (state.1, state.2 ++ copies state.1 count)

def readBack (written : List Record) : Option LoggingEvent × List LoggingEvent := written.foldl readRecord (none, [])

/-- Everything read back, and the repeats that are still pending. -/
def restored (appender : SuppressedAppender) : List LoggingEvent :=
  (readBack appender.written).2 ++ copies (readBack appender.written).1 appender.count

variable {appender : SuppressedAppender} {last : LoggingEvent}

theorem readBack_append (written : List Record) (record : Record) :
    readBack (written ++ [record]) = readRecord (readBack written) record := by
  rw [readBack, List.foldl_append, readBack]
  rfl

theorem copies_zero (last : Option LoggingEvent) : copies last 0 = [] := by
  cases last <;> rfl

theorem suppress_repeated {event : LoggingEvent} (same : appender.message = event.message) :
    suppress appender event = { appender with count := (appender.count + 1) % 2 ^ 32 } := by
  rw [suppress, if_neg (not_not_intro same)]

theorem suppress_count {event : LoggingEvent} (other : appender.message ≠ event.message) :
    (suppress appender event).count = 0 := by
  rw [suppress, if_pos other]

theorem readBack_suppress {event : LoggingEvent} (other : appender.message ≠ event.message) :
    readBack (suppress appender event).written = (some event, restored appender ++ [event]) := by
  simp only [suppress, if_pos other, readBack_append, readRecord, restored]
  split
  · rw [readBack_append]
    rfl
  next zero =>
    rw [not_not.mp zero, copies_zero, List.append_nil]

/-- The message remembered is the one of the last event written. -/
structure Remembers (appender : SuppressedAppender) (last : LoggingEvent) : Prop where
  message : appender.message = last.message
  written : (readBack appender.written).1 = some last

theorem remembers_suppress {event : LoggingEvent} (other : appender.message ≠ event.message) :
    Remembers (suppress appender event) event := by
  refine ⟨?_, by rw [readBack_suppress other]⟩
  rw [suppress, if_pos other]

theorem restored_started (remembers : Remembers appender last) (events : List LoggingEvent) :
    restored (events.foldl suppress appender) =
      (readBack appender.written).2 ++ decoded LoggingEvent.message (2 ^ 32) last appender.count events := by
  induction events generalizing appender last with
  | nil =>
    rw [List.foldl_nil, restored, remembers.written, decoded]
    rfl
  | cons event events ih =>
    rw [List.foldl_cons, decoded]
    by_cases same : event.message = last.message
    · rw [if_pos same, suppress_repeated (remembers.message.trans same.symm)]
      exact ih ⟨remembers.message, remembers.written⟩
    · have other : appender.message ≠ event.message := fun equal => same (equal.symm.trans remembers.message)
      rw [if_neg same, ih (remembers_suppress other), readBack_suppress other, suppress_count other, restored,
        remembers.written]
      simp only [copies, Option.map_some, Option.getD_some, List.append_assoc, List.singleton_append]

/-- Before the first event is written, events with an empty message are only counted. -/
theorem restored_unstarted (empty : appender.message = []) (nothing : readBack appender.written = (none, []))
    (events : List LoggingEvent) :
    restored (events.foldl suppress appender) =
      recovered LoggingEvent.message (2 ^ 32) (events.dropWhile fun event => event.message = []) := by
  induction events generalizing appender with
  | nil =>
    rw [List.foldl_nil, restored, nothing]
    rfl
  | cons event events ih =>
    rw [List.foldl_cons]
    by_cases skipped : event.message = []
    · rw [List.dropWhile_cons_of_pos (by simpa using skipped), suppress_repeated (empty.trans skipped.symm)]
      exact ih empty nothing
    · have other : appender.message ≠ event.message := fun equal => skipped (equal.symm.trans empty)
      have front : restored appender = [] := by
        rw [restored, nothing]
        rfl
      rw [List.dropWhile_cons_of_neg (by simpa using skipped), restored_started (remembers_suppress other),
        readBack_suppress other, suppress_count other, front, recovered]
      rfl

theorem restored_iff (priority : Int) (events : List LoggingEvent) :
    restored (events.foldl suppress (created priority)) = events ↔
      (∀ event ∈ events.head?, event.message ≠ []) ∧ Faithful LoggingEvent.message (2 ^ 32) events := by
  rw [restored_unstarted rfl rfl]
  cases events with
  | nil => exact iff_of_true rfl ⟨by simp, (recovered_eq_iff (by decide) []).mp rfl⟩
  | cons event events =>
    by_cases skipped : event.message = []
    · refine iff_of_false ?_ fun both => both.1 event rfl skipped
      intro equal
      rw [List.dropWhile_cons_of_pos (by simpa using skipped)] at equal
      let rest := events.dropWhile fun event => event.message = []
      have sizes : (recovered LoggingEvent.message (2 ^ 32) rest).length = (event :: events).length :=
        congrArg List.length equal
      have fewer : rest.length ≤ events.length := (List.dropWhile_suffix _).length_le
      have less := @length_recovered LoggingEvent Bytes _ LoggingEvent.message (2 ^ 32) rest
      rw [List.length_cons] at sizes
      omega
    · rw [List.dropWhile_cons_of_neg (by simpa using skipped), recovered_eq_iff (by decide)]
      exact (and_iff_right (by simpa using skipped)).symm

/-- Nothing is lost exactly if the first message is not empty, and messages that follow each
other unchanged come with the same category, NDC and priority, at most 2^32 in a row. -/
theorem suppression_lossless_iff (priority : Int) (events : List LoggingEvent) :
    (restored (events.foldl SuppressedFileAppender.append (created priority)) = events ↔
      (∀ event ∈ events.head?, event.message ≠ []) ∧ Faithful LoggingEvent.message (2 ^ 32) events) ∧
    (restored (events.foldl SuppressedRollingFileAppender.append (created priority)) = events ↔
      (∀ event ∈ events.head?, event.message ≠ []) ∧ Faithful LoggingEvent.message (2 ^ 32) events) :=
  ⟨restored_iff priority events, restored_iff priority events⟩

theorem suppression_loses_category :
    restored ([⟨[65], [109], [], 0⟩, ⟨[66], [109], [], 0⟩].foldl SuppressedFileAppender.append (created 0)) ≠
      [⟨[65], [109], [], 0⟩, ⟨[66], [109], [], 0⟩] := by
  decide

end LibWebserver.Logger
