import LibWebserver.Status

/-! The three histories of every calculation are sliding windows over the samples
it counts. Their capacities divide 900, where the shared position starts again. -/

namespace LibWebserver

namespace Windows

variable {α : Type} {samples : List α} {windows : Windows α}

/-- The position counts the samples, and each history is a window over them. -/
structure Slide (samples : List α) (windows : Windows α) : Prop where
  position : windows.position = samples.length % 900
  history1 : Window.Slides 60 samples windows.history1
  history5 : Window.Slides 300 samples windows.history5
  history15 : Window.Slides 900 samples windows.history15

theorem Slide.initial : Slide ([] : List α) {} := ⟨rfl, .nil 60, .nil 300, .nil 900⟩

theorem Slide.add (slide : Slide samples windows) (sample : α) :
    ∃ after, windows.add sample = some after ∧ Slide (samples ++ [sample]) after := by
  have place := slide.position
  have oldest1 : windows.position % 60 = samples.length % 60 := by omega
  have oldest5 : windows.position % 300 = samples.length % 300 := by omega
  obtain ⟨history1, pushed1, slides1⟩ := slide.history1.push (by decide) oldest1 sample
  obtain ⟨history5, pushed5, slides5⟩ := slide.history5.push (by decide) oldest5 sample
  obtain ⟨history15, pushed15, slides15⟩ := slide.history15.push (by decide) place sample
  rw [Windows.add, pushed1, pushed5, pushed15]
  refine ⟨_, rfl, ?_, slides1, slides5, slides15⟩
  rw [List.length_append, List.length_singleton]
  dsimp only
  split <;> omega

/-- The last samples in some order, as many as each history has room for. -/
def Recent (samples : List α) (windows : Windows α) : Prop :=
  ∀ window ∈ [(60, windows.history1), (300, windows.history5), (900, windows.history15)],
    window.2.length = min samples.length window.1 ∧ window.2.Perm (Window.latest window.1 samples)

theorem Slide.recent (slide : Slide samples windows) : Recent samples windows := by
  intro window member
  simp only [List.mem_cons, List.not_mem_nil, or_false] at member
  rcases member with rfl | rfl | rfl
  · exact ⟨slide.history1.length, slide.history1.perm⟩
  · exact ⟨slide.history5.length, slide.history5.perm⟩
  · exact ⟨slide.history15.length, slide.history15.perm⟩

end Windows

namespace WebserverStatus

variable {single double : Type} [Floating single double] {calls : List Call} {status : WebserverStatus single}

def Call.sustained : Call → Option UInt32
  | .sustainedRate rate => some rate
  | _ => none

def Call.attained : Call → Option UInt32
  | .attainedRate rate => if rate = 0 then none else some rate
  | _ => none

def Call.average (single : Type) [Floating single double] : Call → Option single
  | .latency sum count =>
    let average : single := Floating.div (Floating.ofUnsigned sum) (Floating.ofUnsigned count)
    if sum ≠ 0 ∧ count ≠ 0 ∧ Floating.positive average then some average else none
  | _ => none

/-- Each calculation has its windows over its own samples. -/
structure Slide (calls : List Call) (status : WebserverStatus single) : Prop where
  sustained : status.sustainedRateHistory.Slide (calls.filterMap Call.sustained)
  attained : status.attainedRateHistory.Slide (calls.filterMap Call.attained)
  latency : status.latencyHistory.Slide (calls.filterMap (Call.average single))

private theorem skipped {α : Type} (f : Call → Option α) (call : Call) {windows : Windows α}
    (slide : windows.Slide (calls.filterMap f)) (skips : f call = none) :
    windows.Slide ((calls ++ [call]).filterMap f) := by
  rw [List.filterMap_append, List.filterMap_cons_none skips, List.filterMap_nil, List.append_nil]
  exact slide

private theorem counted {α : Type} (f : Call → Option α) (call : Call) {windows : Windows α} {sample : α}
    (slide : windows.Slide (calls.filterMap f)) (counts : f call = some sample) :
    ∃ after, windows.add sample = some after ∧ after.Slide ((calls ++ [call]).filterMap f) := by
  rw [List.filterMap_append, List.filterMap_cons_some counts, List.filterMap_nil]
  exact slide.add sample

theorem Slide.sustainedRate (slide : Slide calls status) (rate : UInt32) :
    ∃ after, status.calculateSustainedRate rate = some after ∧ Slide (calls ++ [.sustainedRate rate]) after := by
  obtain ⟨after, added, slides⟩ := counted Call.sustained (.sustainedRate rate) slide.sustained rfl
  rw [calculateSustainedRate, added]
  exact ⟨_, rfl, slides, skipped _ _ slide.attained rfl, skipped _ _ slide.latency rfl⟩

theorem Slide.attainedRate (slide : Slide calls status) (rate : UInt32) :
    ∃ after, status.calculateAttainedRate rate = some after ∧ Slide (calls ++ [.attainedRate rate]) after := by
  by_cases idle : rate = 0
  · refine ⟨status, if_pos idle, skipped _ _ slide.sustained rfl, skipped _ _ slide.attained ?_,
      skipped _ _ slide.latency rfl⟩
    exact if_pos idle
  · obtain ⟨after, added, slides⟩ := counted Call.attained (.attainedRate rate) slide.attained (if_neg idle)
    rw [calculateAttainedRate, if_neg idle]
    dsimp only
    rw [added]
    exact ⟨_, rfl, skipped _ _ slide.sustained rfl, slides, skipped _ _ slide.latency rfl⟩

theorem Slide.latencyTick (slide : Slide calls status) (sum count : UInt32) :
    ∃ after, { status with fastLatencySum := sum, fastLatencyCount := count }.calculateLatency = some after ∧
      Slide (calls ++ [.latency sum count]) after := by
  have sustained := skipped Call.sustained (.latency sum count) slide.sustained rfl
  have attained := skipped Call.attained (.latency sum count) slide.attained rfl
  unfold calculateLatency
  dsimp only
  by_cases served : sum ≠ 0 ∧ count ≠ 0
  · rw [if_pos served]
    by_cases positive : Floating.positive
        (Floating.div (Floating.ofUnsigned sum) (Floating.ofUnsigned count) : single)
    · obtain ⟨after, added, slides⟩ := counted (Call.average single) (.latency sum count) slide.latency
        (if_pos ⟨served.1, served.2, positive⟩)
      rw [if_pos positive, added]
      exact ⟨_, rfl, sustained, attained, slides⟩
    · rw [if_neg positive]
      refine ⟨_, rfl, sustained, attained, skipped _ _ slide.latency ?_⟩
      exact if_neg fun all => positive all.2.2
  · rw [if_neg served]
    refine ⟨_, rfl, sustained, attained, skipped _ _ slide.latency ?_⟩
    exact if_neg fun all => served ⟨all.1, all.2.1⟩

theorem Slide.next (slide : Slide calls status) (call : Call) :
    ∃ after, status.call call = some after ∧ Slide (calls ++ [call]) after := by
  cases call with
  | sustainedRate rate => exact slide.sustainedRate rate
  | attainedRate rate => exact slide.attainedRate rate
  | latency sum count => exact slide.latencyTick sum count

theorem Slide.run (slide : Slide calls status) (more : List Call) :
    ∃ after, more.foldlM call status = some after ∧ Slide (calls ++ more) after := by
  induction more generalizing calls status with
  | nil => exact ⟨status, rfl, (List.append_nil calls).symm ▸ slide⟩
  | cons call more ih =>
    obtain ⟨next, called, slides⟩ := slide.next call
    obtain ⟨after, ran, kept⟩ := ih slides
    refine ⟨after, ?_, by rwa [List.append_assoc] at kept⟩
    rw [List.foldlM_cons, called]
    exact ran

/-- After any calls the histories hold the last samples of their calculation, and no
index was out of range. -/
theorem histories_slide (calls : List Call) :
    ∃ after : WebserverStatus single, calls.foldlM call {} = some after ∧
      after.sustainedRateHistory.Recent (calls.filterMap Call.sustained) ∧
      after.attainedRateHistory.Recent (calls.filterMap Call.attained) ∧
      after.latencyHistory.Recent (calls.filterMap (Call.average single)) := by
  have start : Slide [] ({} : WebserverStatus single) := ⟨.initial, .initial, .initial⟩
  obtain ⟨after, ran, slides⟩ := start.run calls
  exact ⟨after, ran, slides.sustained.recent, slides.attained.recent, slides.latency.recent⟩

end WebserverStatus
end LibWebserver
