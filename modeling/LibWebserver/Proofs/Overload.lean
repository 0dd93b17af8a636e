import LibWebserver.Proofs.Creation

/-! What becomes of a connection too many: its answer is never sent, and nothing else
notices. -/

namespace LibWebserver
namespace World

variable {w : World} {c : Nat}

/-- The answer to a connection too many is in its queue, or sent to it, at some time. -/
def Reports (c : Nat) (start : World) : Prop :=
  ∃ history after, Run c start history after ∧
    (OutgoingHttpMessage.tooManyConnections.serialize ∈ (after.conn c).outgoing ∨
      OutgoingHttpMessage.tooManyConnections.serialize ∈ history.sent)

/-- A connection that was never connected has nothing queued, whatever is done to it. -/
theorem perform_unconnected (idle : (w.conn c).state ≠ .connected) (operation : Operation) :
    ((w.perform c operation).world.conn c).state ≠ .connected ∧
      ((w.perform c operation).world.conn c).outgoing = (w.conn c).outgoing := by
  have closes : ((w.close c).world.conn c).state ≠ .connected ∧ ((w.close c).world.conn c).outgoing = (w.conn c).outgoing := by
    obtain ⟨fd, same⟩ := close_conn w c
    rw [same]
    exact ⟨nofun, rfl⟩
  cases operation with
  | eventRead result => rw [perform, eventRead, if_pos idle]; exact ⟨idle, rfl⟩
  | eventWrite answers => rw [perform, eventWrite, if_pos idle]; exact ⟨idle, rfl⟩
  | eventError =>
    unfold perform eventError
    dsimp only
    split
    · exact ⟨idle, rfl⟩
    · exact closes
  | sendMessage message => rw [perform, sendMessage_idle idle]; exact ⟨idle, rfl⟩
  | getMessages messages => rw [perform, getMessages, if_pos (.inl idle)]; exact ⟨idle, rfl⟩
  | close => exact closes

theorem run_unconnected {history : History} {after : World} (idle : (w.conn c).state ≠ .connected)
    (empty : (w.conn c).outgoing = []) (run : Run c w history after) :
    (after.conn c).state ≠ .connected ∧ (after.conn c).outgoing = [] ∧ history.sent = [] := by
  induction run with
  | start => exact ⟨idle, empty, rfl⟩
  | @step history middle _ d operation _ ih =>
    obtain ⟨idle, empty, unsent⟩ := ih
    by_cases same : d = c
    · subst same
      obtain ⟨still, queue⟩ := perform_unconnected idle operation
      refine ⟨still, queue.trans empty, ?_⟩
      rw [History.record, empty, unsent, if_pos rfl, sentMessages, List.nil_append]
      refine List.filterMap_eq_nil_iff.mpr fun call _ => ?_
      split <;> rfl
    · rw [record_other same, (perform_confined middle d operation).others c (Ne.symm same)]
      exact ⟨idle, empty, unsent⟩

theorem unreported (idle : (w.conn c).state ≠ .connected) (empty : (w.conn c).outgoing = []) : ¬ Reports c w := by
  rintro ⟨history, after, run, queued | sent⟩
  · rw [(run_unconnected idle empty run).2.1] at queued
    cases queued
  · rw [(run_unconnected idle empty run).2.2] at sent
    cases sent

theorem create_full {maxConnects : Nat} (full : maxConnects ≤ w.server.connections.length) (c : Nat) (answers : PollAnswers)
    (fd : Nat) (options : Options) : ∃ held made, Progress.Made w c held made ∧
      (w.create maxConnects c answers (.incoming fd options)).world = made.world := by
  have made : Progress.Made w c fd ((w.allocate c).setDescriptor c fd) := (Progress.allocate_made w c).setDescriptor fd
  have valid := made.valid
  have refuses {held : Int} {progress : Progress} (made : Progress.Made w c held progress) :
      (progress.accept c maxConnects answers).world = progress.world := by
    unfold Progress.accept
    dsimp only
    rw [Progress.newConnection_full (by rw [made.server]; exact full), Progress.next_thrown rfl]
    exact sendMessage_idle (by rw [Progress.throw, made.state]; decide) _
  unfold create
  dsimp only
  generalize (w.allocate c).setDescriptor c fd = given at made valid
  rcases Progress.setOptions_cases valid options with ⟨_, same⟩ | ⟨_, _, same⟩ | ⟨_, _, same⟩
  · refine ⟨fd, given, made, ?_⟩
    rw [same]
    exact Progress.destroySocket_world _ c
  · refine ⟨fd, given, made, ?_⟩
    rw [same, made.thrown]
    exact refuses made
  · refine ⟨-1, given.closeDescriptor c, made.closeDescriptor, ?_⟩
    rw [same, made.closeDescriptor.thrown]
    exact refuses made.closeDescriptor

/-- The registry and the other connections are as before. -/
structure Unaffected (c : Nat) (w after : World) : Prop where
  connections : after.server.connections = w.server.connections
  activity : after.server.activity = w.server.activity
  others : ∀ d, d ≠ c → after.conn d = w.conn d

theorem Unaffected.trans {middle after : World} (first : Unaffected c w middle) (last : Unaffected c middle after) :
    Unaffected c w after :=
  ⟨last.connections.trans first.connections, last.activity.trans first.activity,
    fun d other => (last.others d other).trans (first.others d other)⟩

theorem unaffected_modify (w : World) (c : Nat) (f : Connection → Connection) : Unaffected c w (w.modify c f) :=
  ⟨rfl, rfl, fun _ other => modify_conn_ne other⟩

theorem unaffected_poll (w : World) (c : Nat) (f : Poll → Poll) : Unaffected c w (w.poll f) := ⟨rfl, rfl, fun _ _ => rfl⟩

theorem unaffected_destroy (self : Progress) (c : Nat) (answers : PollAnswers) :
    Unaffected c self.world (self.destroy c answers).world := by
  have next {progress : Progress} {f : Progress → Progress} (before : Unaffected c self.world progress.world)
      (keeps : Unaffected c progress.world (f progress).world) : Unaffected c self.world (progress.next f).world := by
    unfold Progress.next
    split
    · exact before
    · exact before.trans keeps
  have socket (progress : Progress) : Unaffected c progress.world (progress.destroySocket c).world := by
    rw [Progress.destroySocket_world]
    exact ⟨rfl, rfl, fun _ _ => rfl⟩
  unfold Progress.destroy
  dsimp only
  split
  · exact next ⟨rfl, rfl, fun _ _ => rfl⟩ (socket _)
  · have closing (f : Poll → Poll) : Unaffected c self.world ((self.world.setState c .closing).poll f) :=
      (unaffected_modify self.world c ({ · with state := .closing })).trans (unaffected_poll _ c f)
    refine next (next ?_ ?_) (socket _)
    · dsimp only
      exact closing _
    · dsimp only
      split
      · exact unaffected_modify _ c ({ · with fd := -1 })
      · exact ⟨rfl, rfl, fun _ _ => rfl⟩

/-- A connection too many never has its answer, whatever happens to it; the registry and
the other connections stay as they are, also when it is dropped. -/
theorem overload_unreported {maxConnects : Nat} (full : maxConnects ≤ w.server.connections.length) (c : Nat)
    (answers : PollAnswers) (fd : Nat) (options : Options) :
    let created := w.create maxConnects c answers (.incoming fd options)
    ¬ Reports c created.world ∧ Unaffected c w created.world ∧ Unaffected c w (created.drop c answers).world := by
  obtain ⟨held, progress, made, same⟩ := create_full full c answers fd options
  dsimp only
  have unaffected : Unaffected c w progress.world :=
    ⟨congrArg Server.connections made.server, congrArg Server.activity made.server, made.others⟩
  refine ⟨?_, ?_, ?_⟩
  · rw [same]
    exact unreported (by rw [made.state]; decide) made.queue
  · rw [same]
    exact unaffected
  · unfold Created.drop
    dsimp only
    split
    · rw [same]
      exact unaffected
    · refine unaffected.trans ?_
      rw [← same]
      exact unaffected_destroy { world := (w.create maxConnects c answers (.incoming fd options)).world
                                 closed := (w.create maxConnects c answers (.incoming fd options)).closed
                                 outside := (w.create maxConnects c answers (.incoming fd options)).outside } c answers

/-- A server of one connection, which it has. -/
def crowded : World := (vacant.create 1 0 .granted (.incoming 5 allOptions)).world

theorem overload_unreported_second :
    let created := crowded.create 1 1 .granted (.incoming 6 allOptions)
    ¬ Reports 1 created.world ∧ Unaffected 1 crowded created.world ∧
      Unaffected 1 crowded (created.drop 1 .granted).world :=
  overload_unreported (by decide) 1 .granted 6 allOptions

theorem second_unreported :
    ¬ ∀ (w : World) (maxConnects c : Nat) (answers : PollAnswers) (fd : Nat) (options : Options),
      maxConnects ≤ w.server.connections.length →
        Reports c (w.create maxConnects c answers (.incoming fd options)).world := by
  intro always
  obtain ⟨held, progress, made, same⟩ := create_full (w := crowded) (show 1 ≤ _ by decide) 1 .granted 6
    allOptions
  have reports := always crowded 1 1 .granted 6 allOptions (by decide)
  rw [same] at reports
  exact unreported (by rw [made.state]; decide) made.queue reports

end World
end LibWebserver
