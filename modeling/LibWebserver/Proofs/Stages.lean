import LibWebserver.Interleaving
import LibWebserver.Proofs.Creation

/-! An operation that no other thread comes between is the operation as a whole: its
stages, one after another, come to the same world. -/

namespace LibWebserver

namespace Poll

variable {κ : Type} {self : Poll} {event : Nat} {fd : Int}

/-- With a kernel that does what it is told, the poll is as if there were none. -/
theorem removeCtl_granted (self : Poll) (event : Nat) (fd : Int) (branch : Branch) (bit : UInt32) :
    self.removeCtl (answering PollAnswers.granted.remove branch) () event fd bit =
      { poll := self.remove fd bit, kernel := () } := by
  unfold removeCtl modifyCtl remove modify
  dsimp only
  split <;> rfl

theorem closeCtl_granted (self : Poll) (event : Nat) (fd : Int) :
    self.closeCtl (answering PollAnswers.granted.remove) () event fd =
      match (((self.removeRead fd).removeWrite fd).removeError fd).closeEvent event fd with
      | .error error =>
        { poll := ((self.removeRead fd).removeWrite fd).removeError fd, kernel := (), thrown := some error }
      | .ok poll => { poll, kernel := () } := by
  unfold closeCtl removeReadCtl removeWriteCtl removeErrorCtl
  rw [removeCtl_granted, Controlled.next_made, removeCtl_granted, Controlled.next_made, removeCtl_granted,
    Controlled.next_made]
  rfl

end Poll

/-- The stages from one on, without another thread, come to a world. -/
inductive Completes (maxConnects : Nat) (answers : PollAnswers) (c : Nat) : World → Stage → World → Prop where
  | ends {w after stage} (last : stage.step maxConnects answers w c = (after, none)) :
      Completes maxConnects answers c w stage after
  | next {w middle after stage later} (moves : stage.step maxConnects answers w c = (middle, some later))
      (rest : Completes maxConnects answers c middle later after) : Completes maxConnects answers c w stage after

namespace World

variable {maxConnects c : Nat} {w : World}

theorem unsubscribe_detach (w : World) (c : Nat) :
    ((w.setState c .closing).deleteConnection c).server.poll.closeCtl (answering PollAnswers.granted.remove) () c
        (((w.setState c .closing).deleteConnection c).descriptor c) =
      match (w.detach c).server.poll.closeEvent c (w.descriptor c) with
      | .error error => { poll := (w.detach c).server.poll, kernel := (), thrown := some error }
      | .ok poll => { poll, kernel := () } := by
  have held : ((w.setState c .closing).deleteConnection c).descriptor c = w.descriptor c := by
    rw [World.descriptor, deleteConnection_conn, setState_conn]
    rfl
  rw [held, Poll.closeCtl_granted]
  rfl

theorem close_completes (maxConnects : Nat) (w : World) (c : Nat) :
    Completes maxConnects .granted c w .close (w.close c).world := by
  by_cases closing : (w.conn c).state = .closing
  · rw [close_idle closing]
    exact .ends (if_pos closing)
  refine .next (if_neg closing) (.next rfl ?_)
  have removed := unsubscribe_detach w c
  rw [close_eq closing]
  cases closed : (w.detach c).server.poll.closeEvent c (w.descriptor c) with
  | error error =>
    rw [closed] at removed
    refine .ends ?_
    unfold Stage.step
    dsimp only
    rw [removed]
    rfl
  | ok poll =>
    rw [closed] at removed
    refine @Completes.next _ _ c _ ((w.detach c).poll fun _ => poll) _ _ .release ?_ (.ends ?_)
    · unfold Stage.step
      dsimp only
      rw [removed]
      rfl
    · have held : ((w.detach c).poll fun _ => poll).descriptor c = w.descriptor c := by
        rw [World.descriptor, poll_conn, detach_conn]
        rfl
      unfold Stage.step
      dsimp only
      rw [held]

theorem process_completes {ended : Ended} (done : w.processEventRead c = some ended) :
    Completes maxConnects .granted c w .process ended.world := by
  have run := Option.join_eq_some_iff.mp done
  generalize (w.conn c).buffer.length + 1 = fuel at run
  clear done
  induction fuel generalizing w with
  | zero => cases run
  | succ fuel ih =>
    unfold Loop.run at run
    cases moved : processStep c w with
    | exit result =>
      rw [moved] at run
      obtain rfl : result = some ended := Option.some.inj run
      refine .ends ?_
      unfold Stage.step
      dsimp only
      rw [moved]
    | next after =>
      rw [moved] at run
      refine .next ?_ (ih run)
      unfold Stage.step
      dsimp only
      rw [moved]

theorem eventRead_completes {result : RecvResult} {ended : Ended} (done : w.eventRead c result = some ended) :
    Completes maxConnects .granted c w (.eventRead result) ended.world := by
  unfold eventRead at done
  split at done
  next idle =>
    cases done
    exact .ends (if_pos idle)
  next connected =>
    have enters {later : Stage} {middle after : World} (rest : Completes maxConnects .granted c middle later after)
        (moves : Stage.step maxConnects .granted w c (.eventRead result) = (middle, some later)) :
        Completes maxConnects .granted c w (.eventRead result) after := .next moves rest
    dsimp only at done
    split at done
    next error read =>
      cases done
      refine enters (close_completes maxConnects _ c) ?_
      unfold Stage.step
      dsimp only
      rw [if_neg connected, read]
    next len read =>
      split at done
      next error adjusted =>
        cases done
        refine .ends ?_
        unfold Stage.step
        dsimp only
        rw [if_neg connected, read]
        dsimp only
        rw [adjusted]
      next buffer adjusted =>
        split at done
        next zero =>
          cases done
          refine .ends ?_
          unfold Stage.step
          dsimp only
          rw [if_neg connected, read]
          dsimp only
          rw [adjusted]
          exact if_pos zero
        next some =>
          refine enters (process_completes done) ?_
          unfold Stage.step
          dsimp only
          rw [if_neg connected, read]
          dsimp only
          rw [adjusted]
          exact if_neg some

theorem writeMessages_completes {position : Nat} {messages : List OutgoingHttpMessage} {sends : List SendResult}
    (returned : (writeMessages c position messages sends w).returned) :
    Completes maxConnects .granted c w (.write position messages sends) (writeMessages c position messages sends w).world := by
  induction messages generalizing position sends with
  | nil => exact .ends rfl
  | cons message messages ih =>
    rw [writeMessages] at returned ⊢
    by_cases connected : (w.conn c).state = .connected
    swap
    · rw [if_pos connected]
      exact .ends (if_pos connected)
    rw [if_neg (not_not.mpr connected)] at returned ⊢
    dsimp only at returned ⊢
    cases outcome : (writeMessage (w.descriptor c) position message.getLength sends).outcome with
    | none =>
      rw [outcome] at returned
      cases returned
    | some sent =>
      rw [outcome] at returned
      cases sent with
      | error error =>
        refine .next ?_ (close_completes maxConnects w c)
        unfold Stage.step
        dsimp only
        rw [if_neg (not_not.mpr connected), outcome]
      | ok count =>
        dsimp only at returned ⊢
        by_cases persistent : message.isPersistent
        · rw [if_pos persistent] at returned ⊢
          refine .next ?_ (ih returned)
          unfold Stage.step
          dsimp only
          rw [if_neg (not_not.mpr connected), outcome]
          dsimp only
          rw [if_pos persistent]
        · rw [if_neg persistent]
          refine .next ?_ (close_completes maxConnects w c)
          unfold Stage.step
          dsimp only
          rw [if_neg (not_not.mpr connected), outcome]
          dsimp only
          rw [if_neg persistent]

/-- Alone, the stages of an operation that returns are the operation. -/
theorem perform_completes (maxConnects : Nat) {operation : Operation} (returned : (w.perform c operation).returned) :
    Completes maxConnects .granted c w operation.stage (w.perform c operation).world := by
  cases operation with
  | eventRead result =>
    unfold perform at returned ⊢
    dsimp only at returned ⊢
    cases done : w.eventRead c result with
    | none =>
      rw [done] at returned
      cases returned
    | some ended => exact eventRead_completes done
  | eventWrite sends =>
    unfold perform eventWrite at *
    dsimp only at returned ⊢
    split
    next idle => exact .ends (if_pos idle)
    next connected =>
      rw [if_neg connected] at returned
      split
      next empty =>
        refine .ends ?_
        unfold Operation.stage Stage.step
        dsimp only
        rw [if_neg connected, if_pos empty]
      next queued =>
        rw [if_neg queued] at returned
        refine .next ?_ (writeMessages_completes returned)
        unfold Operation.stage Stage.step
        dsimp only
        rw [if_neg connected, if_neg queued]
  | eventError =>
    unfold perform eventError
    dsimp only
    split
    next inactive => exact .ends (if_pos inactive)
    next active => exact .next (if_neg active) (close_completes maxConnects w c)
  | sendMessage message => exact .ends rfl
  | getMessages messages => exact .ends rfl
  | close => exact close_completes maxConnects w c

theorem destroy_completes (maxConnects : Nat) (progress : Progress) (opened : (progress.world.conn c).state ≠ .closing)
    (answers : PollAnswers) :
    Completes maxConnects answers c progress.world .destroy (progress.destroy c answers).world := by
  refine .next (if_neg opened) ?_
  unfold Progress.destroy
  dsimp only
  rw [if_neg opened]
  generalize unsubscribed : Poll.closeCtl (answering answers.remove) (progress.world.setState c .closing).server.poll () c
      ((progress.world.setState c .closing).descriptor c) = removed
  have step : Stage.step maxConnects answers (progress.world.setState c .closing) c .unsubscribe =
      ((progress.world.setState c .closing).poll fun _ => removed.poll,
        if removed.thrown.isSome then none else some .release) := by
    rw [← unsubscribed]
    rfl
  cases thrown : removed.thrown with
  | some error =>
    have left : ({ progress with
        world := (progress.world.setState c .closing).poll fun _ => removed.poll
        thrown := some error } : Progress).thrown = some error := rfl
    rw [Progress.next_thrown left, Progress.next_thrown left]
    exact .ends (by rw [step, thrown]; rfl)
  | none =>
    rw [Progress.next_made]
    dsimp only
    refine .next (by rw [step, thrown]; rfl) (.ends ?_)
    unfold Stage.step
    dsimp only
    split
    · rw [Progress.next_ok rfl, Progress.destroySocket_world]
      rfl
    · rw [Progress.next_ok rfl, Progress.destroySocket_world]

theorem drop_completes (maxConnects : Nat) {given : Progress} {fd : Int} (made : given.Made w c fd)
    {opened : List Nat} (unused : w.Unused c opened) (answers : PollAnswers) :
    Completes maxConnects answers c (given.world.sendMessage c .tooManyConnections) .destroy
      ((Progress.finish { given with world := given.world.sendMessage c .tooManyConnections } .returned).drop c
        answers).world := by
  have idle : (given.world.conn c).state ≠ .connected := by rw [made.state]; decide
  rw [sendMessage_idle idle]
  unfold Created.drop
  dsimp only
  rw [if_neg]
  · let progress : Progress := { world := given.world, closed := given.closed, outside := given.outside }
    have opened : (progress.world.conn c).state ≠ .closing := by
      change (given.world.conn c).state ≠ .closing
      rw [made.state]
      decide
    exact destroy_completes maxConnects progress opened answers
  · rintro (member | member)
    · exact unused.connections (made.server ▸ member)
    · exact unused.activity (made.server ▸ member)

theorem initialise_completes (maxConnects : Nat) {inserted : Progress} (registered : c ∈ inserted.world.server.connections)
    (answers : PollAnswers) :
    Completes maxConnects answers c inserted.world .initialise
      (Created.drop (match (inserted.initialise c answers).thrown with
        | none => (inserted.initialise c answers).finish .returned
        | some .tooManyConnectionsError =>
          Progress.finish { inserted.initialise c answers with
            world := (inserted.initialise c answers).world.sendMessage c .tooManyConnections } .returned
        | some error => (inserted.initialise c answers).leave c answers error) c answers).world := by
  have kept : c ∈ (inserted.initialise c answers).world.server.connections := by
    rw [Progress.initialise_connections]
    exact registered
  have stays (created : Created) (same : created.world = (inserted.initialise c answers).world) :
      (created.drop c answers).world = (inserted.initialise c answers).world := by
    unfold Created.drop
    dsimp only
    rw [if_pos (.inl (same ▸ kept)), same]
  have step : Stage.step maxConnects answers inserted.world c .initialise =
      (inserted.world.poll fun _ => (inserted.world.server.poll.initialiseCtl (answering answers.insert) () c
          (inserted.world.descriptor c)).poll,
        if (inserted.initialise c answers).thrown.isSome then none else some .connect) := rfl
  obtain ⟨-, done⟩ | ⟨-, error, caught, failed⟩ :=
    inserted.world.server.poll.initialiseCtl_thrown c (inserted.world.descriptor c) answers.insert
  · rw [Progress.initialise_thrown] at step ⊢
    rw [done] at step ⊢
    rw [stays _ rfl]
    refine .next step (.ends ?_)
    rw [Progress.initialise]
    dsimp only
    rw [done]
    rfl
  · rw [Progress.initialise_thrown] at step ⊢
    rw [failed] at step ⊢
    have left : (inserted.initialise c answers).leave c answers error =
        (inserted.initialise c answers).finish (.thrown error) := if_pos (.inl kept)
    have caught : (match some error with
        | none => (inserted.initialise c answers).finish .returned
        | some .tooManyConnectionsError =>
          Progress.finish { inserted.initialise c answers with
            world := (inserted.initialise c answers).world.sendMessage c .tooManyConnections } .returned
        | some error => (inserted.initialise c answers).leave c answers error) =
          (inserted.initialise c answers).finish (.thrown error) := by
      rw [← left]
      cases error with
      | tooManyConnectionsError => exact absurd rfl caught
      | _ => rfl
    rw [caught, stays _ rfl]
    refine .ends (step.trans ?_)
    rw [Progress.initialise]
    dsimp only
    rw [failed]
    rfl

/-- Behind its constructor, `Create` is its stages; the listener drops what it refuses. -/
theorem create_completes (maxConnects : Nat) (answers : PollAnswers) {fd : Nat} (unused : w.Unused c [fd]) :
    Completes maxConnects answers c (w.modify c fun _ => .create fd) .register
      ((w.create maxConnects c answers (.incoming fd allOptions)).drop c answers).world := by
  have made : Progress.Made w c fd ((w.allocate c).setDescriptor c fd) := (Progress.allocate_made w c).setDescriptor fd
  have start : ((w.allocate c).setDescriptor c fd).world = w.modify c fun _ => .create fd :=
    modify_modify w c (fun _ => .create (-1)) ({ · with fd := (fd : Int) })
  have set : ((w.allocate c).setDescriptor c fd).setOptions c allOptions = (w.allocate c).setDescriptor c fd := by
    have valid : ¬ ((w.allocate c).setDescriptor c fd).world.descriptor c < 0 := by
      rw [World.descriptor, made.held]
      omega
    simp [Progress.setOptions, allOptions, valid]
  unfold create
  dsimp only
  rw [set, made.thrown, ← start]
  generalize (w.allocate c).setDescriptor c fd = given at made
  dsimp only
  unfold Progress.accept
  dsimp only
  by_cases full : maxConnects ≤ w.server.connections.length
  · have size : maxConnects ≤ given.world.server.connections.length := by rw [made.server]; exact full
    rw [Progress.newConnection_full size, Progress.next_thrown rfl]
    exact .next (if_pos size) (drop_completes maxConnects made unused answers)
  · have size : ¬ given.world.server.connections.length ≥ maxConnects := by rw [made.server]; exact full
    have inserted : given.newConnection c maxConnects = { given with world := given.world.insertConnection c } := if_neg size
    obtain ⟨_, same, _, _, _, _, member⟩ := made.newConnection full
    have registered := member unused.connections (unused.others fd List.mem_cons_self)
    rw [← same, inserted] at registered
    rw [inserted]
    unfold Progress.next
    rw [if_neg (by rw [made.thrown]; exact Bool.noConfusion)]
    exact .next (if_neg size) (initialise_completes maxConnects registered answers)

end World
end LibWebserver
