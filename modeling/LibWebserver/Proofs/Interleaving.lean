import LibWebserver.Interleaving
import LibWebserver.Library.Refinement
import LibWebserver.Proofs.Lifecycle

/-! The registry under any interleaving of threads. A connection is in it from the moment
it is registered to the moment it is deleted, and keeps its descriptor in between. -/

namespace LibWebserver

/-- The stages of `Create`. -/
def Stage.Making : Stage → Prop
  | .register | .initialise | .connect | .destroy => True
  | _ => False

instance (stage : Stage) : Decidable stage.Making := by
  unfold Stage.Making
  split <;> infer_instance

namespace Threads

variable {maxConnects c : Nat} {self : Threads}

/-- No connection is closed by a thread while another is in the middle of an operation on
it. `Close` is not called while it is being made. A handler may run all that time. -/
def Apart (self : Threads) : Turn → Prop
  | .start _ c .close _ => ∀ other also, self.task other = some also → also.connection = c → ¬ also.stage.Making
  | .advance thread => ∀ task, self.task thread = some task → task.stage = .close →
    (self.world.conn task.connection).state ≠ .closing →
    ∀ other also, self.task other = some also → also.connection = task.connection → other ≠ thread → also.stage.Making
  | _ => True

/-- The state of a connection is set, and its deletion comes next. -/
def Deleting (self : Threads) (c : Nat) : Prop :=
  ∃ thread task, self.task thread = some task ∧ task.connection = c ∧ task.stage = .delete

/-- The registry between two turns. -/
structure Sound (maxConnects : Nat) (threads : Threads) : Prop where
  size : threads.world.server.connections.length ≤ maxConnects
  activity : ∀ c ∈ threads.world.server.activity, c ∈ threads.world.server.connections
  closing : ∀ c ∈ threads.world.server.connections, (threads.world.conn c).state = .closing → threads.Deleting c
  valid : ∀ c ∈ threads.world.server.connections, 0 ≤ threads.world.descriptor c
  distinct : ∀ c ∈ threads.world.server.connections, ∀ d ∈ threads.world.server.connections,
    threads.world.descriptor c = threads.world.descriptor d → c = d

/-- What a thread knows of its connection at a stage. -/
def Fits (w : World) (c : Nat) : Stage → Prop
  | .register => c ∉ w.server.connections ∧ (w.conn c).state = .inactive ∧ 0 ≤ w.descriptor c
  | .initialise | .connect => c ∈ w.server.connections ∧ (w.conn c).state = .inactive
  | .destroy => c ∉ w.server.connections ∧ (w.conn c).state = .inactive
  | .process => (w.conn c).state = .connected
  | .delete => (w.conn c).state = .closing
  | .unsubscribe | .release => c ∉ w.server.connections ∧ (w.conn c).state = .closing
  | _ => True

/-- What holds between turns as long as no other thread closes a connection. It is made
by one thread, and while it is, none is about to close it. -/
structure Orderly (maxConnects : Nat) (threads : Threads) : Prop extends Sound maxConnects threads where
  made : ∀ c ∈ threads.world.server.connections, c ∈ threads.made
  held : ∀ c ∈ threads.made, ∀ d ∈ threads.made, 0 ≤ threads.world.descriptor c →
    threads.world.descriptor c = threads.world.descriptor d → c = d
  connected : ∀ c, (threads.world.conn c).state = .connected → c ∈ threads.world.server.connections
  fits : ∀ thread task, threads.task thread = some task →
    task.connection ∈ threads.made ∧ Fits threads.world task.connection task.stage
  apart : ∀ thread other task also, threads.task thread = some task → threads.task other = some also →
    task.connection = also.connection → thread ≠ other → task.stage.Making → ¬ also.stage.Making ∧ also.stage ≠ .close

/-- A stage of one connection leaves the others as they are. -/
structure Within (c : Nat) (w after : World) : Prop where
  fd : ∀ d, d ≠ c → after.descriptor d = w.descriptor d
  state : ∀ d, d ≠ c → (after.conn d).state = (w.conn d).state
  connections : ∀ d, d ≠ c → (d ∈ after.server.connections ↔ d ∈ w.server.connections)
  activity : ∀ d ∈ after.server.activity, d ∈ w.server.activity ∨ d = c

/-- The next stage fits. Only making leads to making, and nothing leads to closing a
connection while it is made. -/
def Leads (c : Nat) (stage : Stage) (w after : World) (next : Option Stage) : Prop :=
  ∀ later ∈ next, Fits after c later ∧ (later.Making → stage.Making) ∧ (later = .close → (w.conn c).state ≠ .inactive)

/-- Its own connection after a stage, and what the next stage may rely on. A connection
is closing in the registry only while a thread deletes it. -/
structure Settled (maxConnects c : Nat) (stage : Stage) (w after : World) (next : Option Stage) : Prop where
  size : after.server.connections.length ≤ maxConnects
  activity : c ∈ after.server.activity → c ∈ after.server.connections
  valid : c ∈ after.server.connections → 0 ≤ after.descriptor c
  fd : after.descriptor c = w.descriptor c ∨ after.descriptor c = -1
  connected : (after.conn c).state = .connected → c ∈ after.server.connections
  closing : c ∈ after.server.connections → (after.conn c).state = .closing →
    next = some .delete ∨ stage ≠ .delete ∧ c ∈ w.server.connections ∧ (w.conn c).state = .closing
  leads : Leads c stage w after next

theorem Leads.none {stage : Stage} {w after : World} : Leads c stage w after none := nofun

/-- Where nothing is made, it is enough that the stage fits and does not close. -/
theorem Leads.of_fits {stage later : Stage} {w after : World} (fits : Fits after c later) (made : ¬ later.Making)
    (unclosed : later ≠ .close) : Leads c stage w after (some later) := by
  intro other next
  cases next
  exact ⟨fits, fun making => absurd making made, fun close => absurd close unclosed⟩

theorem Leads.of_active {stage : Stage} {w after : World} (active : (w.conn c).state ≠ .inactive) :
    Leads c stage w after (some .close) := by
  intro other next
  cases next
  exact ⟨trivial, fun making => absurd making id, fun _ => active⟩

theorem Within.fits {w after : World} (within : Within c w after) {d : Nat} (other : d ≠ c) {stage : Stage}
    (fits : Fits w d stage) : Fits after d stage := by
  have fd := within.fd d other
  have state := within.state d other
  have member := within.connections d other
  cases stage <;> simp only [Fits, fd, state, member] at * <;> exact fits

theorem Fits.inactive {w : World} {stage : Stage} (fits : Fits w c stage) (making : stage.Making) :
    (w.conn c).state = .inactive := by
  cases stage with
  | register => exact fits.2.1
  | initialise | connect | destroy => exact fits.2
  | _ => exact absurd making id

theorem Fits.made {w after : World} {stage : Stage} (fits : Fits w c stage) (inactive : (w.conn c).state = .inactive)
    (other : ¬ stage.Making) : Fits after c stage := by
  cases stage with
  | register | initialise | connect | destroy => exact absurd trivial other
  | process | delete => exact nomatch inactive.symm.trans fits
  | unsubscribe | release => exact nomatch inactive.symm.trans fits.2
  | _ => trivial

theorem Fits.closing {w after : World} {stage : Stage} (fits : Fits w c stage) (closing : (w.conn c).state = .closing)
    (still : (after.conn c).state = .closing) (gone : c ∉ after.server.connections) : Fits after c stage := by
  cases stage with
  | register => exact nomatch closing.symm.trans fits.2.1
  | initialise | connect | destroy => exact nomatch closing.symm.trans fits.2
  | process => exact nomatch closing.symm.trans fits
  | delete => exact still
  | unsubscribe | release => exact ⟨gone, still⟩
  | _ => trivial

/-- A thread after its stage. -/
def goOn (self : Threads) (thread : Nat) (task : Task) (after : World) (next : Option Stage) : Threads :=
  { self with world := after, task := Function.update self.task thread (next.map fun stage => { task with stage }) }

variable {thread : Nat} {task : Task} {after : World} {next : Option Stage}

theorem goOn_other {other : Nat} (different : other ≠ thread) :
    (self.goOn thread task after next).task other = self.task other := Function.update_of_ne different _ _

theorem goOn_cases {other : Nat} {also : Task} (there : (self.goOn thread task after next).task other = some also) :
    other = thread ∧ (∃ stage ∈ next, also = { task with stage }) ∨ other ≠ thread ∧ self.task other = some also := by
  by_cases same : other = thread
  · subst same
    have updated : (self.goOn other task after next).task other = next.map fun stage => { task with stage } :=
      Function.update_self _ _ _
    rw [updated] at there
    obtain ⟨stage, member, equal⟩ := Option.map_eq_some_iff.mp there
    exact .inl ⟨rfl, stage, member, equal.symm⟩
  · rw [goOn_other same] at there
    exact .inr ⟨same, there⟩

theorem Deleting.goOn (here : self.task thread = some task) {d : Nat} (other : d ≠ task.connection ∨ task.stage ≠ .delete)
    (deleting : self.Deleting d) : (self.goOn thread task after next).Deleting d := by
  obtain ⟨deleter, also, there, same, stage⟩ := deleting
  refine ⟨deleter, also, ?_, same, stage⟩
  have different : deleter ≠ thread := by
    rintro rfl
    rw [here] at there
    cases there
    exact other.elim (fun apart => apart same.symm) fun apart => apart stage
  rw [goOn_other different, there]

private theorem held_within (within : Within c self.world after)
    (fd : after.descriptor c = self.world.descriptor c ∨ after.descriptor c = -1)
    (held : ∀ d ∈ self.made, ∀ e ∈ self.made, 0 ≤ self.world.descriptor d →
      self.world.descriptor d = self.world.descriptor e → d = e)
    {d e : Nat} (first : d ∈ self.made) (second : e ∈ self.made) (valid : 0 ≤ after.descriptor d)
    (same : after.descriptor d = after.descriptor e) : d = e := by
  have keeps {d : Nat} (valid : 0 ≤ after.descriptor d) : after.descriptor d = self.world.descriptor d := by
    by_cases own : d = c
    · subst own
      exact fd.resolve_right fun released => by omega
    · exact within.fd d own
  refine held d first e second ?_ ?_
  · rw [← keeps valid]
    exact valid
  · rw [← keeps valid, ← keeps (same ▸ valid)]
    exact same

/-- What the other threads know of a connection stays so. -/
def Others (self : Threads) (thread c : Nat) (after : World) : Prop :=
  ∀ other also, self.task other = some also → also.connection = c → other ≠ thread → Fits after c also.stage

/-- A thread that makes a connection stays the only one on it, but for those that neither make nor close it. -/
theorem Orderly.apart_goOn (orderly : self.Orderly maxConnects) (here : self.task thread = some task)
    (leads : Leads task.connection task.stage self.world after next) {other third : Nat} {also another : Task}
    (there : (self.goOn thread task after next).task other = some also)
    (yonder : (self.goOn thread task after next).task third = some another) (same : also.connection = another.connection)
    (different : other ≠ third) (making : also.stage.Making) : ¬ another.stage.Making ∧ another.stage ≠ .close := by
  obtain ⟨rfl, stage, member, rfl⟩ | ⟨_, before⟩ := goOn_cases there
  · obtain ⟨rfl, _⟩ | ⟨_, later⟩ := goOn_cases yonder
    · exact absurd rfl different
    · exact orderly.apart other third task another here later same different ((leads stage member).2.1 making)
  · obtain ⟨rfl, stage, member, rfl⟩ | ⟨_, later⟩ := goOn_cases yonder
    · obtain ⟨_, onward, closes⟩ := leads stage member
      have inactive : (self.world.conn task.connection).state = .inactive := by
        rw [← same]
        exact (orderly.fits other also before).2.inactive making
      exact ⟨fun still => (orderly.apart other third also task before here same different making).1 (onward still),
        fun close => closes close inactive⟩
    · exact orderly.apart other third also another before later same different making

theorem Orderly.goOn (orderly : self.Orderly maxConnects) (here : self.task thread = some task)
    (within : Within task.connection self.world after)
    (settled : Settled maxConnects task.connection task.stage self.world after next)
    (others : self.Others thread task.connection after) : (self.goOn thread task after next).Orderly maxConnects := by
  obtain ⟨known, _⟩ := orderly.fits thread task here
  have valid : ∀ d ∈ after.server.connections, 0 ≤ after.descriptor d := by
    intro d member
    by_cases own : d = task.connection
    · subst own
      exact settled.valid member
    · rw [within.fd d own]
      exact orderly.valid d ((within.connections d own).mp member)
  have made : ∀ d ∈ after.server.connections, d ∈ self.made := by
    intro d member
    by_cases own : d = task.connection
    · rw [own]
      exact known
    · exact orderly.made d ((within.connections d own).mp member)
  have held : ∀ d ∈ self.made, ∀ e ∈ self.made, 0 ≤ after.descriptor d → after.descriptor d = after.descriptor e → d = e :=
    fun d first e second => held_within within settled.fd orderly.held first second
  refine { size := settled.size, activity := fun d member => ?_, closing := fun d member state => ?_, valid, made, held
           distinct := fun d first e second => held d (made d first) e (made e second) (valid d first)
           connected := fun d state => ?_, fits := fun other also there => ?_
           apart := fun other third also another there yonder same different making => ?_ }
  · by_cases own : d = task.connection
    · subst own
      exact settled.activity member
    · exact (within.connections d own).mpr (orderly.activity d ((within.activity d member).resolve_right own))
  · by_cases own : d = task.connection
    · subst own
      rcases settled.closing member state with same | ⟨keeps, before, closing⟩
      · refine ⟨thread, { task with stage := .delete }, ?_, rfl, rfl⟩
        change Function.update self.task thread _ thread = _
        rw [Function.update_self, same]
        rfl
      · exact Deleting.goOn here (.inr keeps) (orderly.closing _ before closing)
    · refine Deleting.goOn here (.inl own) (orderly.closing d ((within.connections d own).mp member) ?_)
      rw [← within.state d own]
      exact state
  · by_cases own : d = task.connection
    · subst own
      exact settled.connected state
    · refine (within.connections d own).mpr (orderly.connected d ?_)
      rw [← within.state d own]
      exact state
  · obtain ⟨rfl, stage, member, rfl⟩ | ⟨different, before⟩ := goOn_cases there
    · exact ⟨known, (settled.leads stage member).1⟩
    · obtain ⟨member, fits⟩ := orderly.fits other also before
      by_cases own : also.connection = task.connection
      · exact ⟨member, own ▸ others other also before own different⟩
      · exact ⟨member, within.fits own fits⟩
  · exact orderly.apart_goOn here settled.leads there yonder same different making

/-- Nothing the registry would notice, but for activity on a connection that is connected. -/
structure Quiet (c : Nat) (w after : World) : Prop where
  fd : ∀ d, after.descriptor d = w.descriptor d
  state : ∀ d, (after.conn d).state = (w.conn d).state
  connections : after.server.connections = w.server.connections
  activity : ∀ d ∈ after.server.activity, d ∈ w.server.activity ∨ d = c ∧ (w.conn c).state = .connected

theorem Quiet.refl (c : Nat) (w : World) : Quiet c w w := ⟨fun _ => rfl, fun _ => rfl, rfl, fun _ => .inl⟩

theorem Quiet.of_steady {w : World} (steady : World.Steady c w after) (connected : (w.conn c).state = .connected) :
    Quiet c w after where
  fd d := by
    by_cases own : d = c
    · rw [own]
      exact steady.fd
    · rw [World.descriptor, steady.others d own]
      rfl
  state d := by
    by_cases own : d = c
    · rw [own]
      exact steady.state
    · rw [steady.others d own]
  connections := steady.connections
  activity d member := (steady.activity d member).imp id fun own => ⟨own, connected⟩

theorem Quiet.within {w : World} (quiet : Quiet c w after) : Within c w after :=
  ⟨fun d _ => quiet.fd d, fun d _ => quiet.state d, fun d _ => by rw [quiet.connections],
    fun d member => (quiet.activity d member).imp id And.left⟩

theorem Quiet.fits {w : World} (quiet : Quiet c w after) {stage : Stage} (fits : Fits w c stage) : Fits after c stage := by
  cases stage <;> simp only [Fits, quiet.fd, quiet.state, quiet.connections] at * <;> exact fits

/-- A connection in the registry that is closing is being deleted by a thread. -/
theorem Orderly.quiet (orderly : self.Orderly maxConnects) (here : self.task thread = some task)
    (quiet : Quiet task.connection self.world after) (stays : task.stage ≠ .delete)
    (leads : Leads task.connection task.stage self.world after next) : (self.goOn thread task after next).Orderly maxConnects := by
  refine orderly.goOn here quiet.within ⟨?_, ?_, ?_, .inl (quiet.fd _), ?_, ?_, leads⟩ fun other also there same _ => ?_
  · rw [quiet.connections]
    exact orderly.size
  · intro active
    rw [quiet.connections]
    exact (quiet.activity _ active).elim (orderly.activity _) fun connected => orderly.connected _ connected.2
  · rw [quiet.connections, quiet.fd]
    exact orderly.valid _
  · rw [quiet.connections, quiet.state]
    exact orderly.connected _
  · rw [quiet.connections, quiet.state]
    exact fun member closing => .inr ⟨stays, member, closing⟩
  · rw [← same] at quiet ⊢
    exact quiet.fits (orderly.fits other also there).2

variable {w : World} {answers : PollAnswers}

theorem step_initialise (fits : Fits w c .initialise) : Quiet c w (Stage.step maxConnects answers w c .initialise).1 ∧
    Leads c .initialise w (Stage.step maxConnects answers w c .initialise).1
      (Stage.step maxConnects answers w c .initialise).2 := by
  refine ⟨⟨fun _ => rfl, fun _ => rfl, rfl, fun _ => .inl⟩, ?_⟩
  unfold Stage.step
  dsimp only
  split
  · exact .none
  · intro later next
    cases next
    exact ⟨fits, id, nofun⟩

theorem step_unsubscribe (fits : Fits w c .unsubscribe) : Quiet c w (Stage.step maxConnects answers w c .unsubscribe).1 ∧
    Leads c .unsubscribe w (Stage.step maxConnects answers w c .unsubscribe).1
      (Stage.step maxConnects answers w c .unsubscribe).2 := by
  refine ⟨⟨fun _ => rfl, fun _ => rfl, rfl, fun _ => .inl⟩, ?_⟩
  unfold Stage.step
  dsimp only
  split
  · exact .none
  · exact .of_fits fits id nofun

theorem step_eventRead (result : RecvResult) :
    Quiet c w (Stage.step maxConnects answers w c (.eventRead result)).1 ∧
      Leads c (.eventRead result) w (Stage.step maxConnects answers w c (.eventRead result)).1
        (Stage.step maxConnects answers w c (.eventRead result)).2 := by
  unfold Stage.step
  dsimp only
  split
  · exact ⟨.refl c w, .none⟩
  next connected =>
    have connected := not_not.mp connected
    have active : (w.conn c).state ≠ .inactive := by rw [connected]; decide
    have stored (buffer : CString) : Quiet c w (w.setBuffer c buffer) :=
      .of_steady (World.steady_modify rfl rfl) connected
    have adjusted (first buffer : CString) : Quiet c w ((w.setBuffer c first).setBuffer c buffer) := by
      rw [World.setBuffer_setBuffer]
      exact stored buffer
    split
    · exact ⟨stored _, .of_active active⟩
    · split
      · exact ⟨stored _, .none⟩
      · split
        · exact ⟨adjusted _ _, .none⟩
        · exact ⟨adjusted _ _, .of_fits (((adjusted _ _).state c).trans connected) id nofun⟩

theorem step_process (connected : (w.conn c).state = .connected) :
    Quiet c w (Stage.step maxConnects answers w c .process).1 ∧
      Leads c .process w (Stage.step maxConnects answers w c .process).1 (Stage.step maxConnects answers w c .process).2 := by
  unfold Stage.step
  cases moved : World.processStep c w with
  | next after =>
    have quiet : Quiet c w after := .of_steady (World.serves_processStep.1 w after moved).toSteady connected
    exact ⟨quiet, .of_fits ((quiet.state c).trans connected) id nofun⟩
  | exit result =>
    cases result with
    | some ended => exact ⟨.of_steady (World.serves_processStep.2 w ended moved).toSteady connected, .none⟩
    | none => exact ⟨.refl c w, .of_fits connected id nofun⟩

theorem step_eventWrite (sends : List SendResult) :
    Quiet c w (Stage.step maxConnects answers w c (.eventWrite sends)).1 ∧
      Leads c (.eventWrite sends) w (Stage.step maxConnects answers w c (.eventWrite sends)).1
        (Stage.step maxConnects answers w c (.eventWrite sends)).2 := by
  unfold Stage.step
  dsimp only
  split
  · exact ⟨.refl c w, .none⟩
  next connected =>
    split
    · exact ⟨⟨fun _ => rfl, fun _ => rfl, rfl, fun _ => .inl⟩, .none⟩
    · have taken : World.Steady c w (w.modify c ({ · with outgoing := [] })) := World.steady_modify rfl rfl
      exact ⟨.of_steady taken (not_not.mp connected), .of_fits trivial id nofun⟩

theorem step_write (position : Nat) (messages : List OutgoingHttpMessage) (sends : List SendResult) :
    (Stage.step maxConnects answers w c (.write position messages sends)).1 = w ∧
      Leads c (.write position messages sends) w w
        (Stage.step maxConnects answers w c (.write position messages sends)).2 := by
  cases messages with
  | nil => exact ⟨rfl, .none⟩
  | cons message messages =>
    unfold Stage.step
    dsimp only
    split
    · exact ⟨rfl, .none⟩
    next connected =>
      have active : (w.conn c).state ≠ .inactive := by rw [not_not.mp connected]; decide
      split
      · exact ⟨rfl, .of_fits trivial id nofun⟩
      · exact ⟨rfl, .of_active active⟩
      · refine ⟨rfl, ?_⟩
        dsimp only
        split
        · exact .of_fits trivial id nofun
        · exact .of_active active

theorem step_sendMessage (message : OutgoingHttpMessage) : Quiet c w (w.sendMessage c message) := by
  by_cases connected : (w.conn c).state = .connected
  · exact .of_steady (World.serves_sendMessage w c message).toSteady connected
  · rw [World.sendMessage_idle connected]
    exact .refl c w

theorem step_getMessages (messages : List IncomingHttpMessage) : Quiet c w (w.getMessages c messages).2.2 := by
  unfold World.getMessages
  split
  · exact .refl c w
  next waiting =>
    have swapped : World.Steady c w (w.modify c ({ · with incoming := messages })) := World.steady_modify rfl rfl
    exact .of_steady swapped (not_not.mp (not_or.mp waiting).1)

theorem within_modify (w : World) (c : Nat) (f : Connection → Connection) : Within c w (w.modify c f) where
  fd d other := by rw [World.descriptor, World.modify_conn_ne other]; rfl
  state d other := by rw [World.modify_conn_ne other]
  connections _ _ := Iff.rfl
  activity _ := .inl

theorem Orderly.setState (orderly : self.Orderly maxConnects) (here : self.task thread = some task) (state : State)
    (connected : state = .connected → task.connection ∈ self.world.server.connections)
    (closing : task.connection ∈ self.world.server.connections → state = .closing → next = some .delete)
    (leads : Leads task.connection task.stage self.world (self.world.setState task.connection state) next)
    (others : self.Others thread task.connection (self.world.setState task.connection state)) :
    (self.goOn thread task (self.world.setState task.connection state) next).Orderly maxConnects := by
  refine orderly.goOn here (within_modify _ _ _) ⟨orderly.size, orderly.activity _, ?_, ?_, ?_, ?_, leads⟩ others
  · rw [World.descriptor, World.setState_conn]
    exact orderly.valid _
  · rw [World.descriptor, World.setState_conn]
    exact .inl rfl
  · rw [World.setState_conn]
    exact connected
  · rw [World.setState_conn]
    exact fun member same => .inl (closing member same)

/-- The thread that makes a connection is the only one that relies on its state. -/
theorem Orderly.others_making (orderly : self.Orderly maxConnects) (here : self.task thread = some task)
    (making : task.stage.Making) (after : World) : self.Others thread task.connection after := by
  intro other also there same different
  have inactive := (orderly.fits thread task here).2.inactive making
  have apart := (orderly.apart thread other task also here there same.symm (Ne.symm different) making).1
  rw [← same] at inactive ⊢
  exact (orderly.fits other also there).2.made inactive apart

/-- The thread that deletes a connection finds all others done with it. -/
theorem Orderly.others_closing (orderly : self.Orderly maxConnects)
    (closing : (self.world.conn c).state = .closing) (still : (after.conn c).state = .closing)
    (gone : c ∉ after.server.connections) : self.Others thread c after := by
  intro other also there same _
  subst same
  exact (orderly.fits other also there).2.closing closing still gone

theorem Orderly.mem_insert (orderly : self.Orderly maxConnects) (known : c ∈ self.made) (new : c ∉ self.world.server.connections) :
    (∀ d, d ∈ (self.world.insertConnection c).server.connections ↔ d = c ∨ d ∈ self.world.server.connections) ∧
      (self.world.insertConnection c).server.connections.length = self.world.server.connections.length + 1 := by
  have different : ¬ ∃ other ∈ self.world.server.connections, self.world.descriptor other = self.world.descriptor c := by
    rintro ⟨other, member, same⟩
    exact new (orderly.held other (orderly.made other member) c known (orderly.valid other member) same ▸ member)
  have inserted : (self.world.insertConnection c).server.connections = self.world.server.connections.orderedInsert
      (fun a b => self.world.descriptor a ≤ self.world.descriptor b) c := if_neg different
  rw [inserted]
  exact ⟨fun d => List.mem_orderedInsert _, List.orderedInsert_length _ _ _⟩

theorem Orderly.insert (orderly : self.Orderly maxConnects) (here : self.task thread = some task) (stage : task.stage = .register)
    (fits : Fits self.world task.connection .register) (room : ¬ maxConnects ≤ self.world.server.connections.length) :
    (self.goOn thread task (self.world.insertConnection task.connection) (some .initialise)).Orderly maxConnects := by
  obtain ⟨known, _⟩ := orderly.fits thread task here
  obtain ⟨new, inactive, valid⟩ := fits
  obtain ⟨members, length⟩ := orderly.mem_insert known new
  have inside : task.connection ∈ (self.world.insertConnection task.connection).server.connections :=
    (members _).mpr (.inl rfl)
  refine orderly.goOn here ⟨fun _ _ => rfl, fun _ _ => rfl, fun d other => ?_, fun _ => .inl⟩
    ⟨by omega, fun _ => inside, fun _ => valid, .inl rfl, fun _ => inside, fun _ closing => ?_, fun later next => ?_⟩
    (orderly.others_making here (by rw [stage]; trivial) _)
  · rw [members]
    exact ⟨fun either => either.resolve_left other, .inr⟩
  · exact nomatch inactive.symm.trans closing
  · cases next
    exact ⟨⟨inside, inactive⟩, fun _ => by rw [stage]; trivial, nofun⟩

theorem Orderly.mem_erase (orderly : self.Orderly maxConnects) (known : c ∈ self.made) {set : List Nat}
    (subset : ∀ d ∈ set, d ∈ self.world.server.connections) {d : Nat} :
    d ∈ Server.eraseSet self.world.descriptor c set ↔ d ∈ set ∧ d ≠ c := by
  unfold Server.eraseSet
  rw [List.mem_filter, decide_eq_true_iff]
  refine and_congr_right fun member => not_congr ⟨fun same => ?_, fun same => by rw [same]⟩
  exact orderly.held d (orderly.made d (subset d member)) c known (orderly.valid d (subset d member)) same

theorem Orderly.delete (orderly : self.Orderly maxConnects) (here : self.task thread = some task)
    (fits : Fits self.world task.connection .delete) :
    (self.goOn thread task (self.world.deleteConnection task.connection) (some .unsubscribe)).Orderly maxConnects := by
  obtain ⟨known, _⟩ := orderly.fits thread task here
  have gone : task.connection ∉ (self.world.deleteConnection task.connection).server.connections :=
    Server.not_mem_eraseSet _
  refine orderly.goOn here ⟨fun _ _ => rfl, fun _ _ => rfl, fun d other => ?_, fun d member => ?_⟩
    ⟨?_, fun active => ?_, fun member => ?_, .inl rfl, fun connected => ?_, fun member => ?_, ?_⟩
    (orderly.others_closing fits fits gone)
  · change d ∈ Server.eraseSet _ _ _ ↔ _
    rw [orderly.mem_erase known fun _ => id]
    exact and_iff_left other
  · exact .inl (Server.eraseSet_subset _ member)
  · exact (List.length_filter_le _ _).trans orderly.size
  · exact absurd active (Server.not_mem_eraseSet _)
  · exact absurd member gone
  · exact nomatch (fits : (self.world.conn task.connection).state = .closing).symm.trans connected
  · exact absurd member gone
  · exact Leads.of_fits ⟨gone, fits⟩ id nofun

theorem Orderly.release (orderly : self.Orderly maxConnects) (here : self.task thread = some task)
    (fits : Fits self.world task.connection .release) :
    (self.goOn thread task (self.world.modify task.connection ({ · with fd := -1 })) none).Orderly maxConnects := by
  obtain ⟨gone, closing⟩ := fits
  have still : ((self.world.modify task.connection ({ · with fd := -1 })).conn task.connection).state = .closing := by
    rw [World.modify_conn]
    exact closing
  refine orderly.goOn here (within_modify _ _ _) ⟨orderly.size, orderly.activity _, fun member => absurd member gone, ?_,
    ?_, fun member => absurd member gone, nofun⟩ (orderly.others_closing closing still gone)
  · rw [World.descriptor, World.modify_conn]
    exact .inr rfl
  · rw [World.modify_conn]
    exact orderly.connected _

theorem Orderly.registers (orderly : self.Orderly maxConnects) (here : self.task thread = some ⟨c, .register, answers⟩) :
    (self.goOn thread ⟨c, .register, answers⟩ (Stage.register.step maxConnects answers self.world c).1
      (Stage.register.step maxConnects answers self.world c).2).Orderly maxConnects := by
  obtain ⟨_, fits⟩ := orderly.fits thread _ here
  unfold Stage.step
  dsimp only
  split
  · have idle : (self.world.conn c).state ≠ .connected := by rw [fits.2.1]; decide
    rw [World.sendMessage_idle idle]
    refine orderly.quiet here (.refl _ _) nofun fun stage next => ?_
    cases next
    exact ⟨⟨fits.1, fits.2.1⟩, id, nofun⟩
  next room => exact orderly.insert here rfl fits room

theorem Orderly.destroys (orderly : self.Orderly maxConnects) (here : self.task thread = some ⟨c, .destroy, answers⟩) :
    (self.goOn thread ⟨c, .destroy, answers⟩ (Stage.destroy.step maxConnects answers self.world c).1
      (Stage.destroy.step maxConnects answers self.world c).2).Orderly maxConnects := by
  obtain ⟨_, fits⟩ := orderly.fits thread _ here
  unfold Stage.step
  dsimp only
  split
  · exact orderly.quiet here (.refl _ _) nofun .none
  · refine orderly.setState here .closing nofun (fun member => absurd member fits.1) ?_ (orderly.others_making here trivial _)
    exact .of_fits ⟨fits.1, by rw [World.setState_conn]⟩ id nofun

theorem Orderly.closes (orderly : self.Orderly maxConnects) (here : self.task thread = some ⟨c, .close, answers⟩)
    (apart : self.Apart (.advance thread)) :
    (self.goOn thread ⟨c, .close, answers⟩ (Stage.close.step maxConnects answers self.world c).1
      (Stage.close.step maxConnects answers self.world c).2).Orderly maxConnects := by
  unfold Stage.step
  dsimp only
  split
  · exact orderly.quiet here (.refl _ _) nofun .none
  next unclosed =>
    refine orderly.setState here .closing nofun (fun _ _ => rfl) ?_ ?_
    · exact .of_fits (show (_ : Connection).state = _ by rw [World.setState_conn]) id nofun
    -- no other thread is on the connection: `apart` leaves those that make it, and they never meet a `Close`
    · intro other also there same different
      have make := apart _ here rfl unclosed other also there same different
      exact absurd rfl (orderly.apart other thread also _ there here same different make).2

/-- Whatever stage a thread is at, it goes on in order. -/
theorem Orderly.advance (orderly : self.Orderly maxConnects) (here : self.task thread = some task)
    (apart : self.Apart (.advance thread)) :
    (self.goOn thread task (task.stage.step maxConnects task.answers self.world task.connection).1
      (task.stage.step maxConnects task.answers self.world task.connection).2).Orderly maxConnects := by
  obtain ⟨c, stage, answers⟩ := task
  obtain ⟨known, fits⟩ := orderly.fits thread _ here
  cases stage with
  | register => exact orderly.registers here
  | initialise =>
    obtain ⟨quiet, next⟩ := step_initialise fits
    exact orderly.quiet here quiet nofun next
  | connect => exact orderly.setState here .connected (fun _ => fits.1) nofun .none (orderly.others_making here trivial _)
  | destroy => exact orderly.destroys here
  | eventRead result =>
    obtain ⟨quiet, next⟩ := step_eventRead result
    exact orderly.quiet here quiet nofun next
  | process =>
    obtain ⟨quiet, next⟩ := step_process fits
    exact orderly.quiet here quiet nofun next
  | eventWrite sends =>
    obtain ⟨quiet, next⟩ := step_eventWrite sends
    exact orderly.quiet here quiet nofun next
  | write position messages sends =>
    obtain ⟨same, next⟩ := step_write position messages sends
    rw [same]
    exact orderly.quiet here (.refl _ _) nofun next
  | eventError =>
    unfold Stage.step
    dsimp only
    split
    · exact orderly.quiet here (.refl _ _) nofun .none
    next active => exact orderly.quiet here (.refl _ _) nofun (.of_active active)
  | sendMessage message => exact orderly.quiet here (step_sendMessage message) nofun .none
  | getMessages messages => exact orderly.quiet here (step_getMessages messages) nofun .none
  | close => exact orderly.closes here apart
  | delete => exact orderly.delete here fits
  | unsubscribe =>
    obtain ⟨quiet, next⟩ := step_unsubscribe fits
    exact orderly.quiet here quiet nofun next
  | release =>
    unfold Stage.step
    dsimp only
    split
    · exact orderly.release here fits
    · exact orderly.quiet here (.refl _ _) nofun .none

theorem begin_cases {tasks : Nat → Option Task} {begun also : Task} {other : Nat}
    (there : Function.update tasks thread (some begun) other = some also) :
    other = thread ∧ also = begun ∨ other ≠ thread ∧ tasks other = some also := by
  by_cases same : other = thread
  · subst same
    rw [Function.update_self] at there
    exact .inl ⟨rfl, (Option.some.inj there).symm⟩
  · rw [Function.update_of_ne same] at there
    exact .inr ⟨same, there⟩

theorem Deleting.begin (idle : self.task thread = none) {d : Nat} (deleting : self.Deleting d) (world : World)
    (made : List Nat) (begun : Task) :
    Deleting { world, made, task := Function.update self.task thread (some begun) } d := by
  obtain ⟨deleter, also, there, same, stage⟩ := deleting
  refine ⟨deleter, also, ?_, same, stage⟩
  have different : deleter ≠ thread := by
    rintro rfl
    rw [idle] at there
    cases there
  exact (Function.update_of_ne different _ _).trans there

theorem Orderly.start (orderly : self.Orderly maxConnects) (idle : self.task thread = none) (known : c ∈ self.made)
    (operation : Operation) (answers : PollAnswers) (apart : self.Apart (.start thread c operation answers)) :
    Orderly maxConnects { self with
      task := Function.update self.task thread (some { connection := c, stage := operation.stage, answers }) } where
  toSound :=
    { size := orderly.size, activity := orderly.activity, valid := orderly.valid, distinct := orderly.distinct
      closing := fun d member state => (orderly.closing d member state).begin idle _ _ _ }
  made := orderly.made
  held := orderly.held
  connected := orderly.connected
  fits other also there := by
    obtain ⟨rfl, rfl⟩ | ⟨_, before⟩ := begin_cases there
    · exact ⟨known, by cases operation <;> trivial⟩
    · exact orderly.fits other also before
  apart other third also another there yonder same different making := by
    obtain ⟨rfl, rfl⟩ | ⟨_, before⟩ := begin_cases there
    · cases operation <;> exact absurd making id
    · obtain ⟨rfl, rfl⟩ | ⟨_, later⟩ := begin_cases yonder
      · cases operation with
        | close => exact absurd making (apart other also before same)
        | _ => exact ⟨id, nofun⟩
      · exact orderly.apart other third also another before later same different making

theorem Orderly.held_create (orderly : self.Orderly maxConnects) (new : c ∉ self.made) {fd : Nat}
    (given : ∀ d ∈ self.made, self.world.descriptor d ≠ fd) :
    ∀ d ∈ c :: self.made, ∀ e ∈ c :: self.made, 0 ≤ (self.world.modify c fun _ => .create fd).descriptor d →
      (self.world.modify c fun _ => .create fd).descriptor d = (self.world.modify c fun _ => .create fd).descriptor e →
      d = e := by
  have within := within_modify self.world c fun _ => .create fd
  have own : (self.world.modify c fun _ => .create fd).descriptor c = fd := by
    rw [World.descriptor, World.modify_conn]
    rfl
  have apart {d : Nat} (member : d ∈ self.made) : d ≠ c := fun same => new (same ▸ member)
  intro d first e second valid same
  obtain equal | one := List.mem_cons.mp first
  · obtain also | two := List.mem_cons.mp second
    · rw [equal, also]
    · rw [equal, own, within.fd e (apart two)] at same
      exact absurd same.symm (given e two)
  · obtain equal | two := List.mem_cons.mp second
    · rw [equal, own, within.fd d (apart one)] at same
      exact absurd same (given d one)
    · rw [within.fd d (apart one)] at valid same
      rw [within.fd e (apart two)] at same
      exact orderly.held d one e two valid same

theorem Orderly.create (orderly : self.Orderly maxConnects) (idle : self.task thread = none) (new : c ∉ self.made) {fd : Nat}
    (given : ∀ d ∈ self.made, self.world.descriptor d ≠ fd) (answers : PollAnswers) :
    Orderly maxConnects
      { world := self.world.modify c fun _ => .create fd, made := c :: self.made
        task := Function.update self.task thread (some { connection := c, stage := .register, answers }) } := by
  have within := within_modify self.world c fun _ => .create fd
  have outside : c ∉ self.world.server.connections := fun member => new (orderly.made c member)
  have own : (self.world.modify c fun _ => .create fd).descriptor c = fd := by
    rw [World.descriptor, World.modify_conn]
    rfl
  have apart {d : Nat} (member : d ∈ self.made) : d ≠ c := fun same => new (same ▸ member)
  have held := orderly.held_create new given
  have different {d : Nat} (member : d ∈ self.world.server.connections) : d ≠ c := fun same => outside (same ▸ member)
  have made : ∀ d ∈ self.world.server.connections, d ∈ c :: self.made :=
    fun d member => List.mem_cons_of_mem c (orderly.made d member)
  have valid : ∀ d ∈ self.world.server.connections, 0 ≤ (self.world.modify c fun _ => .create fd).descriptor d := by
    intro d member
    rw [within.fd d (different member)]
    exact orderly.valid d member
  refine { size := orderly.size, activity := orderly.activity, valid, made, held
           distinct := fun d first e second => held d (made d first) e (made e second) (valid d first)
           closing := fun d member state => ?_, connected := fun d state => ?_, fits := fun other also there => ?_
           apart := fun other third also another there yonder same different making => ?_ }
  · refine (orderly.closing d member ?_).begin idle _ _ _
    rw [← within.state d (different member)]
    exact state
  · refine orderly.connected d ?_
    by_cases same : d = c
    · subst same
      change ((self.world.modify d fun _ => .create fd).conn d).state = .connected at state
      rw [World.modify_conn] at state
      cases state
    · rw [← within.state d same]
      exact state
  · obtain ⟨rfl, rfl⟩ | ⟨_, before⟩ := begin_cases there
    · refine ⟨List.mem_cons_self, outside, ?_, ?_⟩
      · change ((self.world.modify c fun _ => .create fd).conn c).state = .inactive
        rw [World.modify_conn]
        rfl
      · exact own.symm ▸ Int.natCast_nonneg fd
    · obtain ⟨member, fits⟩ := orderly.fits other also before
      exact ⟨List.mem_cons_of_mem c member, within.fits (apart member) fits⟩
  · have foreign {other : Nat} {also : Task} (before : self.task other = some also) : also.connection ≠ c :=
      apart (orderly.fits other also before).1
    obtain ⟨rfl, rfl⟩ | ⟨_, before⟩ := begin_cases there
    · obtain ⟨rfl, _⟩ | ⟨_, later⟩ := begin_cases yonder
      · exact absurd rfl different
      · exact absurd same.symm (foreign later)
    · obtain ⟨rfl, rfl⟩ | ⟨_, later⟩ := begin_cases yonder
      · exact absurd same (foreign before)
      · exact orderly.apart other third also another before later same different making

theorem Orderly.getActiveConnection (orderly : self.Orderly maxConnects) :
    (self.step maxConnects .getActiveConnection).Orderly maxConnects where
  toSound :=
    { size := orderly.size, valid := orderly.valid, distinct := orderly.distinct, closing := orderly.closing
      activity := fun d member => orderly.activity d (List.mem_of_mem_tail member) }
  made := orderly.made
  held := orderly.held
  connected := orderly.connected
  fits := orderly.fits
  apart := orderly.apart

theorem Orderly.step (orderly : self.Orderly maxConnects) (turn : Turn) (apart : self.Apart turn) :
    (self.step maxConnects turn).Orderly maxConnects := by
  cases turn with
  | create thread c fd answers =>
    unfold Threads.step
    dsimp only
    split
    next possible => exact orderly.create possible.1 possible.2.1 possible.2.2 answers
    next => exact orderly
  | start thread c operation answers =>
    unfold Threads.step
    dsimp only
    split
    next possible => exact orderly.start possible.1 possible.2 operation answers apart
    next => exact orderly
  | advance thread =>
    unfold Threads.step
    dsimp only
    split
    next => exact orderly
    next task here => exact orderly.advance here apart
  | getActiveConnection => exact orderly.getActiveConnection

/-- Only `Descriptor().Close()` changes a descriptor. -/
theorem step_descriptor {stage : Stage} (fits : Fits w c stage) (keeps : stage ≠ .release) (d : Nat) :
    (Stage.step maxConnects answers w c stage).1.descriptor d = w.descriptor d := by
  cases stage with
  | register =>
    unfold Stage.step
    dsimp only
    split
    · have idle : (w.conn c).state ≠ .connected := by rw [fits.2.1]; decide
      rw [World.sendMessage_idle idle]
    · rfl
  | initialise | delete | unsubscribe => rfl
  | connect => exact World.setState_descriptor w c _ d
  | destroy | close =>
    unfold Stage.step
    dsimp only
    split
    · rfl
    · exact World.setState_descriptor w c _ d
  | eventRead result => exact (step_eventRead result).1.fd d
  | process => exact (step_process fits).1.fd d
  | eventWrite sends => exact (step_eventWrite sends).1.fd d
  | write position messages sends => rw [(step_write position messages sends).1]
  | eventError =>
    unfold Stage.step
    dsimp only
    split <;> rfl
  | sendMessage message => exact (step_sendMessage message).fd d
  | getMessages messages => exact (step_getMessages messages).fd d
  | release => exact absurd rfl keeps

/-- A member keeps its descriptor, and inserting and erasing take effect. -/
structure Effective (maxConnects : Nat) (threads : Threads) (turn : Turn) : Prop where
  descriptor : ∀ c ∈ threads.world.server.connections,
    (threads.step maxConnects turn).world.descriptor c = threads.world.descriptor c
  inserts : ∀ thread task, turn = .advance thread → threads.task thread = some task → task.stage = .register →
    threads.world.server.connections.length < maxConnects → task.connection ∉ threads.world.server.connections ∧
      ∀ d, d ∈ (threads.step maxConnects turn).world.server.connections ↔
        d = task.connection ∨ d ∈ threads.world.server.connections
  erases : ∀ thread task, turn = .advance thread → threads.task thread = some task → task.stage = .delete →
    (∀ d, d ∈ (threads.step maxConnects turn).world.server.connections ↔
      d ∈ threads.world.server.connections ∧ d ≠ task.connection) ∧
    ∀ d, d ∈ (threads.step maxConnects turn).world.server.activity ↔
      d ∈ threads.world.server.activity ∧ d ≠ task.connection

theorem step_advance (here : self.task thread = some task) : self.step maxConnects (.advance thread) =
    self.goOn thread task (task.stage.step maxConnects task.answers self.world task.connection).1
      (task.stage.step maxConnects task.answers self.world task.connection).2 := by
  unfold Threads.step
  dsimp only
  rw [here]
  rfl

theorem Orderly.effective (orderly : self.Orderly maxConnects) (turn : Turn) : self.Effective maxConnects turn where
  descriptor c member := by
    cases turn with
    | create thread d fd answers =>
      unfold Threads.step
      dsimp only
      split
      next possible =>
        have other : c ≠ d := fun same => possible.2.1 (same ▸ orderly.made c member)
        exact (within_modify self.world d fun _ => .create fd).fd c other
      next => rfl
    | start thread d operation answers =>
      unfold Threads.step
      dsimp only
      split <;> rfl
    | advance thread =>
      cases here : self.task thread with
      | none =>
        unfold Threads.step
        dsimp only
        rw [here]
      | some task =>
        rw [step_advance here]
        obtain ⟨_, fits⟩ := orderly.fits thread task here
        by_cases releases : task.stage = .release
        · rw [releases] at fits ⊢
          have other : c ≠ task.connection := fun same => fits.1 (same ▸ member)
          change (Stage.step maxConnects task.answers self.world task.connection .release).1.descriptor c = _
          unfold Stage.step
          dsimp only
          split
          · exact (within_modify self.world task.connection ({ · with fd := -1 })).fd c other
          · rfl
        · exact step_descriptor fits releases c
    | getActiveConnection => rfl
  inserts thread task turns here stage room := by
    subst turns
    obtain ⟨known, fits⟩ := orderly.fits thread task here
    rw [stage] at fits
    rw [step_advance here, stage]
    unfold Stage.step Threads.goOn
    dsimp only
    rw [if_neg (by omega)]
    exact ⟨fits.1, (orderly.mem_insert known fits.1).1⟩
  erases thread task turns here stage := by
    subst turns
    obtain ⟨known, _⟩ := orderly.fits thread task here
    rw [step_advance here, stage]
    exact ⟨fun d => orderly.mem_erase known fun _ => id, fun d => orderly.mem_erase known orderly.activity⟩

theorem orderly_start (maxConnects size : Nat) : (Threads.start size).Orderly maxConnects where
  size := Nat.zero_le _
  activity _ member := absurd member List.not_mem_nil
  closing _ member := absurd member List.not_mem_nil
  valid _ member := absurd member List.not_mem_nil
  distinct _ member := absurd member List.not_mem_nil
  made _ member := absurd member List.not_mem_nil
  held _ member := absurd member List.not_mem_nil
  connected _ := nofun
  fits _ _ := nofun
  apart _ _ _ _ := nofun

/-- No connection is closed by a thread while another is in the middle of an operation on it. -/
abbrev InTurn (maxConnects : Nat) (threads : Threads) (turns : List Turn) : Prop :=
  Refinement.Along (fun threads turn => some (threads.step maxConnects turn)) Apart threads turns

theorem run_orderly {size : Nat} {turns : List Turn} (inTurn : InTurn maxConnects (start size) turns) :
    ((start size).run maxConnects turns).Orderly maxConnects := by
  have keeps (threads : Threads) (turn : Turn) (orderly : threads.Orderly maxConnects) (apart : threads.Apart turn) :
      (threads.step maxConnects turn).Orderly maxConnects := orderly.step turn apart
  unfold Threads.run
  exact Refinement.invariant_along keeps (orderly_start maxConnects size) inTurn

/-- The same, to be evaluated where only the first threads have tasks. -/
def ApartBelow (count : Nat) (self : Threads) : Turn → Prop
  | .create thread _ _ _ => thread < count
  | .start thread c operation _ => thread < count ∧ (operation = .close →
    ∀ other < count, ∀ also ∈ self.task other, also.connection = c → ¬ also.stage.Making)
  | .advance thread => thread < count ∧ ∀ task ∈ self.task thread, task.stage = .close →
    (self.world.conn task.connection).state ≠ .closing →
    ∀ other < count, ∀ also ∈ self.task other, also.connection = task.connection → other ≠ thread → also.stage.Making
  | .getActiveConnection => True

instance (count : Nat) (self : Threads) (turn : Turn) : Decidable (self.ApartBelow count turn) := by
  unfold ApartBelow
  split <;> infer_instance

theorem inTurn_of_below {count : Nat} {turns : List Turn} (idle : ∀ other, count ≤ other → self.task other = none)
    (below : Refinement.Along (fun threads turn => some (threads.step maxConnects turn)) (ApartBelow count) self turns) :
    InTurn maxConnects self turns := by
  have among {self : Threads} (idle : ∀ other, count ≤ other → self.task other = none) {other : Nat} {also : Task}
      (there : self.task other = some also) : other < count := by
    by_contra beyond
    cases (idle other (Nat.not_lt.mp beyond)).symm.trans there
  induction turns generalizing self with
  | nil => trivial
  | cons turn turns ih =>
    obtain ⟨first, rest⟩ := below
    refine ⟨?_, fun after same => ?_⟩
    · cases turn with
      | start thread c operation answers =>
        cases operation with
        | close => exact fun other also there => first.2 rfl other (among idle there) also there
        | _ => trivial
      | advance thread =>
        exact fun task here stage unclosed other also there =>
          first.2 task here stage unclosed other (among idle there) also there
      | _ => trivial
    · refine ih (fun other beyond => ?_) (rest after same)
      cases same
      have none := idle other beyond
      cases turn with
      | create thread _ _ _ =>
        have different : other ≠ thread := by have : thread < count := first; omega
        unfold Threads.step
        dsimp only
        split
        · exact (Function.update_of_ne different _ _).trans none
        · exact none
      | start thread _ _ _ =>
        have different : other ≠ thread := by have := first.1; omega
        unfold Threads.step
        dsimp only
        split
        · exact (Function.update_of_ne different _ _).trans none
        · exact none
      | advance thread =>
        have different : other ≠ thread := by have := first.1; omega
        cases here : self.task thread with
        | none =>
          unfold Threads.step
          dsimp only
          rw [here]
          exact none
        | some task => rw [step_advance here, goOn_other different, none]
      | getActiveConnection => exact none

/-- A connection is accepted by one thread and taken into the registry. -/
def accepted : List Turn := [.create 0 0 5 .granted, .advance 0, .advance 0, .advance 0]

/-- Two connections are made by one thread. Another one delivers events to the first of
them, one while it is still being made and a read that brings a request, and closes it. -/
def served : List Turn :=
  [.create 0 0 5 .granted, .advance 0, .advance 0, .start 1 0 .eventError .granted, .advance 1, .advance 0,
    .start 1 0 (.eventRead (.received (ascii "GET / HTTP/1.1\r\nHost: a\r\n\r\n"))) .granted, .advance 1,
    .create 0 1 6 .granted, .advance 0, .advance 1, .advance 0, .advance 1, .advance 0,
    .start 1 0 .close .granted, .advance 1, .start 0 1 (.eventRead (.failed .eagain)) .granted, .advance 1, .advance 0,
    .advance 1, .advance 1, .getActiveConnection]

end Threads
end LibWebserver
