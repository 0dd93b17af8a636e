import LibWebserver.Proofs.Descriptors
import LibWebserver.Proofs.Lifecycle

/-! The operations on a connection come to one of the four changes for its poll: what
is said of runs of endpoints is said of runs of connections. -/

namespace LibWebserver

/-- The same poll, descriptor and state. -/
structure Endpoint.Alike (one other : Endpoint) : Prop where
  poll : one.poll = other.poll
  fd : one.fd = other.fd
  state : one.state = other.state

namespace World

/-- A connection as the poll of its server sees it. -/
def endpoint (w : World) (c : Nat) : Endpoint :=
  { poll := w.server.poll, fd := (w.conn c).fd, state := (w.conn c).state }

variable {w : World} {c : Nat}

theorem modify_alike (endpoint : Endpoint) (mask : UInt32) :
    (endpoint.modify mask).Alike { endpoint with poll := endpoint.poll.modify endpoint.fd mask } := by
  unfold Endpoint.modify Poll.modify
  split_ifs <;> exact ⟨rfl, rfl, rfl⟩

theorem insert_alike (endpoint : Endpoint) (branch : Branch) :
    (endpoint.insert (Multiplexer.bit Poll) branch).Alike
      { endpoint with poll := endpoint.poll.insert endpoint.fd (Multiplexer.bit Poll branch) } :=
  modify_alike endpoint _

theorem remove_alike (endpoint : Endpoint) (branch : Branch) :
    (endpoint.remove (Multiplexer.bit Poll) branch).Alike
      { endpoint with poll := endpoint.poll.remove endpoint.fd (Multiplexer.bit Poll branch) } :=
  modify_alike endpoint _

theorem removed_alike (endpoint : Endpoint) :
    (((endpoint.remove (Multiplexer.bit Poll) .read).remove (Multiplexer.bit Poll) .write).remove
        (Multiplexer.bit Poll) .error).Alike
      { endpoint with poll :=
          ((endpoint.poll.removeRead endpoint.fd).removeWrite endpoint.fd).removeError endpoint.fd } := by
  have one := remove_alike endpoint .read
  have two := remove_alike (endpoint.remove (Multiplexer.bit Poll) .read) .write
  have three := remove_alike ((endpoint.remove (Multiplexer.bit Poll) .read).remove (Multiplexer.bit Poll) .write) .error
  refine ⟨?_, ?_, ?_⟩
  · rw [three.poll, two.poll, one.poll, two.fd, one.fd]
    rfl
  · rw [three.fd, two.fd, one.fd]
  · rw [three.state, two.state, one.state]

/-- What an operation on a connection comes to. -/
def ComesTo (c : Nat) (w after : World) : Prop :=
  ∃ change, (after.endpoint c).Alike ((w.endpoint c).operate (Multiplexer.bit Poll) c change)

/-- Nothing the poll would notice. -/
structure Unnoticed (c : Nat) (w after : World) : Prop where
  poll : after.server.poll = w.server.poll
  fd : (after.conn c).fd = (w.conn c).fd
  state : (after.conn c).state = (w.conn c).state

theorem Unnoticed.refl (c : Nat) (w : World) : Unnoticed c w w := ⟨rfl, rfl, rfl⟩

theorem Unnoticed.trans {middle after : World} (first : Unnoticed c w middle) (last : Unnoticed c middle after) :
    Unnoticed c w after :=
  ⟨last.poll.trans first.poll, last.fd.trans first.fd, last.state.trans first.state⟩

theorem Unnoticed.endpoint {after : World} (unnoticed : Unnoticed c w after) : after.endpoint c = w.endpoint c := by
  rw [World.endpoint, World.endpoint, unnoticed.poll, unnoticed.fd, unnoticed.state]

theorem Unnoticed.comesTo {middle after : World} (unnoticed : Unnoticed c w middle) (comes : ComesTo c middle after) :
    ComesTo c w after := by
  rw [ComesTo, ← unnoticed.endpoint]
  exact comes

theorem Unnoticed.nothing {after : World} (unnoticed : Unnoticed c w after) : ComesTo c w after :=
  ⟨.nothing, by rw [unnoticed.endpoint]; exact ⟨rfl, rfl, rfl⟩⟩

theorem unnoticed_modify {f : Connection → Connection} (fd : (f (w.conn c)).fd = (w.conn c).fd)
    (state : (f (w.conn c)).state = (w.conn c).state) : Unnoticed c w (w.modify c f) :=
  ⟨rfl, by rw [modify_conn, fd], by rw [modify_conn, state]⟩

theorem unnoticed_markActivity (w : World) (c : Nat) : Unnoticed c w (w.markActivity c) := by
  refine ⟨?_, rfl, rfl⟩
  unfold markActivity Server.activityOn
  dsimp only
  split <;> rfl

/-- A connection halfway through closing, as its poll sees it. -/
theorem detach_alike (w : World) (c : Nat) :
    (((({ w.endpoint c with state := .closing } : Endpoint).remove (Multiplexer.bit Poll) .read).remove
        (Multiplexer.bit Poll) .write).remove (Multiplexer.bit Poll) .error).Alike ((w.detach c).endpoint c) := by
  have removed := removed_alike { w.endpoint c with state := .closing }
  refine ⟨removed.poll, ?_, ?_⟩
  · rw [removed.fd, World.endpoint, World.endpoint, detach_conn]
  · rw [removed.state, World.endpoint, World.endpoint, detach_conn]

theorem close_comesTo (w : World) (c : Nat) : ComesTo c w (w.close c).world := by
  refine ⟨.closes, ?_⟩
  unfold Endpoint.operate Endpoint.close
  dsimp only
  by_cases closing : (w.conn c).state = .closing
  · rw [close_idle closing, if_pos (show (w.endpoint c).state = .closing from closing)]
    exact ⟨rfl, rfl, rfl⟩
  have detached := detach_alike w c
  have held : ((w.detach c).endpoint c).fd = w.descriptor c := by
    rw [World.endpoint, detach_conn]
    rfl
  have poll : ((w.detach c).endpoint c).poll = (w.detach c).server.poll := rfl
  rw [close_eq closing, if_neg (show ¬ (w.endpoint c).state = .closing from closing), detached.poll, detached.fd, held, poll]
  cases (w.detach c).server.poll.closeEvent c (w.descriptor c) with
  | error => exact ⟨detached.poll.symm, detached.fd.symm, detached.state.symm⟩
  | ok poll =>
    dsimp only
    split_ifs with valid
    · refine ⟨rfl, by rw [World.endpoint, modify_conn], ?_⟩
      rw [detached.state, World.endpoint, modify_conn, poll_conn]
      rfl
    · exact ⟨rfl, held, detached.state.symm⟩

theorem initialise_alike (w : World) (c : Nat) :
    ((w.initialise c).world.endpoint c).Alike ((w.endpoint c).initialise (Multiplexer.bit Poll)) := by
  have one := insert_alike (w.endpoint c) .read
  have two := insert_alike ((w.endpoint c).insert (Multiplexer.bit Poll) .read) .write
  have three := insert_alike (((w.endpoint c).insert (Multiplexer.bit Poll) .read).insert (Multiplexer.bit Poll) .write) .error
  have poll : (w.endpoint c).poll = w.server.poll := rfl
  have fd : (w.endpoint c).fd = w.descriptor c := rfl
  unfold initialise Endpoint.initialise
  rw [poll, fd]
  cases w.server.poll.openEvent (w.descriptor c) with
  | error => exact ⟨rfl, rfl, rfl⟩
  | ok =>
    refine ⟨?_, ?_, by rw [World.endpoint, setState_conn]⟩
    · change _ = Endpoint.poll (Endpoint.insert _ (Endpoint.insert _ (Endpoint.insert _ _ _) _) _)
      rw [three.poll, two.poll, two.fd, one.poll, one.fd]
      rfl
    · change _ = Endpoint.fd (Endpoint.insert _ (Endpoint.insert _ (Endpoint.insert _ _ _) _) _)
      rw [three.fd, two.fd, one.fd, World.endpoint, setState_conn]
      rfl

theorem sendMessage_comesTo (w : World) (c : Nat) (message : OutgoingHttpMessage) : ComesTo c w (w.sendMessage c message) := by
  by_cases connected : (w.conn c).state = .connected
  · refine ⟨.queues, ?_⟩
    have inserted := insert_alike (w.endpoint c) .write
    have sent : w.sendMessage c message =
        (w.modify c fun conn => { conn with outgoing := conn.outgoing ++ [message.serialize] }).poll
          (·.insertWrite (w.descriptor c)) := by
      rw [sendMessage, if_neg (not_not.mpr connected)]
      dsimp only
      rw [descriptor, modify_conn]
      rfl
    rw [Endpoint.operate, if_pos (show (w.endpoint c).state = .connected from connected), sent]
    refine ⟨?_, ?_, ?_⟩
    · rw [inserted.poll]
      rfl
    · rw [inserted.fd, World.endpoint, poll_conn, modify_conn]
      rfl
    · rw [inserted.state, World.endpoint, poll_conn, modify_conn]
      rfl
  · rw [sendMessage_idle connected]
    exact (Unnoticed.refl c w).nothing

theorem badData_comesTo (w : World) (c : Nat) (message : IncomingHttpMessage) : ComesTo c w (w.badData c message) := by
  rcases badData_cases w c message with same | ⟨response, same⟩
  · rw [same]
    exact (unnoticed_modify rfl rfl).nothing
  · rw [same]
    exact sendMessage_comesTo w c response

theorem processStep_unnoticed {after : World} (moves : processStep c w = .next after) : Unnoticed c w after := by
  obtain ⟨message, _, buffer, _, _, rfl⟩ := processStep_goes moves
  let pass (conn : Connection) : Connection :=
    { conn with incoming := conn.incoming ++ [message], buffer, isPersistent := message.isPersistent }
  have pushed : Unnoticed c w (w.modify c pass) := unnoticed_modify rfl rfl
  exact pushed.trans (unnoticed_markActivity _ c)

theorem processStep_comesTo {ended : Ended} (exits : processStep c w = .exit (some ended)) : ComesTo c w ended.world := by
  rcases processStep_ends exits with rfl | ⟨message, rfl⟩ | ⟨_, rfl⟩ | ⟨_, _, rfl⟩ <;> dsimp only
  · exact (unnoticed_modify rfl rfl).nothing
  · exact badData_comesTo w c message
  · exact (Unnoticed.refl c w).nothing
  · exact (unnoticed_modify rfl rfl).nothing

theorem processEventRead_comesTo {ended : Ended} (done : w.processEventRead c = some ended) : ComesTo c w ended.world :=
  Loop.run_invariant (Unnoticed c w) (fun result => ∀ ended, result = some ended → ComesTo c w ended.world)
    (fun _ _ before moves => before.trans (processStep_unnoticed moves))
    (fun _ _ before exits _ same => before.comesTo (processStep_comesTo (same ▸ exits)))
    (.refl c w) (Option.join_eq_some_iff.mp done) ended rfl

theorem eventRead_comesTo {result : RecvResult} {ended : Ended} (done : w.eventRead c result = some ended) :
    ComesTo c w ended.world := by
  have stored (buffer : CString) : Unnoticed c w (w.setBuffer c buffer) := unnoticed_modify rfl rfl
  rcases eventRead_cases done with ⟨_, rfl⟩ | ⟨_, buffer, rfl | ⟨_, rfl⟩ | processed⟩
  · exact (Unnoticed.refl c w).nothing
  · exact (stored buffer).comesTo (close_comesTo _ c)
  · exact (stored buffer).nothing
  · exact (stored buffer).comesTo (processEventRead_comesTo processed)

theorem eventWrite_comesTo (w : World) (c : Nat) (answers : List SendResult) : ComesTo c w (w.eventWrite c answers).world := by
  have taken : Unnoticed c w (w.modify c ({ · with outgoing := [] })) := unnoticed_modify rfl rfl
  rcases eventWrite_cases w c answers with ⟨_, same⟩ | ⟨connected, ⟨_, same⟩ | same | closed⟩
  · rw [same]
    exact (Unnoticed.refl c w).nothing
  · have removed := remove_alike (w.endpoint c) .write
    refine ⟨.drained, ?_⟩
    rw [same, Endpoint.operate, if_pos (show (w.endpoint c).state = .connected from connected)]
    exact ⟨removed.poll.symm, removed.fd.symm, removed.state.symm⟩
  · rw [same]
    exact taken.nothing
  · rw [closed]
    exact taken.comesTo (close_comesTo _ c)

/-- Every operation on a connection comes to a change the process knows of. -/
theorem perform_comesTo (w : World) (c : Nat) (operation : Operation) : ComesTo c w (w.perform c operation).world := by
  cases operation with
  | eventRead result =>
    unfold perform
    dsimp only
    cases done : w.eventRead c result with
    | none => exact (Unnoticed.refl c w).nothing
    | some ended => exact eventRead_comesTo done
  | eventWrite answers => exact eventWrite_comesTo w c answers
  | eventError =>
    unfold perform eventError
    dsimp only
    split
    · exact (Unnoticed.refl c w).nothing
    · exact close_comesTo w c
  | sendMessage message => exact sendMessage_comesTo w c message
  | getMessages messages =>
    unfold perform getMessages
    dsimp only
    split
    · exact (Unnoticed.refl c w).nothing
    · exact (unnoticed_modify rfl rfl).nothing
  | close => exact close_comesTo w c

end World
end LibWebserver
