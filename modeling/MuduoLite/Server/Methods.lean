import MuduoLite.Connection.Methods
import MuduoLite.Server.Model

/-!
# What the server relies on in the methods of a connection

The server calls a method on the loop thread of the connection and then looks at
four things: whether what the method queued owns the connection (`QueuesOwners`),
whether it touched the poller elsewhere (`Local`), whether it reported a close, and
what state it left.  A close is reported only in state `kDisconnected`, and of the
methods that a loop can still run afterwards none leaves that state.
-/

namespace MuduoLite

namespace ConnState

/-! ## What methods put into the queue -/

/-- The functors that a call adds to the queue of the loop own the connection. -/
def QueuesOwners (s t : ConnState) : Prop :=
  ∀ functor ∈ t.pendingFunctors, functor ∈ s.pendingFunctors ∨ functor.owns = true

theorem QueuesOwners.of_eq {s t : ConnState} (h : t.pendingFunctors = s.pendingFunctors) :
    QueuesOwners s t := fun _ hmem => .inl (h ▸ hmem)

theorem QueuesOwners.of_traffic {s t : ConnState} (h : Traffic s t) : QueuesOwners s t :=
  fun _ hmem => h.pendingFunctors_owns hmem

theorem queuesOwners_handleRead (s : ConnState) (result : Buffer.ReadResult) :
    QueuesOwners s (s.handleRead result) := by
  by_cases hopen : result = .data []
  · obtain ⟨buffer, heof⟩ := s.exists_handleRead_eof
    rw [hopen, heof]
    exact .of_eq rfl
  · exact .of_traffic (traffic_handleRead s hopen)

theorem queuesOwners_runCallback (s : ConnState) (callback : Channel.Callback)
    (read : Buffer.ReadResult) (result : IoResult) :
    QueuesOwners s (s.runCallback callback read result) := by
  cases callback with
  | closeCallback => exact .of_eq rfl
  | errorCallback => exact .of_eq rfl
  | readCallback => exact queuesOwners_handleRead s read
  | writeCallback => exact .of_traffic (traffic_handleWrite s result)

theorem queuesOwners_shutdown (s : ConnState) : QueuesOwners s s.shutdown := by
  unfold shutdown
  split_ifs
  · intro functor hmem
    exact (traffic_shutdownInLoop (s.setState .kDisconnecting)).pendingFunctors_owns hmem
  · exact .of_eq rfl

theorem queuesOwners_connectDestroyed (s : ConnState) : QueuesOwners s s.connectDestroyed := by
  unfold connectDestroyed
  split_ifs <;> exact .of_eq rfl

/-! ## Where methods touch the poller -/

theorem local_handleRead (s : ConnState) (result : Buffer.ReadResult) :
    Local s (s.handleRead result) := by
  by_cases hopen : result = .data []
  · obtain ⟨buffer, heof⟩ := s.exists_handleRead_eof
    rw [hopen, heof]
    exact (local_setInput s buffer).trans (local_handleClose _)
  · exact (traffic_handleRead s hopen).toLocal

theorem local_runCallback (s : ConnState) (callback : Channel.Callback)
    (read : Buffer.ReadResult) (result : IoResult) :
    Local s (s.runCallback callback read result) := by
  cases callback with
  | closeCallback => exact local_handleClose s
  | errorCallback => exact .refl s
  | readCallback => exact local_handleRead s read
  | writeCallback => exact (traffic_handleWrite s result).toLocal

theorem local_shutdown (s : ConnState) : Local s s.shutdown := by
  unfold shutdown
  split_ifs
  · exact (local_setState s _).trans (traffic_shutdownInLoop _).toLocal
  · exact .refl s

/-! ## Reported closes and the state -/

/-- A method that does not report a close. -/
def Silent (s t : ConnState) : Prop := .closeCallback ∈ t.effects → .closeCallback ∈ s.effects

theorem Silent.of_traffic {s t : ConnState} (h : Traffic s t) : Silent s t :=
  fun hmem => h.closeCallback_mem hmem

theorem silent_shutdown (s : ConnState) : Silent s s.shutdown := by
  unfold shutdown
  split_ifs
  · exact fun hmem => (traffic_shutdownInLoop (s.setState .kDisconnecting)).closeCallback_mem hmem
  · exact id

theorem silent_connectDestroyed (s : ConnState) : Silent s s.connectDestroyed := by
  unfold connectDestroyed
  split_ifs
  · intro hmem
    simpa [remove, disableAll] using hmem
  · exact id

theorem silent_connectEstablished (s : ConnState) : Silent s s.connectEstablished := by
  intro hmem
  simpa [connectEstablished, enableReading, tie] using hmem

/-- A callback reports a close in state `kDisconnected` only, which it does not leave. -/
theorem runCallback_state (s : ConnState) (callback : Channel.Callback) (read : Buffer.ReadResult)
    (result : IoResult) (h : s.conn.state = .kDisconnected ∨
      .closeCallback ∉ s.effects ∧ .closeCallback ∈ (s.runCallback callback read result).effects) :
    (s.runCallback callback read result).conn.state = .kDisconnected := by
  have of_traffic : ∀ {t : ConnState}, Traffic s t → (s.conn.state = .kDisconnected ∨
      .closeCallback ∉ s.effects ∧ .closeCallback ∈ t.effects) → t.conn.state = .kDisconnected := by
    rintro t htraffic (hstate | ⟨hnone, hmem⟩)
    · exact htraffic.state_eq.trans hstate
    · exact absurd (htraffic.closeCallback_mem hmem) hnone
  cases callback with
  | closeCallback => rfl
  | errorCallback => exact of_traffic .refl h
  | readCallback =>
      by_cases hopen : read = .data []
      · subst hopen
        rfl
      · exact of_traffic (traffic_handleRead s hopen) h
  | writeCallback => exact of_traffic (traffic_handleWrite s result) h

/-- The functors that own their connection leave it alone. -/
theorem runFunctor_conn (s : ConnState) {functor : Functor} (howns : functor.owns = true)
    (result : IoResult) : (s.runFunctor functor result).conn = s.conn := by
  cases functor with
  | writeComplete => rfl
  | highWaterMark size => rfl
  | sendInLoop data => nomatch howns
  | sendFileInLoop fileDescriptor offset count => simp [runFunctor]
  | shutdownInLoop => nomatch howns

/-- After a close `connectDestroyed` takes the channel out of the poller. -/
theorem connectDestroyed_of_closed {s : ConnState} (h : s.conn.state = .kDisconnected) :
    s.connectDestroyed.conn.state = .kDisconnected ∧
      s.connectDestroyed.conn.channel.index = .kNew := by
  simp [connectDestroyed, h, remove, EPollPoller.removeChannel]

end ConnState

namespace Server

open ConnState

/-! ## Functors and calls -/

theorem IoFunctor.queuesOwners_run (functor : IoFunctor) (result : IoResult) (s : ConnState) :
    QueuesOwners s (functor.run result s) := by
  cases functor with
  | connectEstablished c => exact .of_eq rfl
  | connectDestroyed c => exact queuesOwners_connectDestroyed s
  | method c functor => exact .of_traffic (traffic_runFunctor s functor result)

theorem UserCall.queuesOwners_run (call : UserCall) (s : ConnState) :
    QueuesOwners s (call.run s) := by
  cases call with
  | send data result => exact .of_traffic (traffic_send s data result)
  | sendFile fileDescriptor offset count result => exact .of_traffic (traffic_sendFile s _ _ _ _)
  | shutdown => exact queuesOwners_shutdown s
  | setHighWaterMarkCallback highWaterMark => exact .of_eq rfl

theorem IoFunctor.local_run (functor : IoFunctor) (result : IoResult) (s : ConnState) :
    Local s (functor.run result s) := by
  cases functor with
  | connectEstablished c => exact local_connectEstablished s
  | connectDestroyed c => exact local_connectDestroyed s
  | method c functor => exact (traffic_runFunctor s functor result).toLocal

theorem IoFunctor.silent_run (functor : IoFunctor) (result : IoResult) (s : ConnState) :
    Silent s (functor.run result s) := by
  cases functor with
  | connectEstablished c => exact silent_connectEstablished s
  | connectDestroyed c => exact silent_connectDestroyed s
  | method c functor => exact .of_traffic (traffic_runFunctor s functor result)

theorem UserCall.local_run (call : UserCall) (s : ConnState) : Local s (call.run s) := by
  cases call with
  | send data result => exact (traffic_send s data result).toLocal
  | sendFile fileDescriptor offset count result => exact (traffic_sendFile s _ _ _ _).toLocal
  | shutdown => exact local_shutdown s
  | setHighWaterMarkCallback highWaterMark => exact ⟨rfl, rfl, id, fun _ => .refl _ _⟩

theorem UserCall.silent_run (call : UserCall) (s : ConnState) : Silent s (call.run s) := by
  cases call with
  | send data result => exact .of_traffic (traffic_send s data result)
  | sendFile fileDescriptor offset count result => exact .of_traffic (traffic_sendFile s _ _ _ _)
  | shutdown => exact silent_shutdown s
  | setHighWaterMarkCallback highWaterMark => exact id

/-- On a connection that is not connected a call of the user does nothing to the
state and the channel. -/
theorem UserCall.run_of_ne (call : UserCall) {s : ConnState} (h : s.conn.state ≠ .kConnected) :
    (call.run s).conn.state = s.conn.state ∧ (call.run s).conn.channel = s.conn.channel := by
  cases call with
  | send data result => simp [run, ConnState.send, h]
  | sendFile fileDescriptor offset count result => simp [run, ConnState.sendFile, h]
  | shutdown => simp [run, ConnState.shutdown, h]
  | setHighWaterMarkCallback highWaterMark => exact ⟨rfl, rfl⟩

end Server

end MuduoLite
