import MuduoLite.Connection.Methods

/-!
# What a method of a connection depends on

A method reads the history of its connection nowhere and the poller at its own fd only: the
same connection on another loop, after other effects, does the same (`Beside`).  And it
changes the kernel's list at its own fd only (`Confined`).  Unlike `Local` neither needs the
poller to mirror the channel, so both hold whatever other threads do to the connection.
-/

namespace MuduoLite

/-! ## The kernel's list at one fd -/

namespace EPollPoller

section Interest

variable {p q : EPollPoller} {fd : ℕ} (op : CtlOp) (ptr : ℕ) (c : Channel)

theorem ctl_interest_of_ne (hne : fd ≠ c.fd) : (p.ctl op ptr c).interest fd = p.interest fd := by
  unfold ctl epollCtl
  cases op <;> cases p.interest c.fd <;> simp [hne]

theorem ctl_interest_congr (h : p.interest c.fd = q.interest c.fd) :
    (p.ctl op ptr c).interest c.fd = (q.ctl op ptr c).interest c.fd := by
  unfold ctl epollCtl
  rw [← h]
  cases op <;> cases hentry : p.interest c.fd <;> simp [← h, hentry]

theorem updateChannel_interest_of_ne (hne : fd ≠ c.fd) :
    (p.updateChannel ptr c).1.interest fd = p.interest fd := by
  unfold updateChannel
  cases c.index with
  | kNew => exact ctl_interest_of_ne _ _ _ hne
  | kDeleted => exact ctl_interest_of_ne _ _ _ hne
  | kAdded =>
      dsimp only
      split_ifs
      · exact ctl_interest_of_ne _ _ _ hne
      · exact ctl_interest_of_ne _ _ _ hne

theorem updateChannel_interest_congr (h : p.interest c.fd = q.interest c.fd) :
    (p.updateChannel ptr c).1.interest c.fd = (q.updateChannel ptr c).1.interest c.fd := by
  unfold updateChannel
  cases c.index with
  | kNew => exact ctl_interest_congr _ _ _ h
  | kDeleted => exact ctl_interest_congr _ _ _ h
  | kAdded =>
      dsimp only
      split_ifs
      · exact ctl_interest_congr _ _ _ h
      · exact ctl_interest_congr _ _ _ h

/-- The poller has no say in what happens to the channel. -/
theorem updateChannel_snd_eq (p q : EPollPoller) :
    (p.updateChannel ptr c).2 = (q.updateChannel ptr c).2 := by
  unfold updateChannel
  cases c.index with
  | kNew => rfl
  | kDeleted => rfl
  | kAdded =>
      dsimp only
      split_ifs <;> rfl

theorem removeChannel_interest_of_ne (hne : fd ≠ c.fd) :
    (p.removeChannel ptr c).1.interest fd = p.interest fd := by
  unfold removeChannel
  dsimp only
  split_ifs
  · exact ctl_interest_of_ne _ _ _ hne
  · rfl

theorem removeChannel_interest_congr (h : p.interest c.fd = q.interest c.fd) :
    (p.removeChannel ptr c).1.interest c.fd = (q.removeChannel ptr c).1.interest c.fd := by
  unfold removeChannel
  dsimp only
  split_ifs
  · exact ctl_interest_congr _ _ _ h
  · exact h

end Interest

end EPollPoller

namespace ConnState

open EPollPoller

/-! ## The same connection elsewhere -/

/-- The connection of `s`, as `a` has it on another loop and after the effects `past`. -/
structure Beside (past : List Effect) (s a : ConnState) : Prop where
  conn_eq : a.conn = s.conn
  self_eq : a.self = s.self
  effects_eq : a.effects = past ++ s.effects
  interest_eq : a.poller.interest s.conn.channel.fd = s.poller.interest s.conn.channel.fd

namespace Beside

variable {past : List Effect} {s a : ConnState}

theorem emit (h : Beside past s a) (effect : Effect) :
    Beside past (s.emit effect) (a.emit effect) :=
  ⟨h.conn_eq, h.self_eq, by simp [h.effects_eq], h.interest_eq⟩

theorem queueInLoop (h : Beside past s a) (functor : Functor) :
    Beside past (s.queueInLoop functor) (a.queueInLoop functor) :=
  ⟨h.conn_eq, h.self_eq, by simp [h.effects_eq], h.interest_eq⟩

theorem setState (h : Beside past s a) (state : StateE) :
    Beside past (s.setState state) (a.setState state) :=
  ⟨by simp [ConnState.setState, h.conn_eq], h.self_eq, h.effects_eq, h.interest_eq⟩

theorem setInput (h : Beside past s a) (buffer : ValidBuffer) :
    Beside past (s.setInput buffer) (a.setInput buffer) :=
  ⟨by simp [ConnState.setInput, h.conn_eq], h.self_eq, h.effects_eq, h.interest_eq⟩

theorem setOutput (h : Beside past s a) (buffer : ValidBuffer) :
    Beside past (s.setOutput buffer) (a.setOutput buffer) :=
  ⟨by simp [ConnState.setOutput, h.conn_eq], h.self_eq, h.effects_eq, h.interest_eq⟩

theorem tie (h : Beside past s a) : Beside past s.tie a.tie :=
  ⟨by simp [ConnState.tie, h.conn_eq], h.self_eq, h.effects_eq, h.interest_eq⟩

theorem setHighWaterMarkCallback (h : Beside past s a) (highWaterMark : ℕ) :
    Beside past (s.setHighWaterMarkCallback highWaterMark)
      (a.setHighWaterMarkCallback highWaterMark) :=
  ⟨by simp [ConnState.setHighWaterMarkCallback, h.conn_eq], h.self_eq, h.effects_eq,
    h.interest_eq⟩

theorem setEvents (h : Beside past s a) (events : EventMask) :
    Beside past (s.setEvents events) (a.setEvents events) := by
  refine ⟨?_, h.self_eq, h.effects_eq, ?_⟩
  · simp only [ConnState.setEvents, h.conn_eq, h.self_eq]
    rw [updateChannel_snd_eq]
  · simp only [ConnState.setEvents, h.conn_eq, h.self_eq, updateChannel_fd]
    exact updateChannel_interest_congr s.self { s.conn.channel with events := events } h.interest_eq

theorem remove (h : Beside past s a) : Beside past s.remove a.remove := by
  refine ⟨?_, h.self_eq, h.effects_eq, ?_⟩
  · simp only [ConnState.remove, h.conn_eq]
    rfl
  · simp only [ConnState.remove, h.conn_eq, h.self_eq]
    exact removeChannel_interest_congr s.self s.conn.channel h.interest_eq

theorem notifyWriteComplete (h : Beside past s a) :
    Beside past s.notifyWriteComplete a.notifyWriteComplete := by
  unfold ConnState.notifyWriteComplete
  rw [h.conn_eq]
  split_ifs
  · exact h.queueInLoop _
  · exact h

theorem notifyHighWaterMark (h : Beside past s a) (oldLen newLen : ℕ) :
    Beside past (s.notifyHighWaterMark oldLen newLen) (a.notifyHighWaterMark oldLen newLen) := by
  unfold ConnState.notifyHighWaterMark
  rw [h.conn_eq]
  split_ifs
  · exact h.queueInLoop _
  · exact h

theorem appendRemaining (h : Beside past s a) (remaining : List Byte) :
    Beside past (s.appendRemaining remaining) (a.appendRemaining remaining) := by
  unfold ConnState.appendRemaining
  simp only [notifyHighWaterMark_conn, h.conn_eq, setOutput_channel]
  have happended := (h.notifyHighWaterMark s.conn.outputBuffer.readableBytes
    (s.conn.outputBuffer.readableBytes + remaining.length)).setOutput
      (s.conn.outputBuffer.append remaining)
  split_ifs
  · exact h
  · exact happended
  · unfold enableWriting
    rw [happended.conn_eq]
    exact happended.setEvents _

theorem isIdle_eq (h : Beside past s a) : a.isIdle = s.isIdle := by
  unfold isIdle
  rw [h.conn_eq]

theorem sendInLoop (h : Beside past s a) (data : List Byte) (result : IoResult) :
    Beside past (s.sendInLoop data result) (a.sendInLoop data result) := by
  unfold ConnState.sendInLoop
  rw [h.isIdle_eq]
  have hwrote := h.emit (.write data result)
  cases result with
  | bytes n =>
      dsimp only
      split_ifs
      · exact hwrote.notifyWriteComplete
      · exact hwrote.appendRemaining _
      · exact h.appendRemaining _
  | error errno =>
      dsimp only
      split_ifs
      · exact hwrote
      · exact hwrote.appendRemaining _
      · exact h.appendRemaining _

theorem requeueFile (h : Beside past s a) (fileDescriptor offset remaining : ℕ) :
    Beside past (s.requeueFile fileDescriptor offset remaining)
      (a.requeueFile fileDescriptor offset remaining) := by
  unfold ConnState.requeueFile
  split_ifs
  · exact h
  · exact h.queueInLoop _

theorem sendFileInLoop (h : Beside past s a) (fileDescriptor offset count : ℕ)
    (result : IoResult) : Beside past (s.sendFileInLoop fileDescriptor offset count result)
      (a.sendFileInLoop fileDescriptor offset count result) := by
  unfold ConnState.sendFileInLoop
  rw [h.isIdle_eq, h.conn_eq]
  have hsent := h.emit (.sendfile fileDescriptor offset count result)
  cases result with
  | bytes n =>
      dsimp only
      split_ifs
      · exact h
      · exact hsent.notifyWriteComplete
      · exact hsent.requeueFile _ _ _
      · exact h.requeueFile _ _ _
  | error errno =>
      dsimp only
      split_ifs
      · exact h
      · exact hsent
      · exact hsent.requeueFile _ _ _
      · exact h.requeueFile _ _ _

theorem shutdownInLoop (h : Beside past s a) : Beside past s.shutdownInLoop a.shutdownInLoop := by
  unfold ConnState.shutdownInLoop
  rw [h.conn_eq]
  split_ifs
  · exact h
  · exact h.emit _

theorem disableAll (h : Beside past s a) : Beside past s.disableAll a.disableAll :=
  h.setEvents _

theorem connectEstablished (h : Beside past s a) :
    Beside past s.connectEstablished a.connectEstablished := by
  have htied := (h.setState .kConnected).tie
  unfold ConnState.connectEstablished enableReading
  rw [htied.conn_eq]
  exact (htied.setEvents _).emit _

theorem connectDestroyed (h : Beside past s a) :
    Beside past s.connectDestroyed a.connectDestroyed := by
  unfold ConnState.connectDestroyed
  rw [h.conn_eq]
  split_ifs
  · exact ((h.setState _).disableAll.emit _).remove
  · exact h.remove

theorem handleClose (h : Beside past s a) : Beside past s.handleClose a.handleClose :=
  ((h.setState _).disableAll.emit _).emit _

theorem handleRead (h : Beside past s a) (result : Buffer.ReadResult) :
    Beside past (s.handleRead result) (a.handleRead result) := by
  have hread := h.setInput (s.conn.inputBuffer.readFd result)
  unfold ConnState.handleRead
  rw [h.conn_eq]
  dsimp only
  split
  · exact hread.handleClose
  · exact hread.emit _
  · exact hread

theorem finishWriting (h : Beside past s a) : Beside past s.finishWriting a.finishWriting := by
  have hnotified : Beside past s.disableWriting.notifyWriteComplete
      a.disableWriting.notifyWriteComplete := by
    unfold disableWriting
    rw [h.conn_eq]
    exact (h.setEvents _).notifyWriteComplete
  unfold ConnState.finishWriting
  dsimp only
  rw [hnotified.conn_eq]
  split_ifs
  · exact hnotified.shutdownInLoop
  · exact hnotified

/-- The end of `handleWrite`. -/
theorem finishIfEmpty (h : Beside past s a) :
    Beside past (if s.conn.outputBuffer.readableBytes = 0 then s.finishWriting else s)
      (if a.conn.outputBuffer.readableBytes = 0 then a.finishWriting else a) := by
  rw [h.conn_eq]
  split_ifs
  · exact h.finishWriting
  · exact h

theorem handleWrite (h : Beside past s a) (result : IoResult) :
    Beside past (s.handleWrite result) (a.handleWrite result) := by
  have hwrote := h.emit (.write s.conn.outputBuffer.readable result)
  by_cases hwriting : s.conn.channel.isWriting = true
  · simp only [ConnState.handleWrite, h.conn_eq, hwriting, if_true]
    cases result with
    | bytes n =>
        by_cases hzero : n = 0
        · simp only [hzero, if_true]
          exact hzero ▸ hwrote
        · simp only [hzero, if_false, emit_conn, h.conn_eq]
          exact (hwrote.setOutput (s.conn.outputBuffer.retrieve n)).finishIfEmpty
    | error errno => exact hwrote
  · simp only [ConnState.handleWrite, h.conn_eq, hwriting]
    exact h

theorem runCallback (h : Beside past s a) (callback : Channel.Callback)
    (read : Buffer.ReadResult) (result : IoResult) :
    Beside past (s.runCallback callback read result) (a.runCallback callback read result) := by
  cases callback with
  | closeCallback => exact h.handleClose
  | errorCallback => exact h
  | readCallback => exact h.handleRead read
  | writeCallback => exact h.handleWrite result

theorem runFunctor (h : Beside past s a) (functor : Functor) (result : IoResult) :
    Beside past (s.runFunctor functor result) (a.runFunctor functor result) := by
  cases functor with
  | writeComplete => exact h
  | highWaterMark size => exact h
  | sendInLoop data => exact h.sendInLoop data result
  | sendFileInLoop fileDescriptor offset count => exact h.sendFileInLoop _ _ _ result
  | shutdownInLoop => exact h.shutdownInLoop

end Beside

/-! ## Other fds -/

/-- From `s` to `t` the kernel's list changed at the fd of the connection only. -/
structure Confined (s t : ConnState) : Prop where
  self_eq : t.self = s.self
  fd_eq : t.conn.channel.fd = s.conn.channel.fd
  interest_eq : ∀ fd, fd ≠ s.conn.channel.fd → t.poller.interest fd = s.poller.interest fd

namespace Confined

variable {s t u : ConnState}

theorem refl (s : ConnState) : Confined s s := ⟨rfl, rfl, fun _ _ => rfl⟩

theorem trans (hst : Confined s t) (htu : Confined t u) : Confined s u :=
  ⟨htu.self_eq.trans hst.self_eq, htu.fd_eq.trans hst.fd_eq, fun fd hne =>
    (htu.interest_eq fd (hst.fd_eq ▸ hne)).trans (hst.interest_eq fd hne)⟩

theorem of_eq (hself : t.self = s.self) (hfd : t.conn.channel.fd = s.conn.channel.fd)
    (hpoller : t.poller = s.poller) : Confined s t :=
  ⟨hself, hfd, fun _ _ => by rw [hpoller]⟩

theorem setEvents (s : ConnState) (events : EventMask) : Confined s (s.setEvents events) :=
  ⟨rfl, updateChannel_fd _ _ _, fun _ hne => updateChannel_interest_of_ne _ _ hne⟩

theorem remove (s : ConnState) : Confined s s.remove :=
  ⟨rfl, rfl, fun _ hne => removeChannel_interest_of_ne _ _ hne⟩

theorem of_traffic (h : Traffic s t) : Confined s t := by
  induction h with
  | refl => exact .refl _
  | tail _ hlast ih =>
      refine ih.trans ?_
      cases hlast with
      | emit effect _ => exact .of_eq rfl rfl rfl
      | queueInLoop functor _ => exact .of_eq rfl rfl rfl
      | setInput buffer => exact .of_eq rfl rfl rfl
      | setOutput buffer => exact .of_eq rfl rfl rfl
      | enableWriting => exact .setEvents _ _
      | disableWriting => exact .setEvents _ _

/-- Store a state and tell the poller that nothing is of interest. -/
theorem disableAll (s : ConnState) (state : StateE) :
    Confined s (s.setState state).disableAll :=
  trans (t := s.setState state) (.of_eq rfl rfl rfl) (.setEvents _ _)

theorem connectEstablished (s : ConnState) : Confined s s.connectEstablished := by
  have htied : Confined s (s.setState .kConnected).tie := .of_eq rfl rfl rfl
  exact (htied.trans (.setEvents _ _)).trans (.of_eq rfl rfl rfl)

theorem connectDestroyed (s : ConnState) : Confined s s.connectDestroyed := by
  unfold ConnState.connectDestroyed
  split_ifs
  · refine Confined.trans ?_ (.remove _)
    exact (disableAll s _).trans (.of_eq rfl rfl rfl)
  · exact .remove s

theorem handleClose (s : ConnState) : Confined s s.handleClose :=
  ((disableAll s _).trans (.of_eq rfl rfl rfl)).trans (.of_eq rfl rfl rfl)

theorem runCallback (s : ConnState) (callback : Channel.Callback) (read : Buffer.ReadResult)
    (result : IoResult) : Confined s (s.runCallback callback read result) := by
  cases callback with
  | closeCallback => exact handleClose s
  | errorCallback => exact .refl s
  | readCallback =>
      by_cases hopen : read = .data []
      · obtain ⟨buffer, heof⟩ := s.exists_handleRead_eof
        simp only [ConnState.runCallback, hopen, heof]
        exact trans (t := s.setInput buffer) (.of_eq rfl rfl rfl) (handleClose _)
      · exact .of_traffic (traffic_handleRead s hopen)
  | writeCallback => exact .of_traffic (traffic_handleWrite s result)

end Confined

end ConnState

end MuduoLite
