import MuduoLite.Connection.Methods

/-!
# What the methods of a connection do outside the object

`Emits allowed s t` says that the effects between `s` and `t` are all `allowed`.
The methods that send only make system calls that move bytes and queue functors, and
no method but `handleClose` and the two that establish and destroy the connection
invokes `connectionCallback_` or `closeCallback_`.  So it can be counted how often a
connection has shut down its write end, or has reported its state.
-/

namespace MuduoLite

namespace Effect

/-- A system call that moves bytes, or a functor for the loop's queue. -/
def IsTransfer : Effect → Prop
  | write _ _ => True
  | sendfile _ _ _ _ => True
  | queued _ => True
  | _ => False

/-- Not a callback that reports the state of the connection. -/
def IsTraffic (effect : Effect) : Prop := effect ≠ .connectionCallback ∧ effect ≠ .closeCallback

theorem IsTransfer.isTraffic {effect : Effect} (h : effect.IsTransfer) : effect.IsTraffic := by
  constructor <;> (rintro rfl; exact h)

theorem isTraffic_shutdownWrite {effect : Effect} (h : effect = .shutdownWrite) :
    effect.IsTraffic := by
  subst h
  simp [IsTraffic]

theorem isTraffic_messageCallback {effect : Effect} (h : effect = .messageCallback) :
    effect.IsTraffic := by
  subst h
  simp [IsTraffic]

end Effect

namespace ConnState

/-- How often the connection has had this effect. -/
def occurrences (s : ConnState) (effect : Effect) : ℕ := s.effects.count effect

@[simp] theorem occurrences_emit (s : ConnState) (done effect : Effect) :
    (s.emit done).occurrences effect = s.occurrences effect + if done = effect then 1 else 0 := by
  simp [occurrences, List.count_singleton]

theorem occurrences_congr {s t : ConnState} (h : t.effects = s.effects) (effect : Effect) :
    t.occurrences effect = s.occurrences effect := by
  rw [occurrences, occurrences, h]

/-- The effects from `s` to `t` are all allowed. -/
def Emits (allowed : Effect → Prop) (s t : ConnState) : Prop :=
  ∃ since, t.effects = s.effects ++ since ∧ ∀ effect ∈ since, allowed effect

namespace Emits

variable {allowed : Effect → Prop} {s t u : ConnState}

theorem of_eq (h : t.effects = s.effects) : Emits allowed s t := ⟨[], by simp [h], by simp⟩

theorem emit {effect : Effect} (h : allowed effect) : Emits allowed s (s.emit effect) :=
  ⟨[effect], rfl, by simpa using h⟩

theorem queueInLoop {functor : Functor} (h : allowed (.queued functor)) :
    Emits allowed s (s.queueInLoop functor) :=
  ⟨[.queued functor], rfl, by simpa using h⟩

theorem trans (hst : Emits allowed s t) (htu : Emits allowed t u) : Emits allowed s u := by
  obtain ⟨first, hfirst, hallowed⟩ := hst
  obtain ⟨second, hsecond, hallowed'⟩ := htu
  refine ⟨first ++ second, by rw [hsecond, hfirst, List.append_assoc], ?_⟩
  exact List.forall_mem_append.2 ⟨hallowed, hallowed'⟩

theorem mono {allowed' : Effect → Prop} (h : Emits allowed s t)
    (hle : ∀ effect, allowed effect → allowed' effect) : Emits allowed' s t := by
  obtain ⟨since, hsince, hallowed⟩ := h
  exact ⟨since, hsince, fun effect hmem => hle effect (hallowed effect hmem)⟩

/-- What is not allowed does not occur. -/
theorem occurrences_eq (h : Emits allowed s t) {effect : Effect} (hnot : ¬ allowed effect) :
    t.occurrences effect = s.occurrences effect := by
  obtain ⟨since, hsince, hallowed⟩ := h
  have hnone : since.count effect = 0 :=
    List.count_eq_zero.2 fun hmem => hnot (hallowed effect hmem)
  calc t.occurrences effect = (s.effects ++ since).count effect := by rw [occurrences, hsince]
    _ = s.occurrences effect + since.count effect := List.count_append
    _ = s.occurrences effect := by rw [hnone, Nat.add_zero]

theorem acceptedBytes_eq (files : ℕ → List Byte) (h : Emits allowed s t)
    (hnone : ∀ effect, allowed effect → effect.accepted files = []) :
    acceptedBytes files t.effects = acceptedBytes files s.effects := by
  obtain ⟨since, hsince, hallowed⟩ := h
  have hempty : acceptedBytes files since = [] :=
    List.flatMap_eq_nil_iff.2 fun effect hmem => hnone effect (hallowed effect hmem)
  calc acceptedBytes files t.effects
      = acceptedBytes files s.effects ++ acceptedBytes files since := by
        rw [hsince, acceptedBytes_append]
    _ = acceptedBytes files s.effects := by rw [hempty, List.append_nil]

end Emits

/-! ## Sending -/

section Sending

variable (s : ConnState)

theorem emits_notifyWriteComplete : Emits Effect.IsTransfer s s.notifyWriteComplete := by
  unfold notifyWriteComplete
  split_ifs
  · exact .queueInLoop trivial
  · exact .of_eq rfl

theorem emits_appendRemaining (remaining : List Byte) :
    Emits Effect.IsTransfer s (s.appendRemaining remaining) := by
  have hnotified (oldLen newLen : ℕ) :
      Emits Effect.IsTransfer s (s.notifyHighWaterMark oldLen newLen) := by
    unfold notifyHighWaterMark
    split_ifs
    · exact .queueInLoop trivial
    · exact .of_eq rfl
  unfold appendRemaining
  dsimp only
  split_ifs
  · exact .of_eq rfl
  · exact (hnotified _ _).trans (.of_eq rfl)
  · exact (hnotified _ _).trans (.of_eq rfl)

theorem emits_sendInLoop (data : List Byte) (result : IoResult) :
    Emits Effect.IsTransfer s (s.sendInLoop data result) := by
  have hwrote : Emits Effect.IsTransfer s (s.emit (.write data result)) := .emit trivial
  unfold sendInLoop
  cases result with
  | bytes n =>
      dsimp only
      split_ifs
      · exact hwrote.trans (emits_notifyWriteComplete _)
      · exact hwrote.trans (emits_appendRemaining _ _)
      · exact emits_appendRemaining _ _
  | error errno =>
      dsimp only
      split_ifs
      · exact hwrote
      · exact hwrote.trans (emits_appendRemaining _ _)
      · exact emits_appendRemaining _ _

theorem emits_requeueFile (fileDescriptor offset remaining : ℕ) :
    Emits Effect.IsTransfer s (s.requeueFile fileDescriptor offset remaining) := by
  unfold requeueFile
  split_ifs
  · exact .of_eq rfl
  · exact .queueInLoop trivial

theorem emits_sendFileInLoop (fileDescriptor offset count : ℕ) (result : IoResult) :
    Emits Effect.IsTransfer s (s.sendFileInLoop fileDescriptor offset count result) := by
  have hsent : Emits Effect.IsTransfer s
      (s.emit (.sendfile fileDescriptor offset count result)) := .emit trivial
  unfold sendFileInLoop
  cases result with
  | bytes n =>
      dsimp only
      split_ifs
      · exact .of_eq rfl
      · exact hsent.trans (emits_notifyWriteComplete _)
      · exact hsent.trans (emits_requeueFile _ _ _ _)
      · exact emits_requeueFile _ _ _ _
  | error errno =>
      dsimp only
      split_ifs
      · exact .of_eq rfl
      · exact hsent
      · exact hsent.trans (emits_requeueFile _ _ _ _)
      · exact emits_requeueFile _ _ _ _

theorem emits_send (data : List Byte) (result : IoResult) :
    Emits Effect.IsTransfer s (s.send data result) := by
  unfold send
  split_ifs
  · exact emits_sendInLoop _ _ _
  · exact .of_eq rfl

theorem emits_sendFile (fileDescriptor offset count : ℕ) (result : IoResult) :
    Emits Effect.IsTransfer s (s.sendFile fileDescriptor offset count result) := by
  unfold sendFile
  split_ifs
  · exact emits_sendFileInLoop _ _ _ _ _
  · exact .of_eq rfl

end Sending

/-! ## Event handlers and functors -/

section Handlers

variable (s : ConnState)

theorem emits_shutdownInLoop : Emits (· = .shutdownWrite) s s.shutdownInLoop := by
  unfold shutdownInLoop
  split_ifs
  · exact .of_eq rfl
  · exact .emit rfl

theorem emits_finishWriting : Emits Effect.IsTraffic s s.finishWriting := by
  have hnotified : Emits Effect.IsTraffic s s.disableWriting.notifyWriteComplete :=
    (Emits.of_eq (t := s.disableWriting) rfl).trans
      ((emits_notifyWriteComplete _).mono fun _ => Effect.IsTransfer.isTraffic)
  unfold finishWriting
  dsimp only
  split_ifs
  · exact hnotified.trans ((emits_shutdownInLoop _).mono fun _ => Effect.isTraffic_shutdownWrite)
  · exact hnotified

theorem emits_handleWrite (result : IoResult) :
    Emits Effect.IsTraffic s (s.handleWrite result) := by
  have hwrote : Emits Effect.IsTraffic s (s.emit (.write s.conn.outputBuffer.readable result)) :=
    .emit (Effect.IsTransfer.isTraffic trivial)
  unfold handleWrite
  cases result with
  | bytes n =>
      dsimp only
      split_ifs
      · exact hwrote
      · exact (hwrote.trans (.of_eq rfl)).trans (emits_finishWriting _)
      · exact hwrote.trans (.of_eq rfl)
      · exact .of_eq rfl
  | error errno =>
      dsimp only
      split_ifs
      · exact hwrote
      · exact .of_eq rfl

/-- A read that does not see the end of the stream at most reports a message. -/
theorem emits_handleRead {result : Buffer.ReadResult} (hopen : result ≠ .data []) :
    Emits (· = .messageCallback) s (s.handleRead result) := by
  unfold handleRead
  split
  · exact absurd rfl hopen
  · exact (Emits.of_eq rfl).trans (.emit rfl)
  · exact .of_eq rfl

theorem emits_runFunctor (functor : Functor) (result : IoResult) :
    Emits Effect.IsTraffic s (s.runFunctor functor result) := by
  cases functor with
  | writeComplete => exact .of_eq rfl
  | highWaterMark size => exact .of_eq rfl
  | sendInLoop data =>
      exact (emits_sendInLoop _ _ _).mono fun _ => Effect.IsTransfer.isTraffic
  | sendFileInLoop fileDescriptor offset count =>
      exact (emits_sendFileInLoop _ _ _ _ _).mono fun _ => Effect.IsTransfer.isTraffic
  | shutdownInLoop =>
      exact (emits_shutdownInLoop _).mono fun _ => Effect.isTraffic_shutdownWrite

theorem emits_handleClose :
    Emits (fun effect => effect = .connectionCallback ∨ effect = .closeCallback) s s.handleClose :=
  ((Emits.of_eq rfl).trans (.emit (.inl rfl))).trans (.emit (.inr rfl))

theorem emits_connectDestroyed : Emits (· = .connectionCallback) s s.connectDestroyed := by
  have hreported : Emits (· = .connectionCallback) s
      (((s.setState .kDisconnected).disableAll).emit .connectionCallback) :=
    (Emits.of_eq rfl).trans (.emit rfl)
  unfold connectDestroyed
  split_ifs
  · exact hreported.trans (.of_eq rfl)
  · exact .of_eq rfl

end Handlers

/-! ## Shutting down the write end -/

section ShuttingDown

variable (s : ConnState)

theorem occurrences_shutdownInLoop : s.shutdownInLoop.occurrences .shutdownWrite =
    s.occurrences .shutdownWrite + if s.isWriting then 0 else 1 := by
  unfold shutdownInLoop isWriting
  split_ifs <;> simp

theorem occurrences_finishWriting : s.finishWriting.occurrences .shutdownWrite =
    s.occurrences .shutdownWrite + if s.conn.state = .kDisconnecting then 1 else 0 := by
  have hnotified : s.disableWriting.notifyWriteComplete.occurrences .shutdownWrite =
      s.disableWriting.occurrences .shutdownWrite :=
    (emits_notifyWriteComplete s.disableWriting).occurrences_eq id
  have hdisabled := occurrences_congr (t := s.disableWriting) (s := s) rfl .shutdownWrite
  have hstate : s.disableWriting.notifyWriteComplete.conn.state = s.conn.state := by
    simp [disableWriting]
  unfold finishWriting
  dsimp only
  rw [hstate]
  split_ifs
  · simp [occurrences_shutdownInLoop, hnotified, hdisabled]
  · rw [hnotified, hdisabled, Nat.add_zero]

/-- `handleWrite` shuts down the write end exactly when it has written the last of the
waiting bytes in state `kDisconnecting`. -/
theorem occurrences_handleWrite (result : IoResult) :
    (s.handleWrite result).occurrences .shutdownWrite = s.occurrences .shutdownWrite +
      if s.isWriting ∧ (s.handleWrite result).isWriting = false ∧
        s.conn.state = .kDisconnecting then 1 else 0 := by
  have hwriting : s.conn.channel.isWriting = s.isWriting := rfl
  by_cases hon : s.isWriting = true
  · cases result with
    | bytes n =>
        by_cases hzero : n = 0
        · simp [handleWrite, hwriting, hon, hzero]
        · by_cases hdrained : s.output.length - n = 0
          · by_cases hstate : s.conn.state = .kDisconnecting <;>
              simp [handleWrite, hwriting, hon, hzero, hdrained, hstate,
                occurrences_finishWriting, occurrences_congr (setOutput_effects _ _)]
          · simp [handleWrite, hwriting, hon, hzero, hdrained,
              occurrences_congr (setOutput_effects _ _)]
    | error errno => simp [handleWrite, hwriting, hon]
  · simp [handleWrite, hwriting, hon]

end ShuttingDown

end ConnState

end MuduoLite
