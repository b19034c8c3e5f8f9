import MuduoLite.Connection.Model

/-!
# What the methods of a connection change

Three views of a `ConnState` are enough for the rest of the development: the
bytes waiting in the output buffer (`output`), the write interest (`isWriting`)
and the connection's place in the poller.  This file says for every primitive
step and every method what it does to each of them.

`Local` is the frame condition on the poller.  A method of a connection touches
the poller at the connection's own fd only, and there it keeps the table, the
kernel's list and the channel in agreement.
-/

namespace MuduoLite

open EPollPoller

/-! ## Bytes accepted by the kernel -/

section AcceptedBytes

variable (files : ℕ → List Byte)

@[simp] theorem acceptedBytes_nil : acceptedBytes files [] = [] := rfl

@[simp] theorem acceptedBytes_append (first second : List Effect) :
    acceptedBytes files (first ++ second) =
      acceptedBytes files first ++ acceptedBytes files second := List.flatMap_append

@[simp] theorem acceptedBytes_singleton (effect : Effect) :
    acceptedBytes files [effect] = effect.accepted files := by
  simp [acceptedBytes]

end AcceptedBytes

namespace ConnState

/-- The bytes that wait for the socket. -/
def output (s : ConnState) : List Byte := s.conn.outputBuffer.readable

def isWriting (s : ConnState) : Bool := s.conn.channel.isWriting

@[simp] theorem readable_outputBuffer (s : ConnState) :
    s.conn.outputBuffer.readable = s.output := rfl

theorem output_congr {s t : ConnState} (h : s.conn = t.conn) : s.output = t.output := by
  rw [output, output, h]

theorem isWriting_congr {s t : ConnState} (h : s.conn = t.conn) : s.isWriting = t.isWriting := by
  rw [isWriting, isWriting, h]

/-! ## Fields after a primitive step -/

section Primitive

variable (s : ConnState) (effect : Effect) (functor : Functor) (state : StateE)
  (buffer : ValidBuffer) (events : EventMask)

@[simp] theorem emit_conn : (s.emit effect).conn = s.conn := rfl
@[simp] theorem emit_output : (s.emit effect).output = s.output := rfl
@[simp] theorem emit_isWriting : (s.emit effect).isWriting = s.isWriting := rfl
@[simp] theorem emit_effects : (s.emit effect).effects = s.effects ++ [effect] := rfl
@[simp] theorem emit_pendingFunctors :
    (s.emit effect).pendingFunctors = s.pendingFunctors := rfl

@[simp] theorem queueInLoop_conn : (s.queueInLoop functor).conn = s.conn := rfl
@[simp] theorem queueInLoop_output : (s.queueInLoop functor).output = s.output := rfl
@[simp] theorem queueInLoop_isWriting : (s.queueInLoop functor).isWriting = s.isWriting := rfl
@[simp] theorem queueInLoop_effects :
    (s.queueInLoop functor).effects = s.effects ++ [.queued functor] := rfl
@[simp] theorem queueInLoop_pendingFunctors :
    (s.queueInLoop functor).pendingFunctors = s.pendingFunctors ++ [functor] := rfl

@[simp] theorem setState_state : (s.setState state).conn.state = state := rfl
@[simp] theorem setState_output : (s.setState state).output = s.output := rfl
@[simp] theorem setState_isWriting : (s.setState state).isWriting = s.isWriting := rfl
@[simp] theorem setState_effects : (s.setState state).effects = s.effects := rfl
@[simp] theorem setState_pendingFunctors :
    (s.setState state).pendingFunctors = s.pendingFunctors := rfl

@[simp] theorem setInput_output : (s.setInput buffer).output = s.output := rfl
@[simp] theorem setInput_isWriting : (s.setInput buffer).isWriting = s.isWriting := rfl
@[simp] theorem setInput_effects : (s.setInput buffer).effects = s.effects := rfl

@[simp] theorem setOutput_state : (s.setOutput buffer).conn.state = s.conn.state := rfl
@[simp] theorem setOutput_channel : (s.setOutput buffer).conn.channel = s.conn.channel := rfl
@[simp] theorem setOutput_output : (s.setOutput buffer).output = buffer.readable := rfl
@[simp] theorem setOutput_isWriting : (s.setOutput buffer).isWriting = s.isWriting := rfl
@[simp] theorem setOutput_effects : (s.setOutput buffer).effects = s.effects := rfl
@[simp] theorem setOutput_pendingFunctors :
    (s.setOutput buffer).pendingFunctors = s.pendingFunctors := rfl

@[simp] theorem setEvents_state : (s.setEvents events).conn.state = s.conn.state := rfl
@[simp] theorem setEvents_output : (s.setEvents events).output = s.output := rfl
@[simp] theorem setEvents_effects : (s.setEvents events).effects = s.effects := rfl
@[simp] theorem setEvents_pendingFunctors :
    (s.setEvents events).pendingFunctors = s.pendingFunctors := rfl
@[simp] theorem setEvents_events : (s.setEvents events).conn.channel.events = events := by
  simp [setEvents]

end Primitive

@[simp] theorem enableWriting_isWriting (s : ConnState) : s.enableWriting.isWriting = true := by
  simpa [isWriting, enableWriting, Channel.isWriting] using
    Channel.or_kWriteEvent_and s.conn.channel.events

@[simp] theorem disableWriting_isWriting (s : ConnState) : s.disableWriting.isWriting = false := by
  simpa [isWriting, disableWriting, Channel.isWriting] using
    Channel.andNot_kWriteEvent_and s.conn.channel.events

@[simp] theorem disableAll_isWriting (s : ConnState) : s.disableAll.isWriting = false := by
  simp [isWriting, disableAll, Channel.isWriting, Channel.kNoneEvent]

theorem isIdle_iff (s : ConnState) : s.isIdle = true ↔ s.isWriting = false ∧ s.output = [] := by
  simp [isIdle, isWriting, List.length_eq_zero_iff]

/-! ## Composite steps -/

@[simp] theorem notifyWriteComplete_conn (s : ConnState) :
    s.notifyWriteComplete.conn = s.conn := by
  unfold notifyWriteComplete
  split_ifs <;> rfl

@[simp] theorem notifyHighWaterMark_conn (s : ConnState) (oldLen newLen : ℕ) :
    (s.notifyHighWaterMark oldLen newLen).conn = s.conn := by
  unfold notifyHighWaterMark
  split_ifs <;> rfl

@[simp] theorem notifyWriteComplete_output (s : ConnState) :
    s.notifyWriteComplete.output = s.output := output_congr (by simp)

@[simp] theorem notifyWriteComplete_isWriting (s : ConnState) :
    s.notifyWriteComplete.isWriting = s.isWriting := isWriting_congr (by simp)

@[simp] theorem notifyHighWaterMark_output (s : ConnState) (oldLen newLen : ℕ) :
    (s.notifyHighWaterMark oldLen newLen).output = s.output := output_congr (by simp)

@[simp] theorem notifyHighWaterMark_isWriting (s : ConnState) (oldLen newLen : ℕ) :
    (s.notifyHighWaterMark oldLen newLen).isWriting = s.isWriting := isWriting_congr (by simp)

@[simp] theorem notifyWriteComplete_acceptedBytes (files : ℕ → List Byte) (s : ConnState) :
    acceptedBytes files s.notifyWriteComplete.effects = acceptedBytes files s.effects := by
  unfold notifyWriteComplete
  split_ifs <;> simp [Effect.accepted]

@[simp] theorem notifyHighWaterMark_acceptedBytes (files : ℕ → List Byte) (s : ConnState)
    (oldLen newLen : ℕ) : acceptedBytes files (s.notifyHighWaterMark oldLen newLen).effects =
      acceptedBytes files s.effects := by
  unfold notifyHighWaterMark
  split_ifs <;> simp [Effect.accepted]

section AppendRemaining

variable (s : ConnState) (remaining : List Byte)

@[simp] theorem appendRemaining_output :
    (s.appendRemaining remaining).output = s.output ++ remaining := by
  unfold appendRemaining
  dsimp only
  split_ifs with hempty
  · simp [hempty]
  · simp
  · simp [enableWriting]

theorem appendRemaining_isWriting :
    (s.appendRemaining remaining).isWriting = (s.isWriting || remaining ≠ []) := by
  unfold appendRemaining
  dsimp only
  split_ifs with hempty hwriting
  · simp [hempty]
  · simpa [hempty, isWriting] using hwriting
  · simp [hempty]

@[simp] theorem appendRemaining_state :
    (s.appendRemaining remaining).conn.state = s.conn.state := by
  unfold appendRemaining
  dsimp only
  split_ifs <;> simp [enableWriting]

@[simp] theorem appendRemaining_acceptedBytes (files : ℕ → List Byte) :
    acceptedBytes files (s.appendRemaining remaining).effects = acceptedBytes files s.effects := by
  unfold appendRemaining
  dsimp only
  split_ifs <;> simp [enableWriting]

end AppendRemaining

@[simp] theorem requeueFile_conn (s : ConnState) (fileDescriptor offset remaining : ℕ) :
    (s.requeueFile fileDescriptor offset remaining).conn = s.conn := by
  unfold requeueFile
  split_ifs <;> rfl

@[simp] theorem requeueFile_acceptedBytes (files : ℕ → List Byte) (s : ConnState)
    (fileDescriptor offset remaining : ℕ) :
    acceptedBytes files (s.requeueFile fileDescriptor offset remaining).effects =
      acceptedBytes files s.effects := by
  unfold requeueFile
  split_ifs <;> simp [Effect.accepted]

@[simp] theorem sendFileInLoop_conn (s : ConnState) (fileDescriptor offset count : ℕ)
    (result : IoResult) : (s.sendFileInLoop fileDescriptor offset count result).conn = s.conn := by
  unfold sendFileInLoop
  cases result with
  | bytes n =>
      dsimp only
      split_ifs <;> simp
  | error errno =>
      dsimp only
      split_ifs <;> simp

@[simp] theorem shutdownInLoop_conn (s : ConnState) : s.shutdownInLoop.conn = s.conn := by
  unfold shutdownInLoop
  split_ifs <;> rfl

@[simp] theorem shutdownInLoop_output (s : ConnState) : s.shutdownInLoop.output = s.output :=
  output_congr (by simp)

@[simp] theorem shutdownInLoop_isWriting (s : ConnState) :
    s.shutdownInLoop.isWriting = s.isWriting := isWriting_congr (by simp)

@[simp] theorem shutdownInLoop_acceptedBytes (files : ℕ → List Byte) (s : ConnState) :
    acceptedBytes files s.shutdownInLoop.effects = acceptedBytes files s.effects := by
  unfold shutdownInLoop
  split_ifs <;> simp [Effect.accepted]

@[simp] theorem finishWriting_output (s : ConnState) : s.finishWriting.output = s.output := by
  unfold finishWriting
  dsimp only
  split_ifs <;> simp [disableWriting]

@[simp] theorem finishWriting_isWriting (s : ConnState) : s.finishWriting.isWriting = false := by
  unfold finishWriting
  dsimp only
  split_ifs <;> simp

@[simp] theorem finishWriting_acceptedBytes (files : ℕ → List Byte) (s : ConnState) :
    acceptedBytes files s.finishWriting.effects = acceptedBytes files s.effects := by
  unfold finishWriting
  dsimp only
  split_ifs <;> simp [disableWriting]

/-- A read that sees the end of the stream closes the connection. -/
theorem exists_handleRead_eof (s : ConnState) :
    ∃ buffer, s.handleRead (.data []) = (s.setInput buffer).handleClose :=
  ⟨s.conn.inputBuffer.readFd (.data []), by simp only [handleRead]⟩

/-- A read that does not see the end of the stream leaves the send path alone. -/
theorem handleRead_sendPath (files : ℕ → List Byte) (s : ConnState) {result : Buffer.ReadResult}
    (hopen : result ≠ .data []) :
    (s.handleRead result).output = s.output ∧ (s.handleRead result).isWriting = s.isWriting ∧
      acceptedBytes files (s.handleRead result).effects = acceptedBytes files s.effects := by
  unfold handleRead
  split
  · exact absurd rfl hopen
  · simp [Effect.accepted]
  · simp [handleError]

/-! ## The place in the poller -/

/-- From `s` to `t` the poller changed at most at the fd of the connection,
where it still mirrors the channel. -/
structure Local (s t : ConnState) : Prop where
  self_eq : t.self = s.self
  fd_eq : t.conn.channel.fd = s.conn.channel.fd
  mirrors : Mirrors s.poller s.self s.conn.channel → Mirrors t.poller t.self t.conn.channel
  agreesOff : Mirrors s.poller s.self s.conn.channel →
    AgreesOff s.poller t.poller s.conn.channel.fd

namespace Local

theorem refl (s : ConnState) : Local s s := ⟨rfl, rfl, id, fun _ => .refl _ _⟩

theorem trans {s t u : ConnState} (hst : Local s t) (htu : Local t u) : Local s u where
  self_eq := htu.self_eq.trans hst.self_eq
  fd_eq := htu.fd_eq.trans hst.fd_eq
  mirrors := htu.mirrors ∘ hst.mirrors
  agreesOff := fun h => (hst.agreesOff h).trans (hst.fd_eq ▸ htu.agreesOff (hst.mirrors h))

end Local

section LocalSteps

variable (s : ConnState)

theorem local_emit (effect : Effect) : Local s (s.emit effect) := ⟨rfl, rfl, id, fun _ => .refl _ _⟩

theorem local_queueInLoop (functor : Functor) : Local s (s.queueInLoop functor) :=
  ⟨rfl, rfl, id, fun _ => .refl _ _⟩

theorem local_setState (state : StateE) : Local s (s.setState state) :=
  ⟨rfl, rfl, id, fun _ => .refl _ _⟩

theorem local_setInput (buffer : ValidBuffer) : Local s (s.setInput buffer) :=
  ⟨rfl, rfl, id, fun _ => .refl _ _⟩

theorem local_setOutput (buffer : ValidBuffer) : Local s (s.setOutput buffer) :=
  ⟨rfl, rfl, id, fun _ => .refl _ _⟩

theorem local_tie : Local s s.tie :=
  ⟨rfl, rfl, fun h => ⟨h.channels_eq, h.interest_eq⟩, fun _ => .refl _ _⟩

theorem local_setEvents (events : EventMask) : Local s (s.setEvents events) where
  self_eq := rfl
  fd_eq := by simp [setEvents]
  mirrors := fun h => (updateChannel_mirrors h events).1
  agreesOff := fun h => (updateChannel_mirrors h events).2

theorem local_remove : Local s s.remove where
  self_eq := rfl
  fd_eq := rfl
  mirrors := fun h => (removeChannel_mirrors h).1
  agreesOff := fun h => (removeChannel_mirrors h).2

theorem local_connectEstablished : Local s s.connectEstablished :=
  (((local_setState _ _).trans (local_tie _)).trans (local_setEvents _ _)).trans (local_emit _ _)

theorem local_connectDestroyed : Local s s.connectDestroyed := by
  unfold connectDestroyed
  split_ifs
  · exact (((local_setState _ _).trans (local_setEvents _ _)).trans (local_emit _ _)).trans
      (local_remove _)
  · exact local_remove _

theorem local_handleClose : Local s s.handleClose :=
  (((local_setState _ _).trans (local_setEvents _ _)).trans (local_emit _ _)).trans (local_emit _ _)

end LocalSteps

/-! ## Traffic

The methods that move data, and nothing else, are chains of a few primitive
steps.  A chain changes neither the connection's state nor its read interest and
does not report a close.  What it puts into the loop's queue owns the connection. -/

/-- The primitive steps of the methods that move data. -/
inductive TrafficStep : ConnState → ConnState → Prop
  | emit (s : ConnState) (effect : Effect) (hclose : effect ≠ .closeCallback) :
      TrafficStep s (s.emit effect)
  | queueInLoop (s : ConnState) (functor : Functor) (howns : functor.owns = true) :
      TrafficStep s (s.queueInLoop functor)
  | setInput (s : ConnState) (buffer : ValidBuffer) : TrafficStep s (s.setInput buffer)
  | setOutput (s : ConnState) (buffer : ValidBuffer) : TrafficStep s (s.setOutput buffer)
  | enableWriting (s : ConnState) : TrafficStep s s.enableWriting
  | disableWriting (s : ConnState) : TrafficStep s s.disableWriting

/-- A chain of primitive steps that move data. -/
abbrev Traffic : ConnState → ConnState → Prop := Relation.ReflTransGen TrafficStep

section TrafficMethods

open Relation

variable (s : ConnState)

theorem traffic_notifyWriteComplete : Traffic s s.notifyWriteComplete := by
  unfold notifyWriteComplete
  split_ifs
  · exact .single (.queueInLoop _ _ rfl)
  · exact .refl

theorem traffic_notifyHighWaterMark (oldLen newLen : ℕ) :
    Traffic s (s.notifyHighWaterMark oldLen newLen) := by
  unfold notifyHighWaterMark
  split_ifs
  · exact .single (.queueInLoop _ _ rfl)
  · exact .refl

theorem traffic_appendRemaining (remaining : List Byte) :
    Traffic s (s.appendRemaining remaining) := by
  unfold appendRemaining
  dsimp only
  split_ifs
  · exact .refl
  · exact (traffic_notifyHighWaterMark _ _ _).tail (.setOutput _ _)
  · exact ((traffic_notifyHighWaterMark _ _ _).tail (.setOutput _ _)).tail (.enableWriting _)

/-- The direct write of `sendInLoop` comes first. -/
theorem traffic_sendInLoop_of_isIdle {s : ConnState} (hidle : s.isIdle = true) (data : List Byte)
    (result : IoResult) : Traffic (s.emit (.write data result)) (s.sendInLoop data result) := by
  simp only [sendInLoop, hidle, if_true]
  cases result with
  | bytes n =>
      dsimp only
      split_ifs
      · exact traffic_notifyWriteComplete _
      · exact traffic_appendRemaining _ _
  | error errno =>
      dsimp only
      split_ifs
      · exact .refl
      · exact traffic_appendRemaining _ _

theorem traffic_sendInLoop (data : List Byte) (result : IoResult) :
    Traffic s (s.sendInLoop data result) := by
  by_cases hidle : s.isIdle = true
  · exact .head (.emit _ _ (by simp)) (traffic_sendInLoop_of_isIdle hidle data result)
  · simp only [sendInLoop, hidle, Bool.false_eq_true, if_false]
    exact traffic_appendRemaining _ _

theorem traffic_requeueFile (fileDescriptor offset remaining : ℕ) :
    Traffic s (s.requeueFile fileDescriptor offset remaining) := by
  unfold requeueFile
  split_ifs
  · exact .refl
  · exact .single (.queueInLoop _ _ rfl)

/-- Where `sendFileInLoop` calls `sendfile`, it does so first. -/
theorem traffic_sendFileInLoop_of_isIdle {s : ConnState} (hstate : s.conn.state ≠ .kDisconnecting)
    (hidle : s.isIdle = true) (fileDescriptor offset count : ℕ) (result : IoResult) :
    Traffic (s.emit (.sendfile fileDescriptor offset count result))
      (s.sendFileInLoop fileDescriptor offset count result) := by
  simp only [sendFileInLoop, hstate, hidle, if_true, if_false]
  cases result with
  | bytes n =>
      dsimp only
      split_ifs
      · exact traffic_notifyWriteComplete _
      · exact traffic_requeueFile _ _ _ _
  | error errno =>
      dsimp only
      split_ifs
      · exact .refl
      · exact traffic_requeueFile _ _ _ _

theorem traffic_sendFileInLoop (fileDescriptor offset count : ℕ) (result : IoResult) :
    Traffic s (s.sendFileInLoop fileDescriptor offset count result) := by
  by_cases hstate : s.conn.state = .kDisconnecting
  · simp only [sendFileInLoop, hstate, if_true]
    exact .refl
  · by_cases hidle : s.isIdle = true
    · exact .head (.emit _ _ (by simp)) (traffic_sendFileInLoop_of_isIdle hstate hidle _ _ _ _)
    · simp only [sendFileInLoop, hstate, hidle, Bool.false_eq_true, if_false]
      exact traffic_requeueFile _ _ _ _

theorem traffic_shutdownInLoop : Traffic s s.shutdownInLoop := by
  unfold shutdownInLoop
  split_ifs
  · exact .refl
  · exact .single (.emit _ _ (by simp))

theorem traffic_finishWriting : Traffic s s.finishWriting := by
  have hnotified : Traffic s s.disableWriting.notifyWriteComplete :=
    .head (.disableWriting _) (traffic_notifyWriteComplete _)
  unfold finishWriting
  dsimp only
  split_ifs
  · exact hnotified.trans (traffic_shutdownInLoop _)
  · exact hnotified

theorem traffic_handleWrite (result : IoResult) : Traffic s (s.handleWrite result) := by
  have hwrote : Traffic s (s.emit (.write s.conn.outputBuffer.readable result)) :=
    .single (.emit _ _ (by simp))
  unfold handleWrite
  cases result with
  | bytes n =>
      dsimp only
      split_ifs
      · exact hwrote
      · exact (hwrote.tail (.setOutput _ _)).trans (traffic_finishWriting _)
      · exact hwrote.tail (.setOutput _ _)
      · exact .refl
  | error errno =>
      dsimp only
      split_ifs
      · exact hwrote
      · exact .refl

/-- Unless the peer has closed, `handleRead` only moves data. -/
theorem traffic_handleRead {result : Buffer.ReadResult} (hopen : result ≠ .data []) :
    Traffic s (s.handleRead result) := by
  have hread : Traffic s (s.setInput (s.conn.inputBuffer.readFd result)) :=
    .single (.setInput _ _)
  unfold handleRead
  split
  · exact absurd rfl hopen
  · exact hread.tail (.emit _ _ (by simp))
  · exact hread

theorem traffic_runFunctor (functor : Functor) (result : IoResult) :
    Traffic s (s.runFunctor functor result) := by
  cases functor with
  | writeComplete => exact .refl
  | highWaterMark size => exact .refl
  | sendInLoop data => exact traffic_sendInLoop _ _ _
  | sendFileInLoop fileDescriptor offset count => exact traffic_sendFileInLoop _ _ _ _ _
  | shutdownInLoop => exact traffic_shutdownInLoop _

theorem traffic_send (data : List Byte) (result : IoResult) : Traffic s (s.send data result) := by
  unfold send
  split_ifs
  · exact traffic_sendInLoop _ _ _
  · exact .refl

theorem traffic_sendFile (fileDescriptor offset count : ℕ) (result : IoResult) :
    Traffic s (s.sendFile fileDescriptor offset count result) := by
  unfold sendFile
  split_ifs
  · exact traffic_sendFileInLoop _ _ _ _ _
  · exact .refl

end TrafficMethods

namespace Traffic

variable {s t : ConnState}

theorem toLocal (h : Traffic s t) : Local s t := by
  induction h with
  | refl => exact .refl _
  | tail _ hlast ih =>
      refine ih.trans ?_
      cases hlast with
      | emit effect _ => exact local_emit _ effect
      | queueInLoop functor _ => exact local_queueInLoop _ functor
      | setInput buffer => exact local_setInput _ buffer
      | setOutput buffer => exact local_setOutput _ buffer
      | enableWriting => exact local_setEvents _ _
      | disableWriting => exact local_setEvents _ _

theorem state_eq (h : Traffic s t) : t.conn.state = s.conn.state := by
  induction h with
  | refl => rfl
  | tail _ hlast ih =>
      rw [← ih]
      cases hlast <;> rfl

/-- What a chain does outside the object comes after what was done before. -/
theorem effects_prefix (h : Traffic s t) : s.effects <+: t.effects := by
  induction h with
  | refl => exact List.prefix_rfl
  | tail _ hlast ih =>
      refine ih.trans ?_
      cases hlast with
      | emit effect _ => exact List.prefix_append _ _
      | queueInLoop functor _ => exact List.prefix_append _ _
      | setInput buffer => exact List.prefix_rfl
      | setOutput buffer => exact List.prefix_rfl
      | enableWriting => exact List.prefix_rfl
      | disableWriting => exact List.prefix_rfl

/-- The functors that a chain queues own the connection. -/
theorem pendingFunctors_owns (h : Traffic s t) {functor : Functor}
    (hmem : functor ∈ t.pendingFunctors) :
    functor ∈ s.pendingFunctors ∨ functor.owns = true := by
  induction h with
  | refl => exact .inl hmem
  | tail _ hlast ih =>
      cases hlast with
      | emit effect _ => exact ih hmem
      | queueInLoop queued howns =>
          rcases List.mem_append.1 hmem with hold | hnew
          · exact ih hold
          · rw [List.mem_singleton.1 hnew]
            exact .inr howns
      | setInput buffer => exact ih hmem
      | setOutput buffer => exact ih hmem
      | enableWriting => exact ih hmem
      | disableWriting => exact ih hmem

/-- A chain does not report a close. -/
theorem closeCallback_mem (h : Traffic s t) (hmem : .closeCallback ∈ t.effects) :
    .closeCallback ∈ s.effects := by
  induction h with
  | refl => exact hmem
  | tail _ hlast ih =>
      cases hlast with
      | emit effect hclose => exact ih (by simpa [Ne.symm hclose] using hmem)
      | queueInLoop queued _ => exact ih (by simpa using hmem)
      | setInput buffer => exact ih hmem
      | setOutput buffer => exact ih hmem
      | enableWriting => exact ih hmem
      | disableWriting => exact ih hmem

theorem isReading_eq (h : Traffic s t) : t.conn.channel.isReading = s.conn.channel.isReading := by
  induction h with
  | refl => rfl
  | tail _ hlast ih =>
      rw [← ih]
      cases hlast with
      | emit effect _ => rfl
      | queueInLoop functor _ => rfl
      | setInput buffer => rfl
      | setOutput buffer => rfl
      | enableWriting =>
          simp only [Channel.isReading, enableWriting, setEvents_events,
            Channel.or_kWriteEvent_and_kReadEvent]
      | disableWriting =>
          simp only [Channel.isReading, disableWriting, setEvents_events,
            Channel.andNot_kWriteEvent_and_kReadEvent]

end Traffic

/-! ## Open connections -/

/-- The connection is registered in its poller for reading, as `connectEstablished`
leaves it. -/
structure Open (s : ConnState) : Prop where
  mirrors : Mirrors s.poller s.self s.conn.channel
  added : s.conn.channel.index = .kAdded
  reading : s.conn.channel.isReading = true

theorem Open.setEvents {s : ConnState} (h : Open s) {events : EventMask}
    (hreading : events &&& Channel.kReadEvent = s.conn.channel.events &&& Channel.kReadEvent) :
    Open (s.setEvents events) := by
  have hreading' : Channel.isReading { s.conn.channel with events := events } = true := by
    simpa only [Channel.isReading, hreading] using h.reading
  refine ⟨(updateChannel_mirrors h.mirrors events).1, ?_, ?_⟩
  · exact updateChannel_index_of_interest _ _ (Channel.not_isNoneEvent_of_isReading hreading')
  · simpa only [ConnState.setEvents, updateChannel_isReading] using hreading'

theorem Traffic.open {s t : ConnState} (h : Traffic s t) (hopen : Open s) : Open t := by
  induction h with
  | refl => exact hopen
  | tail _ hlast ih =>
      cases hlast with
      | emit effect _ => exact ⟨ih.mirrors, ih.added, ih.reading⟩
      | queueInLoop functor _ => exact ⟨ih.mirrors, ih.added, ih.reading⟩
      | setInput buffer => exact ⟨ih.mirrors, ih.added, ih.reading⟩
      | setOutput buffer => exact ⟨ih.mirrors, ih.added, ih.reading⟩
      | enableWriting => exact ih.setEvents (Channel.or_kWriteEvent_and_kReadEvent _)
      | disableWriting => exact ih.setEvents (Channel.andNot_kWriteEvent_and_kReadEvent _)

/-- A connection as its constructor leaves it: no event handled, its channel
unknown to the poller, which may hold other channels. -/
structure Fresh (s : ConnState) : Prop where
  state_eq : s.conn.state = .kConnecting
  index_eq : s.conn.channel.index = .kNew
  events_eq : s.conn.channel.events = Channel.kNoneEvent
  output_eq : s.output = []
  mirrors : Mirrors s.poller s.self s.conn.channel
  effects_eq : s.effects = []

section Established

variable {s : ConnState}

@[simp] theorem connectEstablished_state : s.connectEstablished.conn.state = .kConnected := rfl

theorem connectEstablished_events : s.connectEstablished.conn.channel.events =
    s.conn.channel.events ||| Channel.kReadEvent := by
  simp [connectEstablished, enableReading, tie, setState]

theorem open_connectEstablished (h : Mirrors s.poller s.self s.conn.channel) :
    Open s.connectEstablished := by
  have hbits := Channel.or_kReadEvent_and s.conn.channel.events
  have hreading : s.connectEstablished.conn.channel.isReading = true := by
    simp only [Channel.isReading, connectEstablished_events]
    exact decide_eq_true hbits
  refine ⟨(local_connectEstablished s).mirrors h, ?_, hreading⟩
  exact updateChannel_index_of_interest _ _
    (Channel.not_isNoneEvent_of_isReading (decide_eq_true hbits))

end Established

end ConnState

end MuduoLite
