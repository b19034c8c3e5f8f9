import MuduoLite.Connection.SendPath

/-!
# A closed connection

What can still happen to a connection after `handleClose`, or after
`connectDestroyed` on a connected one?  A run interleaves the loop thread with
the other threads.

* The loop thread polls the channel, runs the callbacks of the event one by one,
  and then runs queued functors or `connectDestroyed`; user code calls `send`,
  `sendFile` and `shutdown` at any moment.
* Another thread tests for `kConnected` at the start of its call and puts its
  functor into the queue later.  A thread in `shutdown` also stores
  `kDisconnecting` between the two.

`closed` is a history variable: the connection as the closing step left it.
`Quiescent` compares the present with it.  A closed connection stays quiescent
exactly as long as each step `LeavesAlone` what the code does not check:
`sendInLoop` logs in state `kDisconnected` but goes on, `sendFileInLoop` tests
for `kDisconnecting` only, and a second `handleClose` calls `disableAll` on a
channel that is no longer registered, which registers it.
-/

namespace MuduoLite

open Transition EPollPoller

namespace Quiescence

structure System where
  conn : ConnState
  /-- the callbacks of the event being handled that have not run yet -/
  callbacks : List Channel.Callback := []
  /-- the functors of calls that have seen `kConnected` and not queued them yet -/
  calls : List Functor := []
  /-- the `shutdown` calls that have seen `kConnected` and not stored `kDisconnecting` yet -/
  shutdowns : ℕ := 0
  closed : Option ConnState := none

inductive Label
  | callSend (data : List Byte)
  | callSendFile (fileDescriptor offset count : ℕ)
  | callShutdown
  | storeDisconnecting
  | queueCall (functor : Functor)
  | poll (revents : EventMask)
  | callback (read : Buffer.ReadResult) (result : IoResult)
  | runFunctor (result : IoResult)
  | connectDestroyed
  | send (data : List Byte) (result : IoResult)
  | sendFile (fileDescriptor offset count : ℕ) (result : IoResult)
  | shutdown
  deriving DecidableEq, Repr

/-- The connection moves on to `conn`; remember the first state in which it is closed. -/
def System.move (p : System) (conn : ConnState) : System :=
  { p with
    conn := conn
    closed := if p.closed.isNone ∧ conn.conn.state = .kDisconnected then some conn else p.closed }

def Step (p : System) (label : Label) (q : System) : Prop :=
  match label with
  | .callSend data => p.conn.conn.state = .kConnected ∧
      q = { p with calls := .sendInLoop data :: p.calls }
  | .callSendFile fileDescriptor offset count => p.conn.conn.state = .kConnected ∧
      q = { p with calls := .sendFileInLoop fileDescriptor offset count :: p.calls }
  | .callShutdown => p.conn.conn.state = .kConnected ∧ q = { p with shutdowns := p.shutdowns + 1 }
  | .storeDisconnecting => 0 < p.shutdowns ∧
      q = { p.move (p.conn.setState .kDisconnecting) with
        shutdowns := p.shutdowns - 1, calls := .shutdownInLoop :: p.calls }
  | .queueCall functor => functor ∈ p.calls ∧
      q = { p with
        conn := { p.conn with pendingFunctors := p.conn.pendingFunctors ++ [functor] }
        calls := p.calls.erase functor }
  | .poll revents => p.callbacks = [] ∧ p.conn.poller.interest p.conn.conn.channel.fd ≠ none ∧
      q = { p with callbacks := Channel.handleEventWithGuard revents }
  | .callback read result => ∃ callback rest, p.callbacks = callback :: rest ∧
      q = { p.move (p.conn.runCallback callback read result) with callbacks := rest }
  | .runFunctor result => p.callbacks = [] ∧ ∃ functor rest,
      p.conn.pendingFunctors = functor :: rest ∧
        q = p.move ({ p.conn with pendingFunctors := rest }.runFunctor functor result)
  | .connectDestroyed => p.callbacks = [] ∧ q = p.move p.conn.connectDestroyed
  | .send data result => q = p.move (p.conn.send data result)
  | .sendFile fileDescriptor offset count result =>
      q = p.move (p.conn.sendFile fileDescriptor offset count result)
  | .shutdown => q = p.move p.conn.shutdown

/-- The connection has just been established. -/
def start (s : ConnState) : System := { conn := s.connectEstablished }

/-- Does an effect hand bytes to the socket? -/
def sends : Effect → Bool
  | .write _ _ => true
  | .sendfile _ _ _ _ => true
  | _ => false

/-- Since the connection was closed it has not written to the socket, not
appended to its output buffer and not registered its channel. -/
structure QuietSince (closed s : ConnState) : Prop where
  effects : ∃ since, s.effects = closed.effects ++ since ∧ ∀ effect ∈ since, sends effect = false
  output : s.output = closed.output
  interest : s.poller.interest s.conn.channel.fd = none

def Quiescent (p : System) : Prop := ∀ closed, p.closed = some closed → QuietSince closed p.conn

/-- The functors that do nothing to a closed connection. -/
def HarmlessFunctor (s : ConnState) : Functor → Prop
  | .sendInLoop data => data = [] ∧ s.output ≠ []
  | .sendFileInLoop _ _ _ => s.conn.state = .kDisconnecting ∨ s.output ≠ []
  | _ => True

/-- The callbacks that do not close the connection again. -/
def HarmlessCallback (read : Buffer.ReadResult) : Channel.Callback → Prop
  | .closeCallback => False
  | .readCallback => read ≠ .data []
  | _ => True

/-- A step on a closed connection runs neither a functor nor a callback that the
code should have dropped. -/
def LeavesAlone (p : System) : Label → Prop
  | .callback read _ => p.closed = none ∨
      ∀ callback ∈ p.callbacks.head?, HarmlessCallback read callback
  | .runFunctor _ => p.closed = none ∨
      ∀ functor ∈ p.conn.pendingFunctors.head?, HarmlessFunctor p.conn functor
  | _ => True

/-! ## Before and after the close -/

/-- The connection has not been closed.  It is registered while it is connected
and while an event on it is being handled. -/
structure Living (p : System) : Prop where
  closed_eq : p.closed = none
  mirrors : Mirrors p.conn.poller p.conn.self p.conn.conn.channel
  reading : p.conn.conn.channel.isReading = true
  not_disconnected : p.conn.conn.state ≠ .kDisconnected
  added : p.conn.conn.state = .kConnected ∨ p.callbacks ≠ [] → p.conn.conn.channel.index = .kAdded

/-- The connection has been closed and has been left alone since. -/
structure Settled (closed s : ConnState) : Prop where
  quiet : QuietSince closed s
  mirrors : Mirrors s.poller s.self s.conn.channel
  not_writing : s.isWriting = false
  not_connected : s.conn.state ≠ .kConnected

def Invariant (p : System) : Prop :=
  Living p ∨ ∃ closed, p.closed = some closed ∧ Settled closed p.conn

theorem Invariant.quiescent {p : System} (h : Invariant p) : Quiescent p := by
  intro closed hclosed
  rcases h with hliving | ⟨other, hother, hsettled⟩
  · simp [hliving.closed_eq] at hclosed
  · obtain rfl : other = closed := Option.some.inj (hother.symm.trans hclosed)
    exact hsettled.quiet

theorem initial_living {s : ConnState} (hfresh : s.Fresh) : Living (start s) := by
  obtain ⟨hmirrors, hadded, hreading⟩ := ConnState.open_connectEstablished hfresh.mirrors
  exact ⟨rfl, hmirrors, hreading, by simp [start], fun _ => hadded⟩

section Close

variable {s : ConnState}

theorem interest_eq_none (hmirrors : Mirrors s.poller s.self s.conn.channel)
    (hadded : s.conn.channel.index ≠ .kAdded) : s.poller.interest s.conn.channel.fd = none := by
  rw [hmirrors.interest_eq, if_neg hadded]

theorem Settled.not_added {closed : ConnState} (h : Settled closed s) :
    s.conn.channel.index ≠ .kAdded := by
  intro hadded
  have hinterest := h.quiet.interest
  simp [h.mirrors.interest_eq, hadded] at hinterest

/-- What is disconnected and not registered has just been closed. -/
theorem Settled.self (hmirrors : Mirrors s.poller s.self s.conn.channel)
    (hindex : s.conn.channel.index ≠ .kAdded) (hwriting : s.isWriting = false)
    (hstate : s.conn.state = .kDisconnected) : Settled s s :=
  ⟨⟨⟨[], by simp, by simp⟩, rfl, interest_eq_none hmirrors hindex⟩, hmirrors, hwriting,
    by simp [hstate]⟩

theorem handleClose_index (s : ConnState) : s.handleClose.conn.channel.index =
    if s.conn.channel.index = .kAdded then .kDeleted else .kAdded :=
  updateChannel_index_of_none _ _ (by simp [Channel.isNoneEvent, Channel.kNoneEvent])

theorem handleClose_settled (hmirrors : Mirrors s.poller s.self s.conn.channel)
    (hadded : s.conn.channel.index = .kAdded) : Settled s.handleClose s.handleClose :=
  .self ((s.local_handleClose).mirrors hmirrors) (by simp [handleClose_index, hadded])
    (s.setState .kDisconnected).disableAll_isWriting rfl

theorem connectDestroyed_settled (hmirrors : Mirrors s.poller s.self s.conn.channel)
    (hstate : s.conn.state = .kConnected) :
    Settled s.connectDestroyed s.connectDestroyed := by
  have hmirrors' := (s.local_connectDestroyed).mirrors hmirrors
  have hindex : s.connectDestroyed.conn.channel.index = .kNew := rfl
  refine .self hmirrors' (by simp [hindex]) ?_ ?_
  · simp only [ConnState.connectDestroyed, if_pos hstate]
    exact (s.setState .kDisconnected).disableAll_isWriting
  · simp only [ConnState.connectDestroyed, if_pos hstate]
    rfl

end Close

/-! ## Steps of a living connection -/

section LivingSteps

variable {p q : System}

theorem Living.traffic (h : Living p) (htraffic : ConnState.Traffic p.conn q.conn)
    (hclosed : q.closed = (p.move q.conn).closed)
    (hcallbacks : q.callbacks ≠ [] → p.callbacks ≠ []) : Living q where
  closed_eq := by simp [hclosed, System.move, htraffic.state_eq, h.closed_eq, h.not_disconnected]
  mirrors := htraffic.toLocal.mirrors h.mirrors
  reading := htraffic.isReading_eq.trans h.reading
  not_disconnected := by
    rw [htraffic.state_eq]
    exact h.not_disconnected
  added := by
    intro hreason
    rw [htraffic.state_eq] at hreason
    exact (htraffic.open ⟨h.mirrors, h.added (hreason.imp id hcallbacks), h.reading⟩).added

/-- The step closes the connection. -/
theorem Living.close (h : Living p) (hconn : Settled q.conn q.conn)
    (hstate : q.conn.conn.state = .kDisconnected) (hclosed : q.closed = (p.move q.conn).closed) :
    Invariant q :=
  .inr ⟨q.conn, by simp [hclosed, System.move, h.closed_eq, hstate], hconn⟩

theorem Living.setDisconnecting (h : Living p) :
    Living (p.move (p.conn.setState .kDisconnecting)) where
  closed_eq := by simp [System.move, h.closed_eq]
  mirrors := h.mirrors
  reading := h.reading
  not_disconnected := by simp [System.move]
  added := fun hreason => h.added (.inr (hreason.resolve_left (by simp [System.move])))

theorem Living.runCallback (h : Living p) {callback : Channel.Callback}
    {rest : List Channel.Callback} (hcallbacks : p.callbacks = callback :: rest)
    (read : Buffer.ReadResult) (result : IoResult) :
    Invariant { p.move (p.conn.runCallback callback read result) with callbacks := rest } := by
  have hsome : p.callbacks ≠ [] := by simp [hcallbacks]
  have hadded := h.added (.inr hsome)
  cases callback with
  | closeCallback => exact h.close (handleClose_settled h.mirrors hadded) rfl rfl
  | errorCallback => exact .inl (h.traffic .refl rfl fun _ => hsome)
  | readCallback =>
      by_cases hread : read = .data []
      · obtain ⟨buffer, heof⟩ := p.conn.exists_handleRead_eof
        have hmirrors := (p.conn.local_setInput buffer).mirrors h.mirrors
        rw [ConnState.runCallback, hread, heof]
        exact h.close (handleClose_settled (s := p.conn.setInput buffer) hmirrors hadded) rfl rfl
      · exact .inl (h.traffic (p.conn.traffic_handleRead hread) rfl fun _ => hsome)
  | writeCallback => exact .inl (h.traffic (p.conn.traffic_handleWrite result) rfl fun _ => hsome)

theorem Living.connectDestroyed (h : Living p) (hcallbacks : p.callbacks = []) :
    Invariant (p.move p.conn.connectDestroyed) := by
  by_cases hstate : p.conn.conn.state = .kConnected
  · have hsettled := connectDestroyed_settled h.mirrors hstate
    refine h.close hsettled ?_ rfl
    simp only [System.move, ConnState.connectDestroyed, if_pos hstate]
    rfl
  · have hremoved : p.conn.connectDestroyed = p.conn.remove := by
      simp [ConnState.connectDestroyed, hstate]
    rw [hremoved]
    refine .inl ⟨?_, (p.conn.local_remove).mirrors h.mirrors, h.reading, h.not_disconnected, ?_⟩
    · have hkept : p.conn.remove.conn.state ≠ .kDisconnected := h.not_disconnected
      simp [System.move, h.closed_eq, hkept]
    · rintro (hconnected | hsome)
      · exact absurd hconnected hstate
      · exact absurd hcallbacks hsome

theorem living_step {label : Label} (h : Living p) (hstep : Step p label q) : Invariant q := by
  cases label with
  | callSend data =>
      obtain ⟨_, rfl⟩ := hstep
      exact .inl ⟨h.closed_eq, h.mirrors, h.reading, h.not_disconnected, h.added⟩
  | callSendFile fileDescriptor offset count =>
      obtain ⟨_, rfl⟩ := hstep
      exact .inl ⟨h.closed_eq, h.mirrors, h.reading, h.not_disconnected, h.added⟩
  | callShutdown =>
      obtain ⟨_, rfl⟩ := hstep
      exact .inl ⟨h.closed_eq, h.mirrors, h.reading, h.not_disconnected, h.added⟩
  | storeDisconnecting =>
      obtain ⟨_, rfl⟩ := hstep
      obtain ⟨hclosed, hmirrors, hreading, hstate, hadded⟩ := h.setDisconnecting
      exact .inl ⟨hclosed, hmirrors, hreading, hstate, hadded⟩
  | queueCall functor =>
      obtain ⟨_, rfl⟩ := hstep
      exact .inl ⟨h.closed_eq, h.mirrors, h.reading, h.not_disconnected, h.added⟩
  | poll revents =>
      obtain ⟨_, hinterest, rfl⟩ := hstep
      refine .inl ⟨h.closed_eq, h.mirrors, h.reading, h.not_disconnected, fun _ => ?_⟩
      by_contra hadded
      exact hinterest (interest_eq_none h.mirrors hadded)
  | callback read result =>
      obtain ⟨callback, rest, hcallbacks, rfl⟩ := hstep
      exact h.runCallback hcallbacks read result
  | runFunctor result =>
      obtain ⟨_, functor, rest, _, rfl⟩ := hstep
      -- dropping the functor from the queue changes nothing that `Living` looks at
      have hpopped : Living { p with conn := { p.conn with pendingFunctors := rest } } :=
        ⟨h.closed_eq, h.mirrors, h.reading, h.not_disconnected, h.added⟩
      exact .inl (hpopped.traffic (ConnState.traffic_runFunctor _ functor result) rfl id)
  | connectDestroyed =>
      obtain ⟨hcallbacks, rfl⟩ := hstep
      exact h.connectDestroyed hcallbacks
  | send data result =>
      obtain rfl := hstep
      exact .inl (h.traffic (p.conn.traffic_send data result) rfl id)
  | sendFile fileDescriptor offset count result =>
      obtain rfl := hstep
      exact .inl (h.traffic (p.conn.traffic_sendFile _ _ _ result) rfl id)
  | shutdown =>
      obtain rfl := hstep
      unfold ConnState.shutdown
      split_ifs
      · exact .inl (h.setDisconnecting.traffic (ConnState.traffic_shutdownInLoop _)
          (by simp [System.move]) id)
      · exact .inl (h.traffic .refl rfl id)

end LivingSteps

/-! ## Steps of a closed connection -/

section SettledSteps

variable {closed s t : ConnState}

/-- A step that leaves the channel, the poller and the output buffer alone. -/
theorem Settled.congr (h : Settled closed s) (hpoller : t.poller = s.poller)
    (hself : t.self = s.self) (hchannel : t.conn.channel = s.conn.channel)
    (houtput : t.output = s.output) (hstate : t.conn.state ≠ .kConnected)
    (heffects : ∃ since, t.effects = s.effects ++ since ∧ ∀ effect ∈ since, sends effect = false) :
    Settled closed t := by
  obtain ⟨since, hsince, hsilent⟩ := h.quiet.effects
  obtain ⟨more, hmore, hmore_silent⟩ := heffects
  refine ⟨⟨⟨since ++ more, ?_, ?_⟩, houtput.trans h.quiet.output, ?_⟩, ?_, ?_, hstate⟩
  · rw [hmore, hsince, List.append_assoc]
  · intro effect hmem
    exact (List.mem_append.1 hmem).elim (hsilent effect) (hmore_silent effect)
  · rw [hpoller, hchannel]
    exact h.quiet.interest
  · rw [hpoller, hself, hchannel]
    exact h.mirrors
  · rw [ConnState.isWriting, hchannel]
    exact h.not_writing

theorem Settled.emit (h : Settled closed s) {effect : Effect} (hsilent : sends effect = false) :
    Settled closed (s.emit effect) :=
  h.congr rfl rfl rfl rfl h.not_connected ⟨[effect], rfl, by simpa using hsilent⟩

theorem Settled.queueInLoop (h : Settled closed s) (functor : Functor) :
    Settled closed (s.queueInLoop functor) :=
  h.congr rfl rfl rfl rfl h.not_connected ⟨[.queued functor], rfl, by simp [sends]⟩

theorem Settled.setInput (h : Settled closed s) (buffer : ValidBuffer) :
    Settled closed (s.setInput buffer) :=
  h.congr rfl rfl rfl rfl h.not_connected ⟨[], by simp, by simp⟩

theorem Settled.setPending (h : Settled closed s) (pending : List Functor) :
    Settled closed { s with pendingFunctors := pending } :=
  h.congr rfl rfl rfl rfl h.not_connected ⟨[], by simp, by simp⟩

theorem Settled.shutdownInLoop (h : Settled closed s) : Settled closed s.shutdownInLoop := by
  unfold ConnState.shutdownInLoop
  split_ifs
  · exact h
  · exact h.emit rfl

theorem Settled.connectDestroyed (h : Settled closed s) : Settled closed s.connectDestroyed := by
  have hremoved : s.connectDestroyed = s.remove := by
    simp [ConnState.connectDestroyed, h.not_connected]
  have hmirrors := (s.local_remove).mirrors h.mirrors
  have hindex : s.remove.conn.channel.index = .kNew := rfl
  rw [hremoved]
  exact ⟨⟨h.quiet.effects, h.quiet.output, interest_eq_none hmirrors (by simp [hindex])⟩, hmirrors,
    h.not_writing, h.not_connected⟩

theorem Settled.isIdle_eq (h : Settled closed s) : s.isIdle = decide (s.output = []) := by
  rw [Bool.eq_iff_iff, s.isIdle_iff, decide_eq_true_iff]
  exact and_iff_right h.not_writing

theorem Settled.runFunctor (h : Settled closed s) {functor : Functor}
    (hharmless : HarmlessFunctor s functor) (result : IoResult) :
    Settled closed (s.runFunctor functor result) := by
  cases functor with
  | writeComplete => exact h
  | highWaterMark size => exact h
  | sendInLoop data =>
      obtain ⟨rfl, houtput⟩ := hharmless
      have hbusy : s.isIdle = false := by simpa [h.isIdle_eq] using houtput
      simpa [ConnState.runFunctor, ConnState.sendInLoop, hbusy, ConnState.appendRemaining] using h
  | sendFileInLoop fileDescriptor offset count =>
      simp only [ConnState.runFunctor, ConnState.sendFileInLoop]
      by_cases hstate : s.conn.state = .kDisconnecting
      · simpa only [hstate, if_true] using h
      · have hbusy : s.isIdle = false := by
          simpa [h.isIdle_eq] using hharmless.resolve_left hstate
        simp only [hstate, hbusy, if_false, Bool.false_eq_true]
        unfold ConnState.requeueFile
        split_ifs
        · exact h
        · exact h.queueInLoop _
  | shutdownInLoop => exact h.shutdownInLoop

theorem Settled.runCallback (h : Settled closed s) {read : Buffer.ReadResult}
    {callback : Channel.Callback} (hharmless : HarmlessCallback read callback) (result : IoResult) :
    Settled closed (s.runCallback callback read result) := by
  cases callback with
  | closeCallback => exact hharmless.elim
  | errorCallback => exact h
  | readCallback =>
      simp only [ConnState.runCallback, ConnState.handleRead]
      split
      · exact absurd rfl hharmless
      · exact (h.setInput _).emit rfl
      · exact h.setInput _
  | writeCallback =>
      have hwriting : s.conn.channel.isWriting = false := h.not_writing
      simpa [ConnState.runCallback, ConnState.handleWrite, hwriting] using h

/-! ### What is not left alone is seen -/

theorem Settled.not_quiet_of_emit {effect : Effect} (h : Settled closed s)
    (hsends : sends effect = true) (htraffic : ConnState.Traffic (s.emit effect) t) :
    ¬ QuietSince closed t := by
  rintro ⟨⟨since, hsince, hsilent⟩, _, _⟩
  obtain ⟨before, hbefore, _⟩ := h.quiet.effects
  obtain ⟨more, hmore⟩ := htraffic.effects_prefix
  rw [← hmore, ConnState.emit_effects, hbefore, List.append_assoc, List.append_assoc] at hsince
  have hmem : effect ∈ since := by
    rw [← List.append_cancel_left hsince]
    simp
  simp [hsilent effect hmem] at hsends

theorem Settled.not_quiet_runFunctor (h : Settled closed s) {functor : Functor}
    (hharmful : ¬ HarmlessFunctor s functor) (result : IoResult) :
    ¬ QuietSince closed (s.runFunctor functor result) := by
  cases functor with
  | writeComplete => exact absurd trivial hharmful
  | highWaterMark size => exact absurd trivial hharmful
  | sendInLoop data =>
      by_cases hempty : s.output = []
      · have hidle : s.isIdle = true := by simp [h.isIdle_eq, hempty]
        exact h.not_quiet_of_emit rfl (ConnState.traffic_sendInLoop_of_isIdle hidle data result)
      · -- the payload joins the buffer
        have hbusy : s.isIdle = false := by simp [h.isIdle_eq, hempty]
        have hdata : data ≠ [] := fun hdata => hharmful ⟨hdata, hempty⟩
        intro hquiet
        have houtput := hquiet.output
        simp only [ConnState.runFunctor, ConnState.sendInLoop, hbusy, Bool.false_eq_true, if_false,
          ConnState.appendRemaining_output, ← h.quiet.output] at houtput
        exact hdata (by simpa using houtput)
  | sendFileInLoop fileDescriptor offset count =>
      obtain ⟨hstate, hempty⟩ := not_or.1 hharmful
      have hidle : s.isIdle = true := by simpa [h.isIdle_eq] using hempty
      exact h.not_quiet_of_emit rfl
        (ConnState.traffic_sendFileInLoop_of_isIdle hstate hidle fileDescriptor offset count result)
  | shutdownInLoop => exact absurd trivial hharmful

/-- Closing again registers the channel again. -/
theorem Settled.not_quiet_handleClose (h : Settled closed s) :
    ¬ QuietSince closed s.handleClose := by
  intro hquiet
  have hmirrors := (s.local_handleClose).mirrors h.mirrors
  have hinterest := hquiet.interest
  rw [hmirrors.interest_eq, handleClose_index, if_neg h.not_added] at hinterest
  simp at hinterest

theorem Settled.not_quiet_runCallback (h : Settled closed s) {read : Buffer.ReadResult}
    {callback : Channel.Callback} (hharmful : ¬ HarmlessCallback read callback)
    (result : IoResult) : ¬ QuietSince closed (s.runCallback callback read result) := by
  cases callback with
  | closeCallback => exact h.not_quiet_handleClose
  | errorCallback => exact absurd trivial hharmful
  | readCallback =>
      have hread : read = .data [] := not_not.1 hharmful
      obtain ⟨buffer, heof⟩ := s.exists_handleRead_eof
      rw [ConnState.runCallback, hread, heof]
      exact (h.setInput buffer).not_quiet_handleClose
  | writeCallback => exact absurd trivial hharmful

end SettledSteps

/-! ## Runs -/

section Runs

variable {p q : System} {label : Label} {closed : ConnState}

theorem closed_move (hclosed : p.closed = some closed) (conn : ConnState) :
    (p.move conn).closed = some closed := by
  simp [System.move, hclosed]

theorem settled_step (hclosed : p.closed = some closed) (h : Settled closed p.conn)
    (hstep : Step p label q) (halone : LeavesAlone p label) :
    q.closed = some closed ∧ Settled closed q.conn := by
  cases label with
  | callSend data => exact absurd hstep.1 h.not_connected
  | callSendFile fileDescriptor offset count => exact absurd hstep.1 h.not_connected
  | callShutdown => exact absurd hstep.1 h.not_connected
  -- the call passed its test of the state before the close
  | storeDisconnecting =>
      obtain ⟨_, rfl⟩ := hstep
      exact ⟨closed_move hclosed _, h.congr rfl rfl rfl rfl (by simp [System.move])
        ⟨[], by simp [System.move], by simp⟩⟩
  | queueCall functor =>
      obtain ⟨_, rfl⟩ := hstep
      exact ⟨hclosed, h.setPending _⟩
  | poll revents => exact absurd h.quiet.interest hstep.2.1
  | callback read result =>
      obtain ⟨callback, rest, hcallbacks, rfl⟩ := hstep
      refine ⟨closed_move hclosed _, h.runCallback ?_ result⟩
      exact halone.resolve_left (by simp [hclosed]) callback (by simp [hcallbacks])
  | runFunctor result =>
      obtain ⟨_, functor, rest, hpending, rfl⟩ := hstep
      have hharmless : HarmlessFunctor p.conn functor :=
        halone.resolve_left (by simp [hclosed]) functor (by simp [hpending])
      refine ⟨closed_move hclosed _, (h.setPending rest).runFunctor ?_ result⟩
      cases functor <;> exact hharmless
  | connectDestroyed =>
      obtain ⟨_, rfl⟩ := hstep
      exact ⟨closed_move hclosed _, h.connectDestroyed⟩
  | send data result =>
      obtain rfl := hstep
      refine ⟨closed_move hclosed _, ?_⟩
      simpa [System.move, ConnState.send, h.not_connected] using h
  | sendFile fileDescriptor offset count result =>
      obtain rfl := hstep
      refine ⟨closed_move hclosed _, ?_⟩
      simpa [System.move, ConnState.sendFile, h.not_connected] using h
  | shutdown =>
      obtain rfl := hstep
      refine ⟨closed_move hclosed _, ?_⟩
      simpa [System.move, ConnState.shutdown, h.not_connected] using h

theorem invariant_step (h : Invariant p) (hstep : restrict Step LeavesAlone p label q) :
    Invariant q := by
  obtain ⟨hstep, halone⟩ := hstep
  rcases h with hliving | ⟨closed, hclosed, hsettled⟩
  · exact living_step hliving hstep
  · exact .inr ⟨closed, settled_step hclosed hsettled hstep halone⟩

/-- A step that does not leave the closed connection alone ends its quiet. -/
theorem not_quiescent_step (h : Invariant p) (hstep : Step p label q)
    (halone : ¬ LeavesAlone p label) : ¬ Quiescent q := by
  rcases h with hliving | ⟨closed, hclosed, hsettled⟩
  · refine absurd ?_ halone
    cases label <;> simp [LeavesAlone, hliving.closed_eq]
  · intro hquiescent
    cases label with
    | callback read result =>
        obtain ⟨callback, rest, hcallbacks, rfl⟩ := hstep
        refine hsettled.not_quiet_runCallback ?_ result (hquiescent closed (closed_move hclosed _))
        simpa [LeavesAlone, hclosed, hcallbacks] using halone
    | runFunctor result =>
        obtain ⟨_, functor, rest, hpending, rfl⟩ := hstep
        refine (hsettled.setPending rest).not_quiet_runFunctor (fun hharmless => ?_) result
          (hquiescent closed (closed_move hclosed _))
        simp only [LeavesAlone, hclosed, hpending] at halone
        refine halone (.inr fun other hother => ?_)
        obtain rfl : functor = other := Option.some.inj hother
        cases functor <;> exact hharmless
    | _ => exact halone trivial

end Runs

/-- In every run that leaves the connection alone after its close it stays
quiescent, and it does not survive any other step. -/
theorem closed_quiescent (s : ConnState) (hfresh : s.Fresh) (labels : List Label) (p : System)
    (hrun : Run (restrict Step LeavesAlone) (start s) labels p) :
    Quiescent p ∧ ∀ label q, Step p label q → (Quiescent q ↔ LeavesAlone p label) := by
  have h : Invariant p :=
    hrun.invariant (.inl (initial_living hfresh)) fun _ _ _ => invariant_step
  refine ⟨h.quiescent, fun label q hstep => ⟨fun hquiescent => ?_, fun halone => ?_⟩⟩
  · by_contra halone
    exact not_quiescent_step h hstep halone hquiescent
  · exact (invariant_step h ⟨hstep, halone⟩).quiescent

/-- The peer resets a connection that another thread is shutting down: it is closed, then the
`shutdownInLoop` runs that waited, and it is destroyed. -/
theorem closed_quiescent_reset :
    let called : System := { start SendPath.fresh with shutdowns := 1 }
    let stored : System := { called.move (called.conn.setState .kDisconnecting) with
      shutdowns := 0, calls := [.shutdownInLoop] }
    let queued : System := { stored with
      conn := { stored.conn with pendingFunctors := [.shutdownInLoop] }, calls := [] }
    let event : System := { queued with callbacks := [.closeCallback] }
    let closed : System := { event.move event.conn.handleClose with callbacks := [] }
    let after : System := closed.move
      ({ closed.conn with pendingFunctors := [] }.runFunctor .shutdownInLoop (.bytes 0))
    closed.closed = some closed.conn ∧ Quiescent (after.move after.conn.connectDestroyed) := by
  intro called stored queued event closed after
  have hcall : restrict Step LeavesAlone (start SendPath.fresh) .callShutdown called :=
    ⟨⟨rfl, rfl⟩, trivial⟩
  have hstore : restrict Step LeavesAlone called .storeDisconnecting stored :=
    ⟨⟨Nat.one_pos, rfl⟩, trivial⟩
  have hqueue : restrict Step LeavesAlone stored (.queueCall .shutdownInLoop) queued :=
    ⟨⟨List.mem_singleton_self _, rfl⟩, trivial⟩
  have hpoll : restrict Step LeavesAlone queued (.poll EPOLLHUP) event :=
    ⟨⟨rfl, by decide, rfl⟩, trivial⟩
  have hclose : restrict Step LeavesAlone event (.callback (.data []) (.bytes 0)) closed :=
    ⟨⟨_, _, rfl, rfl⟩, .inl rfl⟩
  have hharmless : ∀ functor ∈ closed.conn.pendingFunctors.head?,
      HarmlessFunctor closed.conn functor := fun _ hfunctor => Option.some.inj hfunctor ▸ trivial
  have hrun : restrict Step LeavesAlone closed (.runFunctor (.bytes 0)) after :=
    ⟨⟨rfl, _, _, rfl, rfl⟩, .inr hharmless⟩
  have hdestroy : restrict Step LeavesAlone after .connectDestroyed
      (after.move after.conn.connectDestroyed) := ⟨⟨rfl, rfl⟩, trivial⟩
  exact ⟨rfl, (closed_quiescent SendPath.fresh SendPath.fresh_fresh _ _
    (((((((Run.single hcall).snoc hstore).snoc hqueue).snoc hpoll).snoc hclose).snoc
      hrun).snoc hdestroy)).1⟩

/-- A payload queued by another thread before the close is written after it. -/
theorem queued_send_after_close :
    ¬ ∀ (s : ConnState) (labels : List Label) (p : System), s.Fresh →
      Run Step (start s) labels p → Quiescent p := by
  intro hclaim
  let called : System := { start SendPath.fresh with calls := [.sendInLoop [7]] }
  let queued : System := { called with
    conn := { called.conn with pendingFunctors := [.sendInLoop [7]] }, calls := [] }
  let event : System := { queued with callbacks := [.closeCallback] }
  let closed : System := { event.move event.conn.handleClose with callbacks := [] }
  let after : System := closed.move
    ({ closed.conn with pendingFunctors := [] }.runFunctor (.sendInLoop [7]) (.bytes 1))
  have hcall : Step (start SendPath.fresh) (.callSend [7]) called := ⟨rfl, rfl⟩
  have hqueue : Step called (.queueCall (.sendInLoop [7])) queued := ⟨by simp [called], rfl⟩
  have hpoll : Step queued (.poll EPOLLHUP) event := ⟨rfl, by decide, rfl⟩
  have hclose : Step event (.callback (.data []) (.bytes 0)) closed := ⟨_, _, rfl, rfl⟩
  have hrun : Step closed (.runFunctor (.bytes 1)) after := ⟨rfl, _, _, rfl, rfl⟩
  obtain ⟨⟨since, hsince, hsilent⟩, _, _⟩ := hclaim SendPath.fresh _ _ SendPath.fresh_fresh
    (((((Run.single hcall).snoc hqueue).snoc hpoll).snoc hclose).snoc hrun) closed.conn rfl
  have hwrite : after.conn.effects = closed.conn.effects ++ [.write [7] (.bytes 1)] := by decide
  rw [hwrite] at hsince
  have hmem := hsilent (.write [7] (.bytes 1)) (by simp [← List.append_cancel_left hsince])
  simp [sends] at hmem

end Quiescence

end MuduoLite
