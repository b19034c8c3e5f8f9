import MuduoLite.Connection.Effects
import MuduoLite.Connection.Quiescence

/-!
# How often a connection reports

`connectionCallback_` is to be invoked once by `connectEstablished` and once more when the
connection goes down, by `handleClose` or by `connectDestroyed`, and `closeCallback_` at
most once.  The run of the loop is that of `Quiescence`; to it are added the two ways in
which the server removes the connection.

* `closeCallback_` is `removeConnection`, which lets the base loop erase the connection
  from `connections_` and queue `connectDestroyed`.
* The destructor of the server passes `connectDestroyed` to `runInLoop` for each
  connection of `connections_`: on the loop thread of the connection it runs at once, on
  another thread as a functor.

Between two functors `connectDestroyed` may run at any time here: where it stands in the
queue makes no difference.

A connection reports once too often when something closes it again, which needs an event
of a channel that is no longer registered.  The event may be the one being handled, or
`sendInLoop` has registered the channel again for what it could not write.  And it does not
report at all when `connectDestroyed` finds it in state `kDisconnecting`.
-/

namespace MuduoLite

open Transition EPollPoller ConnState

namespace Callbacks

structure System where
  loop : Quiescence.System
  /-- the `removeConnectionInLoop` calls that the base loop has not run -/
  removals : ℕ := 0
  /-- the `connectDestroyed` functors in the queue of the loop -/
  destroying : ℕ := 0
  /-- is the connection in `connections_`? -/
  mapped : Bool := true
  /-- has `~TcpServer` not run? -/
  server : Bool := true
  /-- has `connectDestroyed` finished? -/
  destroyed : Bool := false

namespace System

/-- How often `connectionCallback_` has been invoked. -/
def reports (p : System) : ℕ := p.loop.conn.occurrences .connectionCallback

/-- How often `closeCallback_` has been invoked. -/
def closes (p : System) : ℕ := p.loop.conn.occurrences .closeCallback

def connectDestroyed (p : System) : System :=
  { p with loop := p.loop.move p.loop.conn.connectDestroyed, destroyed := true }

end System

/-- `destroyServer` says whether the destructor runs on the loop thread of the connection. -/
inductive Label
  | loop (label : Quiescence.Label)
  | removeConnectionInLoop
  | connectDestroyed
  | destroyServer (inLoopThread : Bool)
  deriving DecidableEq, Repr

def Step (p : System) (label : Label) (q : System) : Prop :=
  match label with
  | .loop label => label ≠ .connectDestroyed ∧ ∃ loop, Quiescence.Step p.loop label loop ∧
      q = { p with
        loop := loop
        removals := p.removals + (loop.conn.occurrences .closeCallback - p.closes) }
  | .removeConnectionInLoop => p.server = true ∧ 0 < p.removals ∧
      q = { p with
        removals := p.removals - 1, mapped := false, destroying := p.destroying + 1 }
  | .connectDestroyed => 0 < p.destroying ∧ p.loop.callbacks = [] ∧
      q = { p with destroying := p.destroying - 1 }.connectDestroyed
  | .destroyServer inLoopThread => p.server = true ∧
      q = if p.mapped = false then { p with server := false }
        else if inLoopThread then { p with server := false, mapped := false }.connectDestroyed
        else { p with server := false, mapped := false, destroying := p.destroying + 1 }

/-- The connection has just been established. -/
def start (s : ConnState) : System := { loop := Quiescence.start s }

/-- The connection has reported going down at most once, and once by the time
`connectDestroyed` has finished. -/
structure Once (p : System) : Prop where
  reports_le : p.reports ≤ 2
  destroyed : p.destroyed = true → p.reports = 2
  closes_le : p.closes ≤ 1

/-! ## The condition on the steps -/

/-- What `sendInLoop` leaves over for `handleWrite`. -/
def unsent (s : ConnState) (data : List Byte) (result : IoResult) : List Byte :=
  if s.isIdle then
    match result with
    | .bytes n => data.drop n
    | .error _ => if result.isFault then [] else data
  else data

/-- The functor does not leave anything over. -/
def SendsAll (s : ConnState) (result : IoResult) : Functor → Prop
  | .sendInLoop data => unsent s data result = []
  | _ => True

/-- If `connectDestroyed` finds the connection in state `kDisconnecting`, then the
connection has been closed. -/
def ClosedFirst (p : System) : Prop :=
  p.loop.conn.conn.state = .kDisconnecting → p.loop.closed ≠ none

/-- A closed connection is not closed again by the same event and is given no bytes that
it cannot write, and `connectDestroyed` does not come between `shutdown` and the close. -/
def InOrder (p : System) : Label → Prop
  | .loop (.callback read _) => p.loop.closed = none ∨
      ∀ callback ∈ p.loop.callbacks.head?, Quiescence.HarmlessCallback read callback
  | .loop (.runFunctor result) => p.loop.closed = none ∨
      ∀ functor ∈ p.loop.conn.pendingFunctors.head?, SendsAll p.loop.conn result functor
  | .connectDestroyed => ClosedFirst p
  | .destroyServer true => p.mapped = true → ClosedFirst p
  | _ => True

/-! ## Sending on a closed connection -/

section Sending

variable {s : ConnState} {data : List Byte} {result : IoResult}

@[simp] theorem appendRemaining_nil (s : ConnState) : s.appendRemaining [] = s := rfl

/-- `sendInLoop` writes what it can, if anything, and appends the rest. -/
theorem exists_sendInLoop_eq (s : ConnState) (data : List Byte) (result : IoResult) :
    ∃ t : ConnState, t.conn = s.conn ∧
      s.sendInLoop data result = t.appendRemaining (unsent s data result) := by
  by_cases hidle : s.isIdle = true
  · let wrote := s.emit (.write data result)
    cases result with
    | bytes n =>
        by_cases hall : data.drop n = []
        · exact ⟨wrote.notifyWriteComplete, notifyWriteComplete_conn _,
            by simp [sendInLoop, unsent, hidle, hall, wrote]⟩
        · exact ⟨wrote, rfl, by simp [sendInLoop, unsent, hidle, hall, wrote]⟩
    | error errno =>
        refine ⟨wrote, rfl, ?_⟩
        by_cases hfault : (IoResult.error errno).isFault = true <;>
          simp [sendInLoop, unsent, hidle, hfault, wrote]
  · exact ⟨s, rfl, by simp [sendInLoop, unsent, hidle]⟩

theorem sendInLoop_conn_of_unsent_nil (hall : unsent s data result = []) :
    (s.sendInLoop data result).conn = s.conn := by
  obtain ⟨t, hconn, hsend⟩ := exists_sendInLoop_eq s data result
  rw [hsend, hall, appendRemaining_nil, hconn]

theorem enableWriting_index (s : ConnState) : s.enableWriting.conn.channel.index = .kAdded := by
  refine updateChannel_index_of_interest _ _ (decide_eq_false fun hnone => ?_)
  apply Channel.or_kWriteEvent_and s.conn.channel.events
  rw [show s.conn.channel.events ||| Channel.kWriteEvent = Channel.kNoneEvent from hnone]
  exact BitVec.zero_and

/-- What is left over registers a channel that has no write interest. -/
theorem sendInLoop_index (hwriting : s.isWriting = false) (hrest : unsent s data result ≠ []) :
    (s.sendInLoop data result).conn.channel.index = .kAdded := by
  obtain ⟨t, hconn, hsend⟩ := exists_sendInLoop_eq s data result
  have hoff : t.conn.channel.isWriting = false := hconn ▸ hwriting
  rw [hsend, appendRemaining, if_neg hrest]
  simp [hoff, enableWriting_index]

end Sending

/-! ## Before and after going down -/

/-- The connection has not been closed. -/
structure Up (p : System) : Prop where
  closed_eq : p.loop.closed = none
  registered : p.loop.conn.Open
  state : p.loop.conn.conn.state = .kConnected ∨ p.loop.conn.conn.state = .kDisconnecting
  destroyed_eq : p.destroyed = false
  reports_eq : p.reports = 1
  closes_eq : p.closes = 0

/-- The connection has been closed and is no longer registered. -/
structure Down (p : System) : Prop where
  closed_ne : p.loop.closed ≠ none
  mirrors : Mirrors p.loop.conn.poller p.loop.conn.self p.loop.conn.conn.channel
  not_added : p.loop.conn.conn.channel.index ≠ .kAdded
  not_writing : p.loop.conn.isWriting = false
  not_connected : p.loop.conn.conn.state ≠ .kConnected
  reports_eq : p.reports = 2
  closes_le : p.closes ≤ 1

def Invariant (p : System) : Prop := Up p ∨ Down p

theorem Invariant.once {p : System} (h : Invariant p) : Once p := by
  rcases h with hup | hdown
  · have hreports := hup.reports_eq
    have hcloses := hup.closes_eq
    exact ⟨by omega, by simp [hup.destroyed_eq], by omega⟩
  · exact ⟨hdown.reports_eq.le, fun _ => hdown.reports_eq, hdown.closes_le⟩

theorem reports_start {s : ConnState} (hfresh : s.Fresh) : (start s).reports = 1 := by
  have heffects : s.connectEstablished.effects = s.effects ++ [.connectionCallback] := rfl
  simp [System.reports, start, Quiescence.start, occurrences, heffects, hfresh.effects_eq]

theorem initial_up {s : ConnState} (hfresh : s.Fresh) : Up (start s) where
  closed_eq := rfl
  registered := open_connectEstablished hfresh.mirrors
  state := .inl rfl
  destroyed_eq := rfl
  reports_eq := reports_start hfresh
  closes_eq := by
    have heffects : s.connectEstablished.effects = s.effects ++ [.connectionCallback] := rfl
    simp [System.closes, start, Quiescence.start, occurrences, heffects, hfresh.effects_eq]

section Counting

variable (s : ConnState)

theorem reports_handleClose : s.handleClose.occurrences .connectionCallback =
    s.occurrences .connectionCallback + 1 := by
  have hbefore : (s.setState .kDisconnected).disableAll.occurrences .connectionCallback =
      s.occurrences .connectionCallback := rfl
  simp [handleClose, hbefore]

theorem closes_handleClose : s.handleClose.occurrences .closeCallback =
    s.occurrences .closeCallback + 1 := by
  have hbefore : (s.setState .kDisconnected).disableAll.occurrences .closeCallback =
      s.occurrences .closeCallback := rfl
  simp [handleClose, hbefore]

theorem reports_connectDestroyed : s.connectDestroyed.occurrences .connectionCallback =
    s.occurrences .connectionCallback + if s.conn.state = .kConnected then 1 else 0 := by
  have hremove (t : ConnState) : t.remove.occurrences .connectionCallback =
      t.occurrences .connectionCallback := rfl
  have hbefore : (s.setState .kDisconnected).disableAll.occurrences .connectionCallback =
      s.occurrences .connectionCallback := rfl
  unfold connectDestroyed
  split_ifs <;> simp [hremove, hbefore]

theorem closes_connectDestroyed :
    s.connectDestroyed.occurrences .closeCallback = s.occurrences .closeCallback :=
  s.emits_connectDestroyed.occurrences_eq (by simp)

end Counting

section UpSteps

variable {p q : System}

theorem Up.not_disconnected (h : Up p) : p.loop.conn.conn.state ≠ .kDisconnected := by
  rcases h.state with hstate | hstate <;> simp [hstate]

/-- A step that does not close the connection. -/
theorem Up.of_traffic (h : Up p) (hclosed : q.loop.closed = none)
    (hregistered : q.loop.conn.Open)
    (hstate : q.loop.conn.conn.state = .kConnected ∨ q.loop.conn.conn.state = .kDisconnecting)
    (hemits : Emits Effect.IsTraffic p.loop.conn q.loop.conn)
    (hdestroyed : q.destroyed = p.destroyed) : Up q where
  closed_eq := hclosed
  registered := hregistered
  state := hstate
  destroyed_eq := hdestroyed.trans h.destroyed_eq
  reports_eq := (hemits.occurrences_eq (by simp [Effect.IsTraffic])).trans h.reports_eq
  closes_eq := (hemits.occurrences_eq (by simp [Effect.IsTraffic])).trans h.closes_eq

/-- A method that moves data. -/
theorem Up.move (h : Up p) {conn : ConnState} (htraffic : Traffic p.loop.conn conn)
    (hemits : Emits Effect.IsTraffic p.loop.conn conn)
    (hloop : q.loop.conn = conn ∧ q.loop.closed = (p.loop.move conn).closed)
    (hdestroyed : q.destroyed = p.destroyed) : Up q := by
  obtain ⟨hconn, hclosed⟩ := hloop
  subst hconn
  have hstate := htraffic.state_eq
  refine h.of_traffic ?_ (htraffic.open h.registered) (hstate ▸ h.state) hemits hdestroyed
  simp [hclosed, Quiescence.System.move, h.closed_eq, hstate, h.not_disconnected]

/-- The connection is closed. -/
theorem Up.handleClose (h : Up p) {s : ConnState} (hregistered : s.Open)
    (hreports : s.occurrences .connectionCallback = p.reports)
    (hcloses : s.occurrences .closeCallback = p.closes)
    (hloop : q.loop.conn = s.handleClose ∧ q.loop.closed = (p.loop.move s.handleClose).closed) :
    Down q := by
  obtain ⟨hconn, hclosed⟩ := hloop
  have hstate : s.handleClose.conn.state = .kDisconnected := rfl
  refine ⟨?_, ?_, ?_, ?_, ?_, ?_, ?_⟩
  · simp [hclosed, Quiescence.System.move, h.closed_eq, hstate]
  · rw [hconn]
    exact (local_handleClose s).mirrors hregistered.mirrors
  · simp [hconn, Quiescence.handleClose_index, hregistered.added]
  · rw [hconn]
    exact (s.setState .kDisconnected).disableAll_isWriting
  · simp [hconn, hstate]
  · calc q.reports = s.handleClose.occurrences .connectionCallback := by rw [System.reports, hconn]
      _ = p.reports + 1 := by rw [reports_handleClose, hreports]
      _ = 2 := by rw [h.reports_eq]
  · calc q.closes = s.handleClose.occurrences .closeCallback := by rw [System.closes, hconn]
      _ = p.closes + 1 := by rw [closes_handleClose, hcloses]
      _ ≤ 1 := by rw [h.closes_eq]

theorem Up.connectDestroyed (h : Up p) (hstate : p.loop.conn.conn.state = .kConnected)
    (hloop : q.loop = p.loop.move p.loop.conn.connectDestroyed) : Down q := by
  have hconn : q.loop.conn = p.loop.conn.connectDestroyed := congrArg _ hloop
  have hsettled := Quiescence.connectDestroyed_settled h.registered.mirrors hstate
  refine ⟨?_, hconn ▸ hsettled.mirrors, hconn ▸ hsettled.not_added, hconn ▸ hsettled.not_writing,
    hconn ▸ hsettled.not_connected, ?_, ?_⟩
  · have hdown : p.loop.conn.connectDestroyed.conn.state = .kDisconnected := by
      simp only [ConnState.connectDestroyed, if_pos hstate]
      rfl
    simp [hloop, Quiescence.System.move, h.closed_eq, hdown]
  · calc q.reports = p.loop.conn.connectDestroyed.occurrences .connectionCallback := by
          rw [System.reports, hconn]
      _ = p.reports + 1 := by rw [reports_connectDestroyed, if_pos hstate, System.reports]
      _ = 2 := by rw [h.reports_eq]
  · calc q.closes = p.closes := by rw [System.closes, hconn, closes_connectDestroyed, System.closes]
      _ ≤ 1 := by rw [h.closes_eq]; exact Nat.zero_le 1

/-- A callback of an event on a connection that has not been closed. -/
theorem Up.runCallback (h : Up p) (callback : Channel.Callback) (read : Buffer.ReadResult)
    (result : IoResult)
    (hloop : q.loop.conn = p.loop.conn.runCallback callback read result ∧
      q.loop.closed = (p.loop.move (p.loop.conn.runCallback callback read result)).closed)
    (hdestroyed : q.destroyed = p.destroyed) : Invariant q := by
  cases callback with
  | closeCallback => exact .inr (h.handleClose h.registered rfl rfl hloop)
  | errorCallback => exact .inl (h.move .refl (.of_eq rfl) hloop hdestroyed)
  | readCallback =>
      by_cases hread : read = .data []
      · obtain ⟨buffer, heof⟩ := p.loop.conn.exists_handleRead_eof
        rw [ConnState.runCallback, hread, heof] at hloop
        have hregistered : (p.loop.conn.setInput buffer).Open :=
          ⟨h.registered.mirrors, h.registered.added, h.registered.reading⟩
        exact .inr (h.handleClose hregistered rfl rfl hloop)
      · have hemits : Emits Effect.IsTraffic p.loop.conn (p.loop.conn.handleRead read) :=
          (p.loop.conn.emits_handleRead hread).mono fun _ => Effect.isTraffic_messageCallback
        exact .inl (h.move (p.loop.conn.traffic_handleRead hread) hemits hloop hdestroyed)
  | writeCallback =>
      exact .inl (h.move (p.loop.conn.traffic_handleWrite result)
        (p.loop.conn.emits_handleWrite result) hloop hdestroyed)

/-- The state is stored by `shutdown`. -/
theorem Up.setDisconnecting (h : Up p) {conn : ConnState}
    (hconn : conn = p.loop.conn.setState .kDisconnecting)
    (hloop : q.loop.conn = conn ∧ q.loop.closed = (p.loop.move conn).closed)
    (hdestroyed : q.destroyed = p.destroyed) : Up q := by
  obtain ⟨hsame, hclosed⟩ := hloop
  subst hconn
  refine h.of_traffic ?_ ?_ ?_ ?_ hdestroyed
  · simp [hclosed, Quiescence.System.move, h.closed_eq]
  · rw [hsame]
    exact ⟨h.registered.mirrors, h.registered.added, h.registered.reading⟩
  · exact .inr (congrArg (fun s => s.conn.state) hsame)
  · rw [hsame]
    exact .of_eq rfl

/-- A step that at most changes the queue of the loop. -/
theorem Up.queue (h : Up p) {pending : List Functor}
    (hloop : q.loop.conn = { p.loop.conn with pendingFunctors := pending } ∧
      q.loop.closed = p.loop.closed)
    (hdestroyed : q.destroyed = p.destroyed) : Up q := by
  obtain ⟨hconn, hclosed⟩ := hloop
  refine h.of_traffic (hclosed.trans h.closed_eq) ?_ ?_ ?_ hdestroyed
  · rw [hconn]
    exact ⟨h.registered.mirrors, h.registered.added, h.registered.reading⟩
  · rw [hconn]
    exact h.state
  · rw [hconn]
    exact .of_eq rfl

theorem Up.shutdown (h : Up p)
    (hloop : q.loop.conn = p.loop.conn.shutdown ∧
      q.loop.closed = (p.loop.move p.loop.conn.shutdown).closed)
    (hdestroyed : q.destroyed = p.destroyed) : Up q := by
  by_cases hstate : p.loop.conn.conn.state = .kConnected
  · have hshutdown : p.loop.conn.shutdown =
        (p.loop.conn.setState .kDisconnecting).shutdownInLoop := if_pos hstate
    rw [hshutdown] at hloop
    let stored : System :=
      { p with loop := p.loop.move (p.loop.conn.setState .kDisconnecting) }
    have hstored : Up stored := h.setDisconnecting rfl ⟨rfl, rfl⟩ rfl
    refine hstored.move (traffic_shutdownInLoop _)
      ((emits_shutdownInLoop _).mono fun _ => Effect.isTraffic_shutdownWrite)
      ⟨hloop.1, hloop.2.trans ?_⟩ hdestroyed
    simp [stored, Quiescence.System.move]
  · have hshutdown : p.loop.conn.shutdown = p.loop.conn := if_neg hstate
    rw [hshutdown] at hloop
    exact h.move .refl (.of_eq rfl) hloop hdestroyed

theorem Up.loop (h : Up p) {label : Quiescence.Label} (hstep : Step p (.loop label) q) :
    Invariant q := by
  obtain ⟨hlabel, loop, hstep, rfl⟩ := hstep
  cases label with
  | callSend data =>
      obtain ⟨_, rfl⟩ := hstep
      exact .inl (h.queue ⟨rfl, rfl⟩ rfl)
  | callSendFile fileDescriptor offset count =>
      obtain ⟨_, rfl⟩ := hstep
      exact .inl (h.queue ⟨rfl, rfl⟩ rfl)
  | callShutdown =>
      obtain ⟨_, rfl⟩ := hstep
      exact .inl (h.queue ⟨rfl, rfl⟩ rfl)
  | storeDisconnecting =>
      obtain ⟨_, rfl⟩ := hstep
      exact .inl (h.setDisconnecting rfl ⟨rfl, rfl⟩ rfl)
  | queueCall functor =>
      obtain ⟨_, rfl⟩ := hstep
      exact .inl (h.queue ⟨rfl, rfl⟩ rfl)
  | poll revents =>
      obtain ⟨_, _, rfl⟩ := hstep
      exact .inl (h.queue ⟨rfl, rfl⟩ rfl)
  | callback read result =>
      obtain ⟨callback, rest, _, rfl⟩ := hstep
      exact h.runCallback callback read result ⟨rfl, rfl⟩ rfl
  | runFunctor result =>
      obtain ⟨_, functor, rest, _, rfl⟩ := hstep
      -- the functor leaves the queue first
      let popped : System :=
        { p with loop := { p.loop with conn := { p.loop.conn with pendingFunctors := rest } } }
      have hpopped : Up popped := h.queue ⟨rfl, rfl⟩ rfl
      exact .inl (hpopped.move (traffic_runFunctor _ functor result)
        (emits_runFunctor _ functor result) ⟨rfl, rfl⟩ rfl)
  | connectDestroyed => exact absurd rfl hlabel
  | send data result =>
      obtain rfl := hstep
      exact .inl (h.move (traffic_send _ data result)
        ((emits_send _ data result).mono fun _ => Effect.IsTransfer.isTraffic) ⟨rfl, rfl⟩ rfl)
  | sendFile fileDescriptor offset count result =>
      obtain rfl := hstep
      exact .inl (h.move (traffic_sendFile _ _ _ _ result)
        ((emits_sendFile _ _ _ _ result).mono fun _ => Effect.IsTransfer.isTraffic) ⟨rfl, rfl⟩ rfl)
  | shutdown =>
      obtain rfl := hstep
      exact .inl (h.shutdown ⟨rfl, rfl⟩ rfl)

/-- `connectDestroyed` comes before `shutdown`. -/
theorem Up.destroy (h : Up p) (hfirst : ClosedFirst p)
    (hloop : q.loop = p.loop.move p.loop.conn.connectDestroyed) : Down q := by
  rcases h.state with hconnected | hdisconnecting
  · exact h.connectDestroyed hconnected hloop
  · exact absurd h.closed_eq (hfirst hdisconnecting)

/-- `connectDestroyed` comes after `shutdown`. -/
theorem Up.not_once (h : Up p) (hnot : ¬ ClosedFirst p)
    (hloop : q.loop = p.loop.move p.loop.conn.connectDestroyed) (hdestroyed : q.destroyed = true) :
    ¬ Once q := by
  obtain ⟨hstate, _⟩ := Classical.not_imp.1 hnot
  intro honce
  have hconn : q.loop.conn = p.loop.conn.connectDestroyed := congrArg _ hloop
  have hreports : q.reports = 1 := by
    calc q.reports = p.loop.conn.connectDestroyed.occurrences .connectionCallback := by
          rw [System.reports, hconn]
      _ = p.reports + 0 := by
          rw [reports_connectDestroyed, if_neg (by simp [hstate]), System.reports]
      _ = 1 := h.reports_eq
  have htwo := honce.destroyed hdestroyed
  omega

end UpSteps

/-! ## Steps of a connection that is down -/

section DownSteps

variable {p q : System}

theorem Down.closed_move (h : Down p) (conn : ConnState) :
    (p.loop.move conn).closed = p.loop.closed := by
  obtain ⟨closed, hclosed⟩ := Option.ne_none_iff_exists'.1 h.closed_ne
  rw [Quiescence.closed_move hclosed, hclosed]

/-- A step that leaves the channel alone. -/
theorem Down.of_frame (h : Down p) {conn : ConnState} (hlocal : Local p.loop.conn conn)
    (hchannel : conn.conn.channel = p.loop.conn.conn.channel)
    (hstate : conn.conn.state ≠ .kConnected) (hemits : Emits Effect.IsTraffic p.loop.conn conn)
    (hloop : q.loop.conn = conn ∧ q.loop.closed = p.loop.closed) : Down q := by
  obtain ⟨hconn, hclosed⟩ := hloop
  subst hconn
  refine ⟨hclosed ▸ h.closed_ne, hlocal.mirrors h.mirrors, hchannel ▸ h.not_added, ?_, hstate,
    (hemits.occurrences_eq (by simp [Effect.IsTraffic])).trans h.reports_eq,
    (hemits.occurrences_eq (by simp [Effect.IsTraffic])).trans_le h.closes_le⟩
  rw [isWriting, hchannel]
  exact h.not_writing

/-- A method that moves data, but not through the channel. -/
theorem Down.move (h : Down p) {conn : ConnState} (htraffic : Traffic p.loop.conn conn)
    (hemits : Emits Effect.IsTraffic p.loop.conn conn)
    (hchannel : conn.conn.channel = p.loop.conn.conn.channel)
    (hloop : q.loop.conn = conn ∧ q.loop.closed = (p.loop.move conn).closed) : Down q :=
  h.of_frame htraffic.toLocal hchannel (htraffic.state_eq ▸ h.not_connected) hemits
    ⟨hloop.1, hloop.2.trans (h.closed_move conn)⟩

theorem Down.runCallback (h : Down p) {callback : Channel.Callback} {read : Buffer.ReadResult}
    (hharmless : Quiescence.HarmlessCallback read callback) (result : IoResult)
    (hloop : q.loop.conn = p.loop.conn.runCallback callback read result ∧
      q.loop.closed = (p.loop.move (p.loop.conn.runCallback callback read result)).closed) :
    Down q := by
  cases callback with
  | closeCallback => exact hharmless.elim
  | errorCallback => exact h.move .refl (.of_eq rfl) rfl hloop
  | readCallback =>
      have hemits : Emits Effect.IsTraffic p.loop.conn (p.loop.conn.handleRead read) :=
        (p.loop.conn.emits_handleRead hharmless).mono fun _ => Effect.isTraffic_messageCallback
      refine h.move (p.loop.conn.traffic_handleRead hharmless) hemits ?_ hloop
      unfold handleRead
      split
      · exact absurd rfl hharmless
      · rfl
      · rfl
  | writeCallback =>
      have hoff : p.loop.conn.conn.channel.isWriting = false := h.not_writing
      have hwrite : p.loop.conn.runCallback .writeCallback read result = p.loop.conn := by
        simp [ConnState.runCallback, handleWrite, hoff]
      rw [hwrite] at hloop
      exact h.move .refl (.of_eq rfl) rfl hloop

theorem Down.runFunctor (h : Down p) {functor : Functor} {result : IoResult}
    (hall : SendsAll p.loop.conn result functor)
    (hloop : q.loop.conn = p.loop.conn.runFunctor functor result ∧
      q.loop.closed = (p.loop.move (p.loop.conn.runFunctor functor result)).closed) : Down q := by
  refine h.move (traffic_runFunctor _ functor result) (emits_runFunctor _ functor result) ?_ hloop
  cases functor with
  | writeComplete => rfl
  | highWaterMark size => rfl
  | sendInLoop data => exact congrArg TcpConnection.channel (sendInLoop_conn_of_unsent_nil hall)
  | sendFileInLoop fileDescriptor offset count =>
      exact congrArg TcpConnection.channel (sendFileInLoop_conn _ _ _ _ _)
  | shutdownInLoop => exact congrArg TcpConnection.channel (shutdownInLoop_conn _)

/-- A step that at most changes the queue of the loop. -/
theorem Down.queue (h : Down p) {pending : List Functor}
    (hloop : q.loop.conn = { p.loop.conn with pendingFunctors := pending } ∧
      q.loop.closed = p.loop.closed) : Down q := by
  refine h.of_frame ?_ ?_ ?_ ?_ hloop
  · exact ⟨rfl, rfl, id, fun _ => .refl _ _⟩
  · rfl
  · exact h.not_connected
  · exact .of_eq rfl

theorem Down.connectDestroyed (h : Down p)
    (hloop : q.loop = p.loop.move p.loop.conn.connectDestroyed) : Down q := by
  have hconn : q.loop.conn = p.loop.conn.connectDestroyed := congrArg _ hloop
  have hremoved : p.loop.conn.connectDestroyed = p.loop.conn.remove := by
    simp [ConnState.connectDestroyed, h.not_connected]
  rw [hremoved] at hconn
  have hclosed : q.loop.closed = p.loop.closed := by
    rw [hloop]
    exact h.closed_move _
  refine ⟨hclosed ▸ h.closed_ne, ?_, ?_, ?_, ?_, ?_, ?_⟩
  · rw [hconn]
    exact (local_remove _).mirrors h.mirrors
  · have hindex : p.loop.conn.remove.conn.channel.index = .kNew := rfl
    simp [hconn, hindex]
  · rw [hconn]
    exact h.not_writing
  · rw [hconn]
    exact h.not_connected
  · rw [System.reports, hconn]
    exact h.reports_eq
  · rw [System.closes, hconn]
    exact h.closes_le

theorem Down.loop (h : Down p) {label : Quiescence.Label} (hstep : Step p (.loop label) q)
    (horder : InOrder p (.loop label)) : Down q := by
  obtain ⟨hlabel, loop, hstep, rfl⟩ := hstep
  cases label with
  | callSend data => exact absurd hstep.1 h.not_connected
  | callSendFile fileDescriptor offset count => exact absurd hstep.1 h.not_connected
  | callShutdown => exact absurd hstep.1 h.not_connected
  | storeDisconnecting =>
      obtain ⟨_, rfl⟩ := hstep
      refine h.of_frame (local_setState _ .kDisconnecting) rfl ?_ (.of_eq rfl)
        ⟨rfl, h.closed_move _⟩
      simp
  | queueCall functor =>
      obtain ⟨_, rfl⟩ := hstep
      exact h.queue ⟨rfl, rfl⟩
  | poll revents =>
      obtain ⟨_, hinterest, _⟩ := hstep
      exact absurd (Quiescence.interest_eq_none h.mirrors h.not_added) hinterest
  | callback read result =>
      obtain ⟨callback, rest, hcallbacks, rfl⟩ := hstep
      refine h.runCallback ?_ result ⟨rfl, rfl⟩
      exact horder.resolve_left h.closed_ne callback (by simp [hcallbacks])
  | runFunctor result =>
      obtain ⟨_, functor, rest, hpending, rfl⟩ := hstep
      have hall : SendsAll p.loop.conn result functor :=
        horder.resolve_left h.closed_ne functor (by simp [hpending])
      let popped : System :=
        { p with loop := { p.loop with conn := { p.loop.conn with pendingFunctors := rest } } }
      have hpopped : Down popped := h.queue ⟨rfl, rfl⟩
      have hall' : SendsAll popped.loop.conn result functor := by
        cases functor <;> exact hall
      exact hpopped.runFunctor hall' ⟨rfl, rfl⟩
  | connectDestroyed => exact absurd rfl hlabel
  | send data result =>
      obtain rfl := hstep
      exact h.move .refl (.of_eq rfl) rfl ⟨by simp [ConnState.send, h.not_connected,
        Quiescence.System.move], by simp [ConnState.send, h.not_connected]⟩
  | sendFile fileDescriptor offset count result =>
      obtain rfl := hstep
      exact h.move .refl (.of_eq rfl) rfl ⟨by simp [ConnState.sendFile, h.not_connected,
        Quiescence.System.move], by simp [ConnState.sendFile, h.not_connected]⟩
  | shutdown =>
      obtain rfl := hstep
      exact h.move .refl (.of_eq rfl) rfl ⟨by simp [ConnState.shutdown, h.not_connected,
        Quiescence.System.move], by simp [ConnState.shutdown, h.not_connected]⟩

end DownSteps

/-! ## Runs -/

section Runs

variable {p q : System} {label : Label}

theorem invariant_step (h : Invariant p) (hstep : restrict Step InOrder p label q) :
    Invariant q := by
  obtain ⟨hstep, horder⟩ := hstep
  cases label with
  | loop label =>
      rcases h with hup | hdown
      · exact hup.loop hstep
      · exact .inr (hdown.loop hstep horder)
  | removeConnectionInLoop =>
      obtain ⟨_, _, rfl⟩ := hstep
      exact h.imp (fun hup => hup.queue ⟨rfl, rfl⟩ rfl) fun hdown => hdown.queue ⟨rfl, rfl⟩
  | connectDestroyed =>
      obtain ⟨_, _, rfl⟩ := hstep
      rcases h with hup | hdown
      · exact .inr (hup.destroy horder rfl)
      · exact .inr (hdown.connectDestroyed rfl)
  | destroyServer inLoopThread =>
      obtain ⟨_, rfl⟩ := hstep
      by_cases hmapped : p.mapped = false
      · rw [if_pos hmapped]
        exact h.imp (fun hup => hup.queue ⟨rfl, rfl⟩ rfl) fun hdown => hdown.queue ⟨rfl, rfl⟩
      · rw [if_neg hmapped]
        cases inLoopThread with
        | false =>
            exact h.imp (fun hup => hup.queue ⟨rfl, rfl⟩ rfl) fun hdown => hdown.queue ⟨rfl, rfl⟩
        | true =>
            rcases h with hup | hdown
            · exact .inr (hup.destroy (horder (by simpa using hmapped)) rfl)
            · exact .inr (hdown.connectDestroyed rfl)

/-! ### Steps that are not in order -/

theorem not_once_of_reports (hreports : p.reports = 3) : ¬ Once p := by
  intro honce
  have hle := honce.reports_le
  omega

/-- The peer resets a closed connection that is registered. -/
theorem exists_not_once_of_registered (hidle : p.loop.callbacks = [])
    (hregistered : p.loop.conn.poller.interest p.loop.conn.conn.channel.fd ≠ none)
    (hreports : p.reports = 2) : ∃ more r, Run Step p more r ∧ ¬ Once r := by
  let event : System := { p with loop := { p.loop with callbacks := [.closeCallback] } }
  have hpoll : Step p (.loop (.poll EPOLLHUP)) event :=
    ⟨by simp, event.loop, ⟨hidle, hregistered, rfl⟩, by simp [event, System.closes]⟩
  let closed : Quiescence.System :=
    { event.loop.move event.loop.conn.handleClose with callbacks := [] }
  have hclose : Step event (.loop (.callback (.data []) (.bytes 0))) _ :=
    ⟨by simp, closed, ⟨_, _, rfl, rfl⟩, rfl⟩
  refine ⟨_, _, (Run.single hpoll).snoc hclose, not_once_of_reports ?_⟩
  show p.loop.conn.handleClose.occurrences .connectionCallback = 3
  calc p.loop.conn.handleClose.occurrences .connectionCallback = p.reports + 1 :=
        reports_handleClose p.loop.conn
    _ = 3 := by rw [hreports]

theorem Down.exists_not_once (h : Down p) {label : Quiescence.Label}
    (hstep : Step p (.loop label) q) (hnot : ¬ InOrder p (.loop label)) :
    ∃ more r, Run Step q more r ∧ ¬ Once r := by
  obtain ⟨_, loop, hstep, rfl⟩ := hstep
  cases label with
  | callback read result =>
      obtain ⟨callback, rest, hcallbacks, rfl⟩ := hstep
      have hharmful : ¬ Quiescence.HarmlessCallback read callback := fun hharmless =>
        hnot (.inr (by simpa [hcallbacks] using hharmless))
      refine ⟨[], _, .nil, not_once_of_reports ?_⟩
      cases callback with
      | closeCallback =>
          exact (reports_handleClose _).trans (congrArg (· + 1) h.reports_eq)
      | errorCallback => exact absurd trivial hharmful
      | readCallback =>
          have hread : read = .data [] := not_not.1 hharmful
          obtain ⟨buffer, heof⟩ := p.loop.conn.exists_handleRead_eof
          simp only [System.reports, Quiescence.System.move, ConnState.runCallback, hread, heof]
          exact (reports_handleClose _).trans (congrArg (· + 1) h.reports_eq)
      | writeCallback => exact absurd trivial hharmful
  | runFunctor result =>
      obtain ⟨hidle, functor, rest, hpending, rfl⟩ := hstep
      have hleft : ¬ SendsAll p.loop.conn result functor := fun hall =>
        hnot (.inr (by simpa [hpending] using hall))
      cases functor with
      | sendInLoop data =>
          let popped : ConnState := { p.loop.conn with pendingFunctors := rest }
          have htraffic := traffic_sendInLoop popped data result
          have hmirrors := htraffic.toLocal.mirrors h.mirrors
          have hindex := sendInLoop_index (s := popped) h.not_writing hleft
          refine exists_not_once_of_registered hidle ?_ ?_
          · have hinterest := hmirrors.interest_eq
            rw [if_pos hindex] at hinterest
            exact hinterest ▸ Option.some_ne_none _
          · have hsame : (popped.sendInLoop data result).occurrences .connectionCallback =
                popped.occurrences .connectionCallback :=
              (emits_sendInLoop popped data result).occurrences_eq id
            exact hsame.trans h.reports_eq
      | writeComplete => exact absurd trivial hleft
      | highWaterMark size => exact absurd trivial hleft
      | sendFileInLoop fileDescriptor offset count => exact absurd trivial hleft
      | shutdownInLoop => exact absurd trivial hleft
  | _ => exact absurd trivial hnot

/-- What goes wrong after a step that is not in order. -/
theorem exists_not_once (h : Invariant p) (hstep : Step p label q) (hnot : ¬ InOrder p label) :
    ∃ more r, Run Step q more r ∧ ¬ Once r := by
  cases label with
  | loop label =>
      rcases h with hup | hdown
      · refine absurd ?_ hnot
        cases label <;> simp [InOrder, hup.closed_eq]
      · exact hdown.exists_not_once hstep hnot
  | removeConnectionInLoop => exact absurd trivial hnot
  | connectDestroyed =>
      obtain ⟨_, _, rfl⟩ := hstep
      rcases h with hup | hdown
      · exact ⟨[], _, .nil, hup.not_once hnot rfl rfl⟩
      · exact absurd (fun _ => hdown.closed_ne) hnot
  | destroyServer inLoopThread =>
      cases inLoopThread with
      | false => exact absurd trivial hnot
      | true =>
          obtain ⟨hmapped, hlate⟩ := Classical.not_imp.1 hnot
          obtain ⟨_, rfl⟩ := hstep
          rcases h with hup | hdown
          · exact ⟨[], _, .nil, by simpa [hmapped] using hup.not_once hlate rfl rfl⟩
          · exact absurd (fun _ => hdown.closed_ne) hlate

end Runs

/-- In every run whose steps are in order the connection reports once when it is established
and once when it goes down, and its close is reported at most once; after a step that is
not in order this can go wrong. -/
theorem callbacks_once (s : ConnState) (hfresh : s.Fresh) (labels : List Label) (p : System)
    (hrun : Run (restrict Step InOrder) (start s) labels p) :
    (start s).reports = 1 ∧ Once p ∧ ∀ label q, Step p label q → ¬ InOrder p label →
      ∃ more r, Run Step q more r ∧ ¬ Once r := by
  have h : Invariant p := hrun.invariant (.inl (initial_up hfresh)) fun _ _ _ => invariant_step
  exact ⟨reports_start hfresh, h.once, fun _ _ => exists_not_once h⟩

/-- The peer resets the connection and the server removes it. -/
theorem callbacks_once_reset :
    let event : System := { start SendPath.fresh with
      loop := { (start SendPath.fresh).loop with callbacks := [.closeCallback] } }
    let closed : System := { event with
      loop := { event.loop.move event.loop.conn.handleClose with callbacks := [] }, removals := 1 }
    let removed : System := { closed with removals := 0, mapped := false, destroying := 1 }
    Once { removed with destroying := 0 }.connectDestroyed := by
  intro event closed removed
  have hpoll : restrict Step InOrder (start SendPath.fresh) (.loop (.poll EPOLLHUP)) event :=
    ⟨⟨by simp, event.loop, ⟨rfl, by decide, rfl⟩, rfl⟩, trivial⟩
  have hclose : restrict Step InOrder event (.loop (.callback (.data []) (.bytes 0))) closed :=
    ⟨⟨by simp, closed.loop, ⟨_, _, rfl, rfl⟩, rfl⟩, .inl rfl⟩
  have hremove : restrict Step InOrder closed .removeConnectionInLoop removed :=
    ⟨⟨rfl, by decide, rfl⟩, trivial⟩
  have hdestroy : restrict Step InOrder removed .connectDestroyed
      { removed with destroying := 0 }.connectDestroyed :=
    ⟨⟨by decide, rfl, rfl⟩, fun _ => by decide⟩
  exact (callbacks_once SendPath.fresh SendPath.fresh_fresh _ _
    ((((Run.single hpoll).snoc hclose).snoc hremove).snoc hdestroy)).2.1

/-- The user shuts the connection down and the server is destroyed: the connection does not
report that it goes down. -/
theorem destroyed_while_disconnecting :
    ¬ ∀ (s : ConnState) (labels : List Label) (p : System), s.Fresh →
      Run Step (start s) labels p → Once p := by
  intro hclaim
  let shut : System := { start SendPath.fresh with
    loop := (start SendPath.fresh).loop.move (start SendPath.fresh).loop.conn.shutdown }
  let removed : System := { shut with server := false, mapped := false, destroying := 1 }
  have hshutdown : Step (start SendPath.fresh) (.loop .shutdown) shut :=
    ⟨by simp, shut.loop, rfl, rfl⟩
  have hserver : Step shut (.destroyServer false) removed := ⟨rfl, rfl⟩
  have hdestroy : Step removed .connectDestroyed
      { removed with destroying := 0 }.connectDestroyed := ⟨by decide, rfl, rfl⟩
  have honce := hclaim SendPath.fresh _ _ SendPath.fresh_fresh
    (((Run.single hshutdown).snoc hserver).snoc hdestroy)
  have hreports : { removed with destroying := 0 }.connectDestroyed.reports = 1 := by decide
  exact absurd (hreports.symm.trans (honce.destroyed rfl)) (by decide)

end Callbacks

end MuduoLite
