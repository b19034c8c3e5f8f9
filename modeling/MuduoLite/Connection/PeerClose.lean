import MuduoLite.Connection.Quiescence
import MuduoLite.Connection.Session

/-!
# The end of a session

The peer closes its end after its last byte.  From then on the kernel reports the socket as
readable, and a `readv` that finds no bytes gives 0, upon which `handleRead` closes the
connection.  When our end is shut as well the kernel reports `EPOLLHUP`, and
`handleEventWithGuard` closes the connection without a read where `EPOLLIN` is not reported
with it.

A session is handled by its loop here: `Polled` has the callbacks that are left of the event
that is being handled.  As long as the connection is not closed, the session is one that
`Session` knows (`Goes`), and it watches for `EPOLLIN`, so no hang-up closes it.  The read
that finds no bytes closes it, and nothing happens to it after that (`Ended`).
-/

namespace MuduoLite

open Pieces Transition

namespace Channel

/-! ## The callbacks of an event -/

section Callbacks

variable (revents : EventMask)

private theorem mem_singleton_if {condition : Prop} [Decidable condition]
    {callback other : Callback} :
    callback ∈ (if condition then [other] else []) ↔ condition ∧ callback = other := by
  split_ifs with h <;> simp [h]

theorem closeCallback_mem_iff : .closeCallback ∈ handleEventWithGuard revents ↔
    revents &&& EPOLLHUP ≠ 0 ∧ revents &&& EPOLLIN = 0 := by
  simp only [handleEventWithGuard, List.mem_append, mem_singleton_if, reduceCtorEq, and_false,
    or_false, and_true]

theorem readCallback_mem (hreadable : revents &&& EPOLLIN ≠ 0) :
    .readCallback ∈ handleEventWithGuard revents := by
  have hwide : revents &&& (EPOLLIN ||| EPOLLPRI) ≠ 0 := by
    intro hzero
    have hbit : (EPOLLIN ||| EPOLLPRI) &&& EPOLLIN = EPOLLIN := by decide
    rw [← hbit, ← BitVec.and_assoc, hzero] at hreadable
    exact hreadable rfl
  simp only [handleEventWithGuard, List.mem_append, mem_singleton_if, reduceCtorEq, and_false,
    or_false, false_or, and_true]
  exact hwide

theorem nodup_handleEventWithGuard : (handleEventWithGuard revents).Nodup := by
  unfold handleEventWithGuard
  split_ifs <;> decide

theorem length_handleEventWithGuard_le : (handleEventWithGuard revents).length ≤ 4 := by
  unfold handleEventWithGuard
  split_ifs <;> decide

end Callbacks

end Channel

namespace Session

open FileOrder (Answers)

/-! ## A session and its loop -/

structure Polled (σ : Type*) where
  session : System σ
  /-- the peer has closed its end -/
  finished : Bool := false
  /-- the callbacks that are left of the event -/
  todo : List Channel.Callback := []

namespace Polled

variable {σ : Type*}

/-- What of `events` is ready.  The kernel adds errors and hang-ups to every interest. -/
def reported (ready events : EventMask) : EventMask :=
  ready &&& (events ||| EPOLLERR ||| EPOLLHUP)

/-- What the kernel may have ready.  A socket is readable when it has bytes or the peer has
closed its end, and only in the second case it can have been closed at both ends.  Anything
else may be ready or not. -/
def MayReport (p : Polled σ) (ready : EventMask) : Prop :=
  (ready &&& EPOLLIN ≠ 0 ↔ p.session.socket ≠ [] ∨ p.finished = true) ∧
    (ready &&& EPOLLHUP ≠ 0 → p.finished = true)

/-- Has the connection been closed? -/
def Closed (p : Polled σ) : Prop := p.session.conn.conn.state = .kDisconnected

/-- The callback that was run has left the connection as `conn`. -/
def after (p : Polled σ) (conn : ConnState) (rest : List Channel.Callback) : Polled σ :=
  { p with session := { p.session with conn := conn }, todo := rest }

inductive Label
  | arrive (data : List Byte)
  | finish
  | poll (ready : EventMask)
  | handleRead (n : ℕ) (results : List IoResult)
  | handleReadEnd
  | handleReadError (errno : Errno)
  | handleWrite (result : IoResult)
  | handleClose
  | handleError
  deriving DecidableEq, Repr

/-- The peer sends and closes its end, and the loop polls and runs the callbacks of an event one
after the other.  The answers of the kernel are those of `Session.Step`; `readv` gives 0 only
at the end of the stream. -/
def Step (handler : Handler σ) (p : Polled σ) (label : Label) (q : Polled σ) : Prop :=
  match label with
  | .arrive data =>
      p.finished = false ∧ q = { p with session := { p.session with
        socket := p.session.socket ++ data, arrived := p.session.arrived ++ data } }
  | .finish => q = { p with finished := true }
  | .poll ready =>
      p.todo = [] ∧ p.MayReport ready ∧ ∃ entry,
        p.session.conn.poller.interest p.session.conn.conn.channel.fd = some entry ∧
        q = { p with todo := Channel.handleEventWithGuard (reported ready entry.2) }
  | .handleRead n results =>
      ∃ rest, p.todo = .readCallback :: rest ∧ 0 < n ∧ n ≤ p.session.socket.length ∧
        n ≤ p.session.conn.conn.inputBuffer.raw.iovecBytes ∧
        List.Forall₂ (fun reply result => reply.Answered result)
          (p.session.response handler n).2.2 results ∧
        q = { p with session := p.session.handleRead handler n results, todo := rest }
  | .handleReadEnd =>
      ∃ rest, p.todo = .readCallback :: rest ∧ p.session.socket = [] ∧ p.finished = true ∧
        q = p.after (p.session.conn.handleRead (.data [])) rest
  | .handleReadError errno =>
      ∃ rest, p.todo = .readCallback :: rest ∧
        q = p.after (p.session.conn.handleRead (.error errno)) rest
  | .handleWrite result =>
      ∃ rest, p.todo = .writeCallback :: rest ∧ result.Fits p.session.conn.output.length ∧
        q = p.after (p.session.conn.handleWrite result) rest
  | .handleClose =>
      ∃ rest, p.todo = .closeCallback :: rest ∧ q = p.after p.session.conn.handleClose rest
  | .handleError =>
      ∃ rest, p.todo = .errorCallback :: rest ∧ q = p.after p.session.conn.handleError rest

/-- The connection has just been established. -/
def start (s : ConnState) (user : σ) : Polled σ := { session := Session.start s user }

/-! ## What is reported -/

section Reported

theorem and_twoPow_eq {mask : EventMask} {i : ℕ} (h : mask &&& BitVec.twoPow 32 i ≠ 0) :
    mask &&& BitVec.twoPow 32 i = BitVec.twoPow 32 i := by
  rw [BitVec.and_twoPow] at h ⊢
  split_ifs at h ⊢ with hbit
  · rfl
  · exact absurd rfl h

theorem and_EPOLLIN_eq {mask : EventMask} (h : mask &&& EPOLLIN ≠ 0) :
    mask &&& EPOLLIN = EPOLLIN := and_twoPow_eq (i := 0) h

theorem and_EPOLLOUT_eq {mask : EventMask} (h : mask &&& EPOLLOUT ≠ 0) :
    mask &&& EPOLLOUT = EPOLLOUT := and_twoPow_eq (i := 2) h

theorem reported_and (ready events : EventMask) {bit : EventMask}
    (herror : EPOLLERR &&& bit = 0) (hhup : EPOLLHUP &&& bit = 0) :
    reported ready events &&& bit = ready &&& (events &&& bit) := by
  rw [reported, BitVec.and_assoc, BitVec.and_or_distrib_right, BitVec.and_or_distrib_right, herror,
    hhup]
  exact congrArg (ready &&& ·) (BitVec.or_zero.trans BitVec.or_zero)

/-- A channel with read interest sees that its socket is readable. -/
theorem reported_and_EPOLLIN (ready : EventMask) {events : EventMask}
    (hreading : events &&& EPOLLIN ≠ 0) :
    reported ready events &&& EPOLLIN = ready &&& EPOLLIN := by
  rw [reported_and ready events (by decide) (by decide), and_EPOLLIN_eq hreading]

/-- A socket that can be written to is reported where there is write interest. -/
theorem reported_and_EPOLLOUT {ready : EventMask} (events : EventMask)
    (hwritable : ready &&& EPOLLOUT ≠ 0) :
    reported ready events &&& EPOLLOUT = events &&& EPOLLOUT := by
  rw [reported_and ready events (by decide) (by decide), ← BitVec.and_assoc,
    BitVec.and_comm ready, BitVec.and_assoc, and_EPOLLOUT_eq hwritable]

/-- Nothing is reported that is not ready. -/
theorem ready_of_reported {ready events bit : EventMask}
    (hreported : reported ready events &&& bit ≠ 0) : ready &&& bit ≠ 0 := by
  intro hzero
  apply hreported
  calc
    reported ready events &&& bit
        = (events ||| EPOLLERR ||| EPOLLHUP) &&& (ready &&& bit) := by
      rw [reported, BitVec.and_comm ready, BitVec.and_assoc]
    _ = 0 := by
      rw [hzero]
      exact BitVec.and_zero

variable {p : Polled σ} {ready events : EventMask}

/-- No hang-up is handled without a read. -/
theorem MayReport.no_close (h : p.MayReport ready) (hreading : events &&& EPOLLIN ≠ 0) :
    .closeCallback ∉ Channel.handleEventWithGuard (reported ready events) := by
  rw [Channel.closeCallback_mem_iff, reported_and_EPOLLIN ready hreading]
  intro hclose
  exact h.1.2 (.inr (h.2 (ready_of_reported hclose.1))) hclose.2

/-- Once the peer has closed its end, every event has a read. -/
theorem MayReport.read (h : p.MayReport ready) (hreading : events &&& EPOLLIN ≠ 0)
    (hfinished : p.finished = true) :
    .readCallback ∈ Channel.handleEventWithGuard (reported ready events) := by
  refine Channel.readCallback_mem _ ?_
  rw [reported_and_EPOLLIN ready hreading]
  exact h.1.2 (.inr hfinished)

end Reported

/-! ## Before and after the close -/

/-- The connection is not closed, and the event will not close it without a read. -/
structure Goes (handler : Handler σ) (files : ℕ → List Byte) (user : σ)
    (pieces : List (List Byte)) (p : Polled σ) : Prop where
  serves : Serves handler files user pieces p.session
  open_count : p.session.conn.occurrences .closeCallback = 0
  no_close : .closeCallback ∉ p.todo
  nodup : p.todo.Nodup

/-- A read that found no bytes has closed the connection, and nothing has happened since. -/
structure Ended (handler : Handler σ) (files : ℕ → List Byte) (user : σ)
    (pieces : List (List Byte)) (p : Polled σ) : Prop where
  finished : p.finished = true
  closed : ∃ before : System σ, Serves handler files user pieces before ∧ before.socket = [] ∧
    before.conn.occurrences .closeCallback = 0 ∧
    p.session = { before with conn := before.conn.handleRead (.data []) }
  no_read : .readCallback ∉ p.todo
  no_close : .closeCallback ∉ p.todo

section Goes

variable {handler : Handler σ} {files : ℕ → List Byte} {user : σ} {pieces : List (List Byte)}
  {p q : Polled σ} {label : Label}

/-- What a session does does not close it. -/
theorem closeCallback_count {s t : System σ} {label : Session.Label}
    (hstep : Session.Step handler s label t) :
    t.conn.occurrences .closeCallback = s.conn.occurrences .closeCallback := by
  have hreply (conn : ConnState) (reply : Reply) (result : IoResult) :
      (reply.run conn result).occurrences .closeCallback = conn.occurrences .closeCallback := by
    cases reply with
    | send data => exact (conn.emits_send data result).occurrences_eq id
    | shutdown =>
        simp only [Reply.run, ConnState.shutdown]
        split_ifs
        · exact ((conn.setState .kDisconnecting).emits_shutdownInLoop.occurrences_eq (by simp))
        · rfl
  have hreplies (conn : ConnState) (calls : List (Reply × IoResult)) :
      (runReplies conn calls).occurrences .closeCallback = conn.occurrences .closeCallback := by
    induction calls generalizing conn with
    | nil => rfl
    | cons call rest ih => exact (ih _).trans (hreply conn call.1 call.2)
  have hread {result : Buffer.ReadResult} (hopen : result ≠ .data []) :
      (s.conn.handleRead result).occurrences .closeCallback =
        s.conn.occurrences .closeCallback :=
    (s.conn.emits_handleRead hopen).occurrences_eq (by simp)
  cases label with
  | arrive data =>
      obtain rfl := hstep
      rfl
  | handleRead n results =>
      obtain ⟨-, hpos, hle, -, -, rfl⟩ := hstep
      have hne : Buffer.ReadResult.data (s.socket.take n) ≠ .data [] := by
        intro hnil
        have hlength := congrArg List.length (Buffer.ReadResult.data.inj hnil)
        rw [List.length_take_of_le hle] at hlength
        exact hpos.ne' hlength
      exact (hreplies _ _).trans (hread hne)
  | handleReadError errno =>
      obtain ⟨-, rfl⟩ := hstep
      exact hread (by simp)
  | handleWrite result =>
      obtain ⟨-, -, rfl⟩ := hstep
      exact (s.conn.emits_handleWrite result).occurrences_eq (by simp [Effect.IsTraffic])

theorem start_goes {s : ConnState} (hfresh : s.Fresh) (hinput : s.input = []) (user : σ) :
    Goes handler files user [] (start s user) where
  serves := start_serves hfresh hinput user
  open_count := by
    have heffects : s.connectEstablished.effects = [.connectionCallback] := by
      simp [ConnState.connectEstablished, ConnState.enableReading, ConnState.tie,
        hfresh.effects_eq]
    simp [start, Session.start, ConnState.occurrences, heffects]
  no_close := List.not_mem_nil
  nodup := .nil

/-- A step of the session that a callback makes. -/
theorem Goes.next (h : Goes handler files user pieces p) {callback : Channel.Callback}
    {rest : List Channel.Callback} (htodo : p.todo = callback :: rest) (label : Session.Label)
    {session : System σ} (hstep : Session.Step handler p.session label session) :
    ∃ more, Goes handler files user (pieces ++ more)
      { p with session := session, todo := rest } := by
  obtain ⟨hserves, hcount, hclose, hnodup⟩ := h
  obtain ⟨more, hmore⟩ := hserves.step hstep
  rw [htodo] at hclose hnodup
  exact ⟨more, hmore, (closeCallback_count hstep).trans hcount,
    fun hmem => hclose (List.mem_cons_of_mem _ hmem), hnodup.of_cons⟩

/-- A callback that leaves the session as it is. -/
theorem Goes.skip (h : Goes handler files user pieces p) {callback : Channel.Callback}
    {rest : List Channel.Callback} (htodo : p.todo = callback :: rest) :
    Goes handler files user pieces { p with todo := rest } := by
  obtain ⟨hserves, hcount, hclose, hnodup⟩ := h
  rw [htodo] at hclose hnodup
  exact ⟨hserves, hcount, fun hmem => hclose (List.mem_cons_of_mem _ hmem), hnodup.of_cons⟩

theorem exists_more (h : Goes handler files user pieces p) :
    ∃ more, Goes handler files user (pieces ++ more) p :=
  ⟨[], by rwa [List.append_nil]⟩

theorem Goes.handleWrite (h : Goes handler files user pieces p) {rest : List Channel.Callback}
    (htodo : p.todo = .writeCallback :: rest) {result : IoResult}
    (hfits : result.Fits p.session.conn.output.length) :
    ∃ more, Goes handler files user (pieces ++ more)
      (p.after (p.session.conn.handleWrite result) rest) := by
  by_cases hwriting : p.session.conn.isWriting = true
  · have hwatched : SendPath.watchesOut p.session.conn = true := by
      rw [h.serves.matched.delivers.watchesOut_eq]
      exact hwriting
    exact h.next htodo (.handleWrite result) ⟨hwatched, hfits, rfl⟩
  · have hsame : p.session.conn.handleWrite result = p.session.conn := if_neg hwriting
    rw [hsame]
    exact exists_more (h.skip htodo)

theorem Goes.interest_eq (h : Goes handler files user pieces p) :
    p.session.conn.poller.interest p.session.conn.conn.channel.fd =
      some (p.session.conn.self, p.session.conn.conn.channel.events) :=
  h.serves.matched.delivers.interest_eq

/-- A step leads on, or it is the read that ends the session. -/
theorem Goes.step (h : Goes handler files user pieces p) (hstep : Step handler p label q) :
    (∃ more, Goes handler files user (pieces ++ more) q) ∨ Ended handler files user pieces q := by
  have hreading := h.serves.matched.delivers.reading
  cases label with
  | arrive data =>
      obtain ⟨-, rfl⟩ := hstep
      have harrive : Session.Step handler p.session (.arrive data) _ := rfl
      obtain ⟨more, hmore⟩ := h.serves.step harrive
      exact .inl ⟨more, hmore, h.open_count, h.no_close, h.nodup⟩
  | finish =>
      obtain rfl := hstep
      exact .inl (exists_more ⟨h.serves, h.open_count, h.no_close, h.nodup⟩)
  | poll ready =>
      obtain ⟨-, hready, entry, hentry, rfl⟩ := hstep
      obtain rfl := Option.some.inj (h.interest_eq.symm.trans hentry)
      exact .inl (exists_more ⟨h.serves, h.open_count, hready.no_close hreading,
        Channel.nodup_handleEventWithGuard _⟩)
  | handleRead n results =>
      obtain ⟨rest, htodo, hpos, hle, hfits, hanswered, rfl⟩ := hstep
      exact .inl (h.next htodo (.handleRead n results)
        ⟨h.serves.watchesIn, hpos, hle, hfits, hanswered, rfl⟩)
  | handleReadEnd =>
      obtain ⟨rest, htodo, hsocket, hfinished, rfl⟩ := hstep
      have hnodup := h.nodup
      have hclose := h.no_close
      rw [htodo] at hnodup hclose
      exact .inr ⟨hfinished, ⟨p.session, h.serves, hsocket, h.open_count, rfl⟩,
        hnodup.notMem, fun hmem => hclose (List.mem_cons_of_mem _ hmem)⟩
  | handleReadError errno =>
      obtain ⟨rest, htodo, rfl⟩ := hstep
      exact .inl (h.next htodo (.handleReadError errno) ⟨h.serves.watchesIn, rfl⟩)
  | handleWrite result =>
      obtain ⟨rest, htodo, hfits, rfl⟩ := hstep
      exact .inl (h.handleWrite htodo hfits)
  | handleClose =>
      obtain ⟨rest, htodo, rfl⟩ := hstep
      exact absurd (htodo ▸ List.mem_cons_self) h.no_close
  | handleError =>
      obtain ⟨rest, htodo, rfl⟩ := hstep
      exact .inl (exists_more (h.skip htodo))

/-! ## After the close -/

/-- The connection is not registered any more, and does not write. -/
theorem Ended.settled (h : Ended handler files user pieces p) :
    Quiescence.Settled p.session.conn p.session.conn := by
  obtain ⟨before, hserves, -, -, hsession⟩ := h.closed
  obtain ⟨hmirrors, hadded, -⟩ := hserves.matched.delivers.registered
  obtain ⟨buffer, hread⟩ := before.conn.exists_handleRead_eof
  rw [hsession]
  dsimp only
  rw [hread]
  exact Quiescence.handleClose_settled (s := before.conn.setInput buffer) hmirrors hadded

theorem Ended.interest_eq (h : Ended handler files user pieces p) :
    p.session.conn.poller.interest p.session.conn.conn.channel.fd = none :=
  h.settled.quiet.interest

theorem Ended.closed_state (h : Ended handler files user pieces p) : Closed p := by
  obtain ⟨before, -, -, -, hsession⟩ := h.closed
  obtain ⟨buffer, hread⟩ := before.conn.exists_handleRead_eof
  rw [Closed, hsession, hread]
  rfl

/-- What is left of the event does nothing. -/
theorem Ended.skip (h : Ended handler files user pieces p) {callback : Channel.Callback}
    {rest : List Channel.Callback} (htodo : p.todo = callback :: rest) :
    Ended handler files user pieces { p with todo := rest } := by
  obtain ⟨hfinished, hclosed, hread, hclose⟩ := h
  rw [htodo] at hread hclose
  exact ⟨hfinished, hclosed, fun hmem => hread (List.mem_cons_of_mem _ hmem),
    fun hmem => hclose (List.mem_cons_of_mem _ hmem)⟩

theorem Ended.step (h : Ended handler files user pieces p) (hstep : Step handler p label q) :
    Ended handler files user pieces q ∧ q.session = p.session := by
  have hno_read {rest : List Channel.Callback} : p.todo ≠ .readCallback :: rest :=
    fun htodo => h.no_read (htodo ▸ List.mem_cons_self)
  cases label with
  | arrive data => exact absurd hstep.1 (by simp [h.finished])
  | finish =>
      obtain rfl := hstep
      exact ⟨⟨rfl, h.closed, h.no_read, h.no_close⟩, rfl⟩
  | poll ready =>
      obtain ⟨-, -, entry, hentry, -⟩ := hstep
      exact absurd (h.interest_eq.symm.trans hentry) (by simp)
  | handleRead n results =>
      obtain ⟨rest, htodo, -⟩ := hstep
      exact absurd htodo hno_read
  | handleReadEnd =>
      obtain ⟨rest, htodo, -⟩ := hstep
      exact absurd htodo hno_read
  | handleReadError errno =>
      obtain ⟨rest, htodo, -⟩ := hstep
      exact absurd htodo hno_read
  | handleWrite result =>
      obtain ⟨rest, htodo, -, rfl⟩ := hstep
      have hoff : ¬ p.session.conn.conn.channel.isWriting = true :=
        Bool.eq_false_iff.1 h.settled.not_writing
      have hsame : p.session.conn.handleWrite result = p.session.conn := if_neg hoff
      rw [hsame]
      exact ⟨h.skip htodo, rfl⟩
  | handleClose =>
      obtain ⟨rest, htodo, -⟩ := hstep
      exact absurd (htodo ▸ List.mem_cons_self) h.no_close
  | handleError =>
      obtain ⟨rest, htodo, rfl⟩ := hstep
      exact ⟨h.skip htodo, rfl⟩

theorem Ended.run {labels : List Label} (h : Ended handler files user pieces p)
    (hrun : Run (Step handler) p labels q) :
    Ended handler files user pieces q ∧ q.session = p.session := by
  refine hrun.invariant (P := fun q => Ended handler files user pieces q ∧ q.session = p.session)
    ⟨h, rfl⟩ ?_
  rintro a label b ⟨ha, hsame⟩ hstep
  obtain ⟨hb, hkept⟩ := ha.step hstep
  exact ⟨hb, hkept.trans hsame⟩

theorem run_goes (files : ℕ → List Byte) {s : ConnState} (hfresh : s.Fresh)
    (hinput : s.input = []) {labels : List Label}
    (hrun : Run (Step handler) (start s user) labels p) :
    ∃ pieces, Goes handler files user pieces p ∨ Ended handler files user pieces p := by
  refine hrun.invariant (P := fun p => ∃ pieces, Goes handler files user pieces p ∨
    Ended handler files user pieces p) ⟨[], .inl (start_goes hfresh hinput user)⟩ ?_
  rintro a label b ⟨pieces, hgoes | hended⟩ hstep
  · rcases hgoes.step hstep with ⟨more, hmore⟩ | hended
    · exact ⟨_, .inl hmore⟩
    · exact ⟨_, .inr hended⟩
  · exact ⟨_, .inr (hended.step hstep).1⟩

theorem not_closed_of_serves (h : Serves handler files user pieces p.session) : ¬ Closed p := by
  rw [Closed, h.matched.delivers.state_eq]
  split_ifs <;> simp

theorem Goes.not_closed (h : Goes handler files user pieces p) : ¬ Closed p :=
  not_closed_of_serves h.serves

end Goes

/-! ## What has been read -/

/-- The user has been given the pieces, and they are what the peer has sent up to what is left
in the socket. -/
structure Given (handler : Handler σ) (files : ℕ → List Byte) (user : σ)
    (pieces : List (List Byte)) (t : System σ) : Prop where
  nonempty : ∀ piece ∈ pieces, piece ≠ []
  arrived_eq : pieces.flatten ++ t.socket = t.arrived
  user_eq : t.user = (feedAll handler.consumer ⟨user, [], []⟩ pieces).state
  input_eq : t.conn.input = (feedAll handler.consumer ⟨user, [], []⟩ pieces).kept
  bytes : acceptedBytes files t.conn.effects ++ t.conn.output =
    bytesOf (feedAll handler.consumer ⟨user, [], []⟩ pieces).out

section Given

variable {handler : Handler σ} {files : ℕ → List Byte} {user : σ} {pieces : List (List Byte)}
  {p : Polled σ}

theorem given_of_serves {t : System σ} (h : Serves handler files user pieces t) :
    Given handler files user pieces t :=
  ⟨h.nonempty, h.arrived_eq.symm, h.matched.user_eq, h.matched.input_eq, h.matched.delivers.bytes⟩

/-- The read that finds no bytes leaves the input as it is. -/
theorem handleRead_eof_input (s : ConnState) : (s.handleRead (.data [])).input = s.input :=
  calc
    (s.handleRead (.data [])).input = (s.conn.inputBuffer.readFd (.data [])).readable := by
      simp only [ConnState.handleRead]
      rfl
    _ = s.input ++ [] := s.conn.inputBuffer.readable_readFd (Nat.zero_le _)
    _ = s.input := List.append_nil _

theorem Given.handleReadEnd {t : System σ} (h : Given handler files user pieces t) :
    Given handler files user pieces { t with conn := t.conn.handleRead (.data []) } where
  nonempty := h.nonempty
  arrived_eq := h.arrived_eq
  user_eq := h.user_eq
  input_eq := by
    rw [handleRead_eof_input, h.input_eq]
  bytes := by
    obtain ⟨buffer, hread⟩ := t.conn.exists_handleRead_eof
    have heffects : (t.conn.setInput buffer).handleClose.effects =
        t.conn.effects ++ [.connectionCallback] ++ [.closeCallback] := rfl
    have haccepted : acceptedBytes files (t.conn.setInput buffer).handleClose.effects =
        acceptedBytes files t.conn.effects := by
      simp [heffects, acceptedBytes, Effect.accepted]
    have houtput : (t.conn.setInput buffer).handleClose.output = t.conn.output := rfl
    dsimp only
    rw [hread, haccepted, houtput, h.bytes]

theorem Goes.given (h : Goes handler files user pieces p) :
    Given handler files user pieces p.session := given_of_serves h.serves

theorem Ended.given (h : Ended handler files user pieces p) :
    Given handler files user pieces p.session := by
  obtain ⟨before, hserves, -, -, hsession⟩ := h.closed
  rw [hsession]
  exact (given_of_serves hserves).handleReadEnd

theorem Ended.socket_eq (h : Ended handler files user pieces p) : p.session.socket = [] := by
  obtain ⟨before, -, hsocket, -, hsession⟩ := h.closed
  rw [hsession, hsocket]

theorem Ended.closed_count (h : Ended handler files user pieces p) :
    p.session.conn.occurrences .closeCallback = 1 := by
  obtain ⟨before, -, -, hcount, hsession⟩ := h.closed
  obtain ⟨buffer, hread⟩ := before.conn.exists_handleRead_eof
  have hclose : (before.conn.setInput buffer).handleClose.occurrences .closeCallback =
      before.conn.occurrences .closeCallback + 1 := by
    simp [ConnState.handleClose, ConnState.occurrences, ConnState.disableAll,
      ConnState.setEvents, ConnState.setState, ConnState.setInput, ConnState.emit]
  rw [hsession, hread, hclose, hcount]

end Given

/-- A session that its peer closes loses nothing of what the peer has sent.  After any run the
user has been given the bytes that were read, and the connection is closed, once, only when
the peer has closed its end and all its bytes have been read.  What is in the output buffer
then stays there: no step does anything to the session any more. -/
theorem session_ends (handler : Handler σ) (files : ℕ → List Byte) (user : σ) (s : ConnState)
    (hfresh : s.Fresh) (hinput : s.input = []) (labels : List Label) (p : Polled σ)
    (hrun : Run (Step handler) (start s user) labels p) :
    (∃ pieces : List (List Byte), (∀ piece ∈ pieces, piece ≠ []) ∧
      pieces.flatten ++ p.session.socket = p.session.arrived ∧
      let a := feedAll handler.consumer ⟨user, [], []⟩ pieces
      p.session.user = a.state ∧ p.session.conn.input = a.kept ∧
      acceptedBytes files p.session.conn.effects ++ p.session.conn.output = bytesOf a.out) ∧
    (¬ Closed p → p.session.conn.occurrences .closeCallback = 0) ∧
    (Closed p → p.session.conn.occurrences .closeCallback = 1 ∧
      p.finished = true ∧ p.session.socket = [] ∧
      ∀ more q, Run (Step handler) p more q → q.session = p.session) := by
  obtain ⟨pieces, hgoes | hended⟩ := run_goes files hfresh hinput hrun
  · have h := hgoes.given
    exact ⟨⟨pieces, h.nonempty, h.arrived_eq, h.user_eq, h.input_eq, h.bytes⟩,
      fun _ => hgoes.open_count, fun hclosed => absurd hclosed hgoes.not_closed⟩
  · have h := hended.given
    exact ⟨⟨pieces, h.nonempty, h.arrived_eq, h.user_eq, h.input_eq, h.bytes⟩,
      fun hopen => absurd hended.closed_state hopen,
      fun _ => ⟨hended.closed_count, hended.finished, hended.socket_eq,
        fun more q hmore => (hended.run hmore).2⟩⟩

/-- The socket of an open connection is reported as readable, and as nothing else. -/
theorem Goes.poll {handler : Handler σ} {files : ℕ → List Byte} {user : σ}
    {pieces : List (List Byte)} {p : Polled σ} (h : Goes handler files user pieces p)
    (hidle : p.todo = []) (hreadable : p.session.socket ≠ [] ∨ p.finished = true) :
    Step handler p (.poll EPOLLIN) { p with todo := [.readCallback] } := by
  have hnone : EPOLLIN &&& EPOLLHUP = 0 := by decide
  refine ⟨hidle, ⟨⟨fun _ => hreadable, fun _ => by decide⟩, fun hhup => absurd hnone hhup⟩, _,
    h.interest_eq, ?_⟩
  have hreported : reported EPOLLIN p.session.conn.conn.channel.events = EPOLLIN := by
    have hreading := h.serves.matched.delivers.reading
    have hother : EPOLLIN &&& (EPOLLERR ||| EPOLLHUP) = 0 := by decide
    rw [reported, BitVec.or_assoc, BitVec.and_or_distrib_left, hother, BitVec.and_comm,
      and_EPOLLIN_eq hreading]
    rfl
  rw [hreported]
  rfl

/-- The echo server has been sent two bytes, and that was all. -/
def lastWords : Polled Unit := { session := asked, finished := true }

/-- It has read them, and one of them waits to be sent back. -/
def answered : Polled Unit := { lastWords with session := asked.handleRead echo 2 [.bytes 1] }

theorem run_answered : Run (Step echo) (start SendPath.fresh ())
    [.arrive [1, 2], .finish, .poll EPOLLIN, .handleRead 2 [.bytes 1]] answered := by
  have harrive : Step echo (start SendPath.fresh ()) (.arrive [1, 2])
      { lastWords with finished := false } := ⟨rfl, rfl⟩
  have hfinish : Step echo { lastWords with finished := false } .finish lastWords := rfl
  have hpoll : Step echo lastWords (.poll EPOLLIN) { lastWords with todo := [.readCallback] } := by
    refine ⟨rfl, ⟨⟨fun _ => .inr rfl, fun _ => by decide⟩, fun _ => rfl⟩, (0, 3), by decide, ?_⟩
    rfl
  have hread : Step echo { lastWords with todo := [.readCallback] } (.handleRead 2 [.bytes 1])
      answered := by
    refine ⟨[], rfl, by decide, by decide, Buffer.le_iovecBytes (by decide), ?_, rfl⟩
    have hanswers : Answers (asked.read 2).input.length (.bytes 1) := by
      rw [asked_read_input]
      exact ⟨Nat.le_succ 1, rfl⟩
    exact .cons hanswers .nil
  exact (((Run.single harrive).snoc hfinish).snoc hpoll).snoc hread

theorem not_closed_answered : ¬ Closed answered := by
  obtain ⟨_, hserves⟩ : ∃ pieces, Serves echo (fun _ => []) () pieces answered.session :=
    run_serves (fun _ => []) SendPath.fresh_fresh rfl run_echo
  exact not_closed_of_serves hserves

/-- The end of the stream closes the connection, and the byte stays in the buffer. -/
theorem session_ends_echo :
    let conn := answered.session.conn.handleRead (.data [])
    acceptedBytes (fun _ => []) conn.effects ++ conn.output = [1, 2] ∧
      conn.occurrences .closeCallback = 1 := by
  obtain ⟨_, hgoes | hended⟩ := run_goes (fun _ => []) SendPath.fresh_fresh rfl run_answered
  · have hpoll := hgoes.poll rfl (.inr rfl)
    have hclose : Step echo { answered with todo := [.readCallback] } .handleReadEnd
        (answered.after (answered.session.conn.handleRead (.data [])) []) :=
      ⟨[], rfl, rfl, rfl, rfl⟩
    obtain ⟨⟨pieces, hne, hstream, -, -, hbytes⟩, -, hclosed⟩ := session_ends echo (fun _ => []) ()
      SendPath.fresh SendPath.fresh_fresh rfl _ _ ((run_answered.snoc hpoll).snoc hclose)
    have hjoined : pieces.flatten = [[1, 2]].flatten := (List.append_nil _).symm.trans hstream
    rw [feedAll_congr echo_incremental _ hne (by simp) hjoined] at hbytes
    exact ⟨hbytes, (hclosed rfl).1⟩
  · exact absurd hended.closed_state not_closed_answered

end Polled

end Session

end MuduoLite
