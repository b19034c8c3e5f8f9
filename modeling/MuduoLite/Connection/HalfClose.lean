import MuduoLite.Connection.Effects
import MuduoLite.Connection.SendPath

/-!
# Graceful half-close

`shutdown` does not close the write end while bytes wait in the output buffer.  It
stores `kDisconnecting`, and whoever finds the buffer empty later closes the write
end: `shutdownInLoop`, which runs at once or as a functor, or the drain branch of
`handleWrite`.

The two do not know of each other.  When `handleWrite` drains the buffer while the
functor still waits, both of them close the write end.  Otherwise (`InTurn`) only one
of them does.  The invariant `Closing` counts this: `early` is how often the write end
can have been closed while the functor waits.

Once the write end is closed nothing waits, because the kernel answers every further
write with `EPIPE`.
-/

namespace MuduoLite

open Transition

namespace HalfClose

/-- How far the user's `shutdown` has come. -/
inductive Shutdown
  | notCalled
  /-- `shutdownInLoop` waits in the queue of the loop -/
  | queued
  | ran
  deriving DecidableEq, Repr

structure System where
  path : SendPath.System
  shutdown : Shutdown := .notCalled

inductive Label
  | sendInLoop (data : List Byte) (result : IoResult)
  | handleWrite (result : IoResult)
  | handleRead (result : Buffer.ReadResult)
  /-- `shutdown` on the loop thread, and on another one -/
  | shutdown
  | shutdownFrom
  | shutdownInLoop
  deriving DecidableEq, Repr

def System.conn (p : System) : ConnState := p.path.conn

/-- How often `Socket::shutdownWrite` has been invoked. -/
def System.shutdownWrites (p : System) : ℕ := p.conn.occurrences .shutdownWrite

/-- A write after the write end has been closed fails with `EPIPE`. -/
def Answers (s : ConnState) (result : IoResult) : Prop :=
  0 < s.occurrences .shutdownWrite → result = .error .EPIPE

def Step (p : System) (label : Label) (q : System) : Prop :=
  match label with
  | .sendInLoop data result => Answers p.conn result ∧
      SendPath.Step p.path (.sendInLoop data result) q.path ∧ q.shutdown = p.shutdown
  | .handleWrite result => Answers p.conn result ∧
      SendPath.Step p.path (.handleWrite result) q.path ∧ q.shutdown = p.shutdown
  | .handleRead result =>
      SendPath.Step p.path (.handleRead result) q.path ∧ q.shutdown = p.shutdown
  | .shutdown => q = if p.conn.conn.state = .kConnected then
      { path := { p.path with conn := p.conn.shutdown }, shutdown := .ran } else p
  | .shutdownFrom => q = if p.conn.conn.state = .kConnected then
      { path := { p.path with conn := p.conn.setState .kDisconnecting }, shutdown := .queued }
      else p
  | .shutdownInLoop => p.shutdown = .queued ∧
      q = { path := { p.path with conn := p.conn.shutdownInLoop }, shutdown := .ran }

/-- The connection has just been established. -/
def start (s : ConnState) : System := { path := ⟨s.connectEstablished, []⟩ }

/-- `handleWrite` does not write the last waiting byte while `shutdownInLoop` waits. -/
def InTurn (p : System) : Label → Prop
  | .handleWrite result => p.shutdown = .queued →
      p.conn.output = [] ∨ result ≠ .bytes p.conn.output.length
  | _ => True

structure Closing (files : ℕ → List Byte) (early : ℕ) (p : System) : Prop where
  stream : SendPath.Stream files p.path
  notCalled : p.shutdown = .notCalled → p.conn.conn.state = .kConnected ∧ p.shutdownWrites = 0
  called : p.shutdown ≠ .notCalled → p.conn.conn.state = .kDisconnecting
  queued : p.shutdown = .queued → p.shutdownWrites ≤ early
  ran : p.shutdownWrites ≤ early + 1
  drained : 0 < p.shutdownWrites → p.conn.output = []

/-! ## The methods on a drained connection -/

section Methods

variable {s : ConnState}

theorem sendInLoop_of_epipe (hidle : s.isIdle = true) (data : List Byte) :
    s.sendInLoop data (.error .EPIPE) = s.emit (.write data (.error .EPIPE)) := by
  simp [ConnState.sendInLoop, hidle, IoResult.isFault]

theorem handleWrite_of_not_writing (hwriting : s.isWriting = false) (result : IoResult) :
    s.handleWrite result = s := by
  have hchannel : s.conn.channel.isWriting = false := hwriting
  simp [ConnState.handleWrite, hchannel]

/-- The buffer is drained by the write that the kernel takes as a whole. -/
theorem handleWrite_output_eq_nil {result : IoResult} (hfits : result.Fits s.output.length)
    (hwaiting : s.output ≠ []) (hdrained : (s.handleWrite result).output = []) :
    result = .bytes s.output.length := by
  unfold ConnState.handleWrite at hdrained
  cases result with
  | bytes n =>
      dsimp only at hdrained
      split_ifs at hdrained with hwriting hzero hempty
      · exact absurd hdrained hwaiting
      · have hlength : s.output.length - n = 0 := by simpa using hempty
        have hn : n ≤ s.output.length := hfits
        rw [show n = s.output.length by omega]
      · have hlength : ¬ s.output.length - n = 0 := by simpa using hempty
        refine absurd ?_ hlength
        simpa using congrArg List.length hdrained
      · exact absurd hdrained hwaiting
  | error errno =>
      dsimp only at hdrained
      split_ifs at hdrained <;> exact absurd hdrained hwaiting

end Methods

/-! ## Steps -/

section Steps

variable {files : ℕ → List Byte} {early : ℕ} {p q : System} {label : Label}

theorem Closing.isIdle (h : Closing files early p) (hclosed : 0 < p.shutdownWrites) :
    p.conn.isIdle = true := by
  have hempty := h.drained hclosed
  refine (p.conn.isIdle_iff).2 ⟨?_, hempty⟩
  exact Bool.eq_false_iff.2 fun hwriting => h.stream.writing.1 hwriting hempty

/-- A step that neither calls `shutdown` nor closes the write end. -/
theorem Closing.keep (h : Closing files early p) (hstream : SendPath.Stream files q.path)
    (hshutdown : q.shutdown = p.shutdown) (hstate : q.conn.conn.state = p.conn.conn.state)
    (hcount : q.shutdownWrites = p.shutdownWrites)
    (houtput : 0 < p.shutdownWrites → q.conn.output = []) : Closing files early q where
  stream := hstream
  notCalled := by
    rw [hshutdown, hstate, hcount]
    exact h.notCalled
  called := by
    rw [hshutdown, hstate]
    exact h.called
  queued := by
    rw [hshutdown, hcount]
    exact h.queued
  ran := hcount ▸ h.ran
  drained := hcount ▸ houtput

theorem Closing.sendInLoop (h : Closing files early p) {data : List Byte} {result : IoResult}
    (hstep : Step p (.sendInLoop data result) q) : Closing files early q := by
  obtain ⟨hanswers, hpath, hshutdown⟩ := hstep
  have hconn : q.conn = p.conn.sendInLoop data result := congrArg SendPath.System.conn hpath.2
  refine h.keep (SendPath.stream_step h.stream hpath) hshutdown ?_ ?_ fun hclosed => ?_
  · rw [hconn]
    exact (p.conn.traffic_sendInLoop data result).state_eq
  · rw [System.shutdownWrites, hconn]
    exact (p.conn.emits_sendInLoop data result).occurrences_eq id
  · rw [hconn, hanswers hclosed, sendInLoop_of_epipe (h.isIdle hclosed), ConnState.emit_output]
    exact h.drained hclosed

/-- How often the write end has been closed after `handleWrite`. -/
theorem Closing.shutdownWrites_handleWrite (h : Closing files early p) {result : IoResult}
    (hstep : Step p (.handleWrite result) q) : q.shutdownWrites = p.shutdownWrites +
      if p.conn.output ≠ [] ∧ q.conn.output = [] ∧ p.shutdown ≠ .notCalled then 1 else 0 := by
  obtain ⟨_, hpath, _⟩ := hstep
  have hconn : q.conn = p.conn.handleWrite result := congrArg SendPath.System.conn hpath.2
  have hwriting : p.conn.isWriting = true ↔ p.conn.output ≠ [] := h.stream.writing
  have hwriting' : (p.conn.handleWrite result).isWriting = false ↔
      (p.conn.handleWrite result).output = [] := by
    rw [← Bool.not_eq_true, SendPath.writing_handleWrite result hwriting, not_not]
  have hcalled : p.conn.conn.state = .kDisconnecting ↔ p.shutdown ≠ .notCalled := by
    refine ⟨fun hstate hnot => ?_, h.called⟩
    simp [(h.notCalled hnot).1] at hstate
  simp only [System.shutdownWrites, hconn, ConnState.occurrences_handleWrite, hwriting, hwriting',
    hcalled]

theorem Closing.handleWrite (h : Closing files early p) {result : IoResult}
    (hturn : InTurn p (.handleWrite result) ∨ 1 ≤ early)
    (hstep : Step p (.handleWrite result) q) : Closing files early q := by
  have hcount := h.shutdownWrites_handleWrite hstep
  obtain ⟨hanswers, hpath, hshutdown⟩ := hstep
  have hstream := SendPath.stream_step h.stream hpath
  have hconn : q.conn = p.conn.handleWrite result := congrArg SendPath.System.conn hpath.2
  have hstate : q.conn.conn.state = p.conn.conn.state := by
    rw [hconn]
    exact (p.conn.traffic_handleWrite result).state_eq
  by_cases hcloses : p.conn.output ≠ [] ∧ q.conn.output = [] ∧ p.shutdown ≠ .notCalled
  · obtain ⟨hwaiting, hempty, hcalled⟩ := hcloses
    -- nothing has closed the write end before, as bytes were waiting
    have hbefore : p.shutdownWrites = 0 := by
      by_contra hclosed
      exact hwaiting (h.drained (Nat.pos_of_ne_zero hclosed))
    have hafter : q.shutdownWrites = 1 := by
      rw [hcount, hbefore, if_pos ⟨hwaiting, hempty, hcalled⟩]
    refine ⟨hstream, fun hnot => absurd (hshutdown ▸ hnot) hcalled, fun _ => ?_, fun hqueued => ?_,
      by omega, fun _ => hempty⟩
    · rw [hstate]
      exact h.called hcalled
    · rw [hafter]
      refine hturn.resolve_left fun hin => ?_
      have hresult := handleWrite_output_eq_nil hpath.1 hwaiting (hconn ▸ hempty)
      exact (hin (hshutdown ▸ hqueued)).elim hwaiting fun hne => hne hresult
  · rw [if_neg hcloses] at hcount
    refine h.keep hstream hshutdown hstate hcount fun hclosed => ?_
    have hoff : p.conn.isWriting = false := ((p.conn.isIdle_iff).1 (h.isIdle hclosed)).1
    rw [hconn, handleWrite_of_not_writing hoff]
    exact h.drained hclosed

theorem Closing.handleRead (h : Closing files early p) {result : Buffer.ReadResult}
    (hstep : Step p (.handleRead result) q) : Closing files early q := by
  obtain ⟨hpath, hshutdown⟩ := hstep
  have hconn : q.conn = p.conn.handleRead result := congrArg SendPath.System.conn hpath.2
  obtain ⟨houtput, _, _⟩ := p.conn.handleRead_sendPath files hpath.1
  refine h.keep (SendPath.stream_step h.stream hpath) hshutdown ?_ ?_ fun hclosed => ?_
  · rw [hconn]
    exact (p.conn.traffic_handleRead hpath.1).state_eq
  · rw [System.shutdownWrites, hconn]
    exact (p.conn.emits_handleRead hpath.1).occurrences_eq (by simp)
  · rw [hconn, houtput]
    exact h.drained hclosed

/-- `shutdownInLoop` closes the write end when nothing waits. -/
theorem closing_shutdownInLoop {path : SendPath.System}
    (hstream : SendPath.Stream files path) (hstate : path.conn.conn.state = .kDisconnecting)
    (hcount : path.conn.occurrences .shutdownWrite ≤ early)
    (hdrained : 0 < path.conn.occurrences .shutdownWrite → path.conn.output = []) :
    Closing files early { path := { path with conn := path.conn.shutdownInLoop }, shutdown := .ran }
    where
  stream := SendPath.stream_step hstream (show SendPath.Step path .shutdownInLoop _ from rfl)
  notCalled := by simp
  called := fun _ => by simpa [System.conn] using hstate
  queued := by simp
  ran := by
    rw [System.shutdownWrites, System.conn, ConnState.occurrences_shutdownInLoop]
    split_ifs <;> omega
  drained := by
    intro hclosed
    rw [System.shutdownWrites, System.conn, ConnState.occurrences_shutdownInLoop] at hclosed
    rw [System.conn, ConnState.shutdownInLoop_output]
    split_ifs at hclosed with hwriting
    · exact hdrained (by omega)
    · by_contra hwaiting
      exact hwriting (hstream.writing.2 hwaiting)

theorem Closing.shutdownInLoop (h : Closing files early p)
    (hstep : Step p .shutdownInLoop q) : Closing files early q := by
  obtain ⟨hqueued, rfl⟩ := hstep
  exact closing_shutdownInLoop h.stream (h.called (by simp [hqueued])) (h.queued hqueued) h.drained

/-- While the connection is `kConnected`, its write end is open. -/
theorem Closing.shutdownWrites_eq_zero (h : Closing files early p)
    (hconnected : p.conn.conn.state = .kConnected) : p.shutdownWrites = 0 := by
  by_cases hnot : p.shutdown = .notCalled
  · exact (h.notCalled hnot).2
  · simp [h.called hnot] at hconnected

theorem Closing.shutdown (h : Closing files early p) (hstep : Step p .shutdown q) :
    Closing files early q := by
  obtain rfl := hstep
  split_ifs with hconnected
  · have hnone := h.shutdownWrites_eq_zero hconnected
    have hstored := SendPath.stream_step h.stream (show SendPath.Step p.path .shutdown _ from rfl)
    have hcount : (p.conn.setState .kDisconnecting).occurrences .shutdownWrite = 0 := hnone
    rw [ConnState.shutdown, if_pos hconnected]
    exact closing_shutdownInLoop hstored rfl (hcount.trans_le early.zero_le) fun hclosed =>
      absurd hcount (Nat.ne_of_gt hclosed)
  · exact h

theorem Closing.shutdownFrom (h : Closing files early p) (hstep : Step p .shutdownFrom q) :
    Closing files early q := by
  obtain rfl := hstep
  split_ifs with hconnected
  · have hnone := h.shutdownWrites_eq_zero hconnected
    have hcount : (p.conn.setState .kDisconnecting).occurrences .shutdownWrite = 0 := hnone
    have hstored := SendPath.stream_step h.stream (show SendPath.Step p.path .shutdown _ from rfl)
    exact ⟨hstored, by simp, fun _ => rfl, fun _ => hcount.trans_le early.zero_le,
      hcount.trans_le (Nat.zero_le _), h.drained⟩
  · exact h

theorem closing_step (h : Closing files early p) (hstep : Step p label q)
    (hturn : InTurn p label ∨ 1 ≤ early) : Closing files early q := by
  cases label with
  | sendInLoop data result => exact h.sendInLoop hstep
  | handleWrite result => exact h.handleWrite hturn hstep
  | handleRead result => exact h.handleRead hstep
  | shutdown => exact h.shutdown hstep
  | shutdownFrom => exact h.shutdownFrom hstep
  | shutdownInLoop => exact h.shutdownInLoop hstep

end Steps

theorem start_closing {s : ConnState} (hfresh : s.Fresh) (files : ℕ → List Byte) (early : ℕ) :
    Closing files early (start s) := by
  have hnone : (start s).shutdownWrites = 0 := by
    simp [System.shutdownWrites, System.conn, start, ConnState.occurrences,
      ConnState.connectEstablished, ConnState.enableReading, ConnState.tie, hfresh.effects_eq]
  exact ⟨SendPath.initial_stream hfresh, fun _ => ⟨rfl, hnone⟩, fun hcalled => absurd rfl hcalled,
    fun _ => hnone.trans_le early.zero_le, hnone.trans_le (Nat.zero_le _), by omega⟩

/-- The write end is closed at most twice, and at most once when `handleWrite` does not
drain the buffer while `shutdownInLoop` waits.  It is closed only after `shutdown` was
called and when the kernel has accepted every payload that was not dropped.  After the
call the step that drains the buffer closes it. -/
theorem half_close (files : ℕ → List Byte) (s : ConnState) (hfresh : s.Fresh)
    (labels : List Label) (p : System) (hrun : Run Step (start s) labels p) :
    p.shutdownWrites ≤ 2 ∧
      (Run (restrict Step InTurn) (start s) labels p → p.shutdownWrites ≤ 1) ∧
      (0 < p.shutdownWrites → p.shutdown ≠ .notCalled) ∧
      (∀ label q, Step p label q → p.shutdownWrites < q.shutdownWrites →
        acceptedBytes files q.conn.effects = q.path.payloads.flatten) ∧
      ∀ result q, Step p (.handleWrite result) q → p.shutdown ≠ .notCalled →
        p.conn.output ≠ [] → q.conn.output = [] → q.shutdownWrites = p.shutdownWrites + 1 := by
  have h : Closing files 1 p := hrun.invariant (start_closing hfresh files 1)
    fun _ _ _ ha hstep => closing_step ha hstep (.inr le_rfl)
  refine ⟨h.ran, fun hturn => ?_, fun hclosed hnot => ?_, fun label q hstep hcloses => ?_,
    fun result q hstep hcalled hwaiting hempty => ?_⟩
  · have hin : Closing files 0 p := hturn.invariant (start_closing hfresh files 0)
      fun _ _ _ ha hstep => closing_step ha hstep.1 (.inl hstep.2)
    exact hin.ran
  · exact absurd (h.notCalled hnot).2 (Nat.ne_of_gt hclosed)
  · have hq : Closing files 1 q := closing_step h hstep (.inr le_rfl)
    have hbytes : acceptedBytes files q.conn.effects ++ q.conn.output = q.path.payloads.flatten :=
      hq.stream.bytes
    rwa [hq.drained (Nat.zero_lt_of_lt hcloses), List.append_nil] at hbytes
  · rw [h.shutdownWrites_handleWrite hstep, if_pos ⟨hwaiting, hempty, hcalled⟩]

/-! ## A payload that waits when `shutdown` is called -/

/-- The kernel takes nothing of a payload of one byte. -/
def waiting : System := ⟨⟨SendPath.fresh.connectEstablished.sendInLoop [7] (.bytes 0), [[7]]⟩,
  .notCalled⟩

theorem step_waiting : Step (start SendPath.fresh) (.sendInLoop [7] (.bytes 0)) waiting :=
  ⟨by simp [Answers, System.conn, start, ConnState.occurrences, ConnState.connectEstablished,
    ConnState.enableReading, ConnState.tie, SendPath.fresh],
    ⟨Nat.zero_le 1, by simp [waiting, start, SendPath.drops, IoResult.isFault]⟩, rfl⟩

/-- `shutdown` on the loop thread leaves the closing to `handleWrite`. -/
theorem half_close_drained :
    let asked : System := ⟨⟨waiting.conn.shutdown, [[7]]⟩, .ran⟩
    (⟨⟨asked.conn.handleWrite (.bytes 1), [[7]]⟩, .ran⟩ : System).shutdownWrites =
      asked.shutdownWrites + 1 := by
  intro asked
  have hasked : Step waiting .shutdown asked := rfl
  have hfits : 1 ≤ asked.conn.output.length := by decide +kernel
  have hdrained : Step asked (.handleWrite (.bytes 1))
      ⟨⟨asked.conn.handleWrite (.bytes 1), [[7]]⟩, .ran⟩ :=
    ⟨fun hclosed => absurd hclosed (by decide +kernel), ⟨hfits, rfl⟩, rfl⟩
  exact (half_close (fun _ => []) SendPath.fresh SendPath.fresh_fresh _ asked
    ((Run.single step_waiting).snoc hasked)).2.2.2.2 (.bytes 1) _ hdrained (by simp [asked])
      (by decide +kernel) (by decide +kernel)

/-- Another thread calls `shutdown`.  `handleWrite` drains the buffer before the functor
runs, and both close the write end. -/
theorem closed_twice :
    ¬ ∀ (s : ConnState) (labels : List Label) (p : System), s.Fresh →
      Run Step (start s) labels p → p.shutdownWrites ≤ 1 := by
  intro hclaim
  let asked : System := ⟨⟨waiting.conn.setState .kDisconnecting, [[7]]⟩, .queued⟩
  let drained : System := ⟨⟨asked.conn.handleWrite (.bytes 1), [[7]]⟩, .queued⟩
  let closed : System := ⟨⟨drained.conn.shutdownInLoop, [[7]]⟩, .ran⟩
  have hasked : Step waiting .shutdownFrom asked := rfl
  have hfits : 1 ≤ asked.conn.output.length := by decide +kernel
  have hdrained : Step asked (.handleWrite (.bytes 1)) drained :=
    ⟨fun hclosed => absurd hclosed (by decide +kernel), ⟨hfits, rfl⟩, rfl⟩
  have hclosed : Step drained .shutdownInLoop closed := ⟨rfl, rfl⟩
  have honce : closed.shutdownWrites ≤ 1 := hclaim SendPath.fresh _ _ SendPath.fresh_fresh
    ((((Run.single step_waiting).snoc hasked).snoc hdrained).snoc hclosed)
  exact absurd honce (by decide +kernel)

end HalfClose

end MuduoLite
