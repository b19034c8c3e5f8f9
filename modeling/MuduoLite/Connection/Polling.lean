import MuduoLite.Connection.PeerClose

/-!
# Polling a session

What the loop makes of a session, from one poll to the next.  When the peer has closed its
end, every event has a read, and a read takes bytes from the socket or closes the connection;
so `untilRead`, after the bytes in the socket, measures how far off the end is.

Before that, the events of a session are the work that there is: a socket that can be written
to is not reported unless bytes wait to be written, although the poller is level-triggered.
-/

namespace MuduoLite

open Transition

namespace Session.Polled

variable {σ : Type*}

/-! ## Coming to the end -/

/-- A step of the loop, other than a read that fails. -/
def Label.Moves : Label → Prop
  | .arrive _ => False
  | .finish => False
  | .handleReadError _ => False
  | _ => True

def Moves (handler : Handler σ) (p q : Polled σ) : Prop :=
  ∃ label : Label, Step handler p label q ∧ label.Moves

/-- How far the loop is from its next read: the callbacks before it, or those that are left of
the event and the poll. -/
def untilRead (todo : List Channel.Callback) : ℕ :=
  if .readCallback ∈ todo then todo.length else todo.length + 5

section Progress

variable {handler : Handler σ} {files : ℕ → List Byte} {user : σ} {pieces : List (List Byte)}
  {p q : Polled σ} {label : Label}

theorem untilRead_tail {callback : Channel.Callback} {rest : List Channel.Callback}
    (hother : callback ≠ .readCallback) : untilRead rest < untilRead (callback :: rest) := by
  have hmem : .readCallback ∈ callback :: rest ↔ .readCallback ∈ rest := by
    simp [hother.symm]
  unfold untilRead
  simp only [hmem, List.length_cons]
  split_ifs <;> omega

theorem MayReport.untilRead_lt {ready events : EventMask} (h : p.MayReport ready)
    (hreading : events &&& EPOLLIN ≠ 0) (hfinished : p.finished = true) :
    untilRead (Channel.handleEventWithGuard (reported ready events)) < untilRead [] := by
  have hle := Channel.length_handleEventWithGuard_le (reported ready events)
  rw [untilRead, if_pos (h.read hreading hfinished)]
  exact Nat.lt_succ_of_le hle

/-- After the close the loop can only go on with its event. -/
theorem Ended.todo_eq (h : Ended handler files user pieces p) (hstep : Step handler p label q)
    (hmoves : label.Moves) : ∃ callback, p.todo = callback :: q.todo := by
  cases label with
  | arrive data => exact hmoves.elim
  | finish => exact hmoves.elim
  | poll ready =>
      obtain ⟨-, -, entry, hentry, -⟩ := hstep
      exact absurd (h.interest_eq.symm.trans hentry) (by simp)
  | handleRead n results =>
      obtain ⟨rest, htodo, -, -, -, -, rfl⟩ := hstep
      exact ⟨_, htodo⟩
  | handleReadEnd =>
      obtain ⟨rest, htodo, -, -, rfl⟩ := hstep
      exact ⟨_, htodo⟩
  | handleReadError errno => exact hmoves.elim
  | handleWrite result =>
      obtain ⟨rest, htodo, -, rfl⟩ := hstep
      exact ⟨_, htodo⟩
  | handleClose =>
      obtain ⟨rest, htodo, rfl⟩ := hstep
      exact ⟨_, htodo⟩
  | handleError =>
      obtain ⟨rest, htodo, rfl⟩ := hstep
      exact ⟨_, htodo⟩

theorem Ended.accessible (h : Ended handler files user pieces p) :
    Acc (fun q p => Moves handler p q) p := by
  induction htodo : p.todo generalizing p with
  | nil =>
      refine ⟨p, fun q ⟨label, hstep, hmoves⟩ => ?_⟩
      obtain ⟨callback, hcallback⟩ := h.todo_eq hstep hmoves
      exact absurd (htodo.symm.trans hcallback) (by simp)
  | cons callback rest ih =>
      refine ⟨p, fun q ⟨label, hstep, hmoves⟩ => ?_⟩
      obtain ⟨other, hother⟩ := h.todo_eq hstep hmoves
      exact ih (h.step hstep).1 (List.cons.inj (hother.symm.trans htodo)).2

/-- A step of an open connection whose peer has closed its end takes bytes from the socket, or
it brings the next read nearer, or it closes the connection. -/
theorem Goes.nearer (h : Goes handler files user pieces p) (hfinished : p.finished = true)
    (hstep : Step handler p label q) (hmoves : label.Moves) : q.finished = true ∧
      (Closed q ∨ Prod.Lex (· < ·) (· < ·) (q.session.socket.length, untilRead q.todo)
        (p.session.socket.length, untilRead p.todo)) := by
  cases label with
  | arrive data => exact hmoves.elim
  | finish => exact hmoves.elim
  -- nothing was left to do, and the end of the stream makes the poll bring a read
  | poll ready =>
      obtain ⟨hidle, hready, entry, hentry, rfl⟩ := hstep
      obtain rfl := Option.some.inj (h.interest_eq.symm.trans hentry)
      refine ⟨hfinished, .inr (Prod.Lex.right _ ?_)⟩
      rw [hidle]
      exact hready.untilRead_lt h.serves.matched.delivers.reading hfinished
  -- some bytes leave the socket
  | handleRead n results =>
      obtain ⟨rest, htodo, hpos, hle, -, -, rfl⟩ := hstep
      refine ⟨hfinished, .inr (Prod.Lex.left _ _ ?_)⟩
      simp only [System.handleRead, List.length_drop]
      omega
  | handleReadEnd =>
      obtain ⟨rest, -, -, -, rfl⟩ := hstep
      exact ⟨hfinished, .inl rfl⟩
  | handleReadError errno => exact hmoves.elim
  | handleWrite result =>
      obtain ⟨rest, htodo, -, rfl⟩ := hstep
      refine ⟨hfinished, .inr (Prod.Lex.right _ ?_)⟩
      rw [htodo]
      exact untilRead_tail (by simp)
  | handleClose =>
      obtain ⟨rest, -, rfl⟩ := hstep
      exact ⟨hfinished, .inl rfl⟩
  | handleError =>
      obtain ⟨rest, htodo, rfl⟩ := hstep
      refine ⟨hfinished, .inr (Prod.Lex.right _ ?_)⟩
      rw [htodo]
      exact untilRead_tail (by simp)

theorem Goes.accessible (h : Goes handler files user pieces p) (hfinished : p.finished = true) :
    Acc (fun q p => Moves handler p q) p := by
  have hlex : WellFounded (Prod.Lex (· < ·) (· < · : ℕ → ℕ → Prop)) :=
    WellFounded.prod_lex Nat.lt_wfRel.wf Nat.lt_wfRel.wf
  have hmeasure :=
    InvImage.wf (fun p : Polled σ => (p.session.socket.length, untilRead p.todo)) hlex
  induction p using hmeasure.induction generalizing pieces with
  | _ p ih =>
      refine ⟨p, fun q ⟨label, hstep, hmoves⟩ => ?_⟩
      obtain ⟨hq, hnearer⟩ := h.nearer hfinished hstep hmoves
      rcases h.step hstep with ⟨more, hgoes⟩ | hended
      · exact ih q (hnearer.resolve_left hgoes.not_closed) hgoes hq
      · exact hended.accessible

theorem moves_finished_eq (hstep : Step handler p label q) (hmoves : label.Moves) :
    q.finished = p.finished := by
  cases label with
  | arrive data => exact hmoves.elim
  | finish => exact hmoves.elim
  | poll ready =>
      obtain ⟨-, -, entry, -, rfl⟩ := hstep
      rfl
  | handleRead n results =>
      obtain ⟨rest, -, -, -, -, -, rfl⟩ := hstep
      rfl
  | handleReadEnd =>
      obtain ⟨rest, -, -, -, rfl⟩ := hstep
      rfl
  | handleReadError errno => exact hmoves.elim
  | handleWrite result =>
      obtain ⟨rest, -, -, rfl⟩ := hstep
      rfl
  | handleClose =>
      obtain ⟨rest, -, rfl⟩ := hstep
      rfl
  | handleError =>
      obtain ⟨rest, -, rfl⟩ := hstep
      rfl

/-- The loop can go on until the connection is closed. -/
theorem Goes.moves (h : Goes handler files user pieces p) (hfinished : p.finished = true) :
    ∃ q, Moves handler p q := by
  cases htodo : p.todo with
  | nil => exact ⟨_, .poll EPOLLIN, h.poll htodo (.inr hfinished), trivial⟩
  | cons callback rest =>
      cases callback with
      | closeCallback => exact ⟨_, .handleClose, ⟨rest, htodo, rfl⟩, trivial⟩
      | errorCallback => exact ⟨_, .handleError, ⟨rest, htodo, rfl⟩, trivial⟩
      | writeCallback =>
          exact ⟨_, .handleWrite (.bytes 0), ⟨rest, htodo, Nat.zero_le _, rfl⟩, trivial⟩
      | readCallback =>
          by_cases hsocket : p.session.socket = []
          · exact ⟨_, .handleReadEnd, ⟨rest, htodo, hsocket, hfinished, rfl⟩, trivial⟩
          · exact ⟨_, .handleRead 1 _, ⟨rest, htodo, Nat.one_pos, List.length_pos_iff.2 hsocket,
              Buffer.le_iovecBytes (by decide), forall₂_answered _, rfl⟩, trivial⟩

end Progress

/-- When the peer has closed its end, the loop comes to the end of the session too: its polls
and callbacks cannot go on for ever, and they only stop when the connection is closed. -/
theorem session_closes (handler : Handler σ) (files : ℕ → List Byte) (user : σ) (s : ConnState)
    (hfresh : s.Fresh) (hinput : s.input = []) (labels : List Label) (p : Polled σ)
    (hrun : Run (Step handler) (start s user) labels p) (hfinished : p.finished = true) :
    Acc (fun q p => Moves handler p q) p ∧ ((∀ q, ¬ Moves handler p q) → Closed p) := by
  obtain ⟨pieces, hgoes | hended⟩ := run_goes files hfresh hinput hrun
  · refine ⟨hgoes.accessible hfinished, fun hstuck => ?_⟩
    obtain ⟨q, hq⟩ := hgoes.moves hfinished
    exact absurd hq (hstuck q)
  · exact ⟨hended.accessible, fun _ => hended.closed_state⟩

/-- However the loop goes on with the echo server, it closes the connection. -/
theorem session_closes_echo : ∃ labels p, Run (Step echo) (start SendPath.fresh ()) labels p ∧
    (∀ q, ¬ Moves echo p q) ∧ Closed p := by
  have hmoving := (session_closes echo (fun _ => []) () SendPath.fresh SendPath.fresh_fresh rfl
    _ _ run_answered rfl).1
  obtain ⟨labels, p, hrun, hstuck⟩ := Run.exists_stuck hmoving
  have hfinished : p.finished = true := hrun.invariant (P := fun p => p.finished = true) rfl
    fun _ _ _ h hstep => (moves_finished_eq hstep.1 hstep.2).trans h
  have hwhole := run_answered.append (hrun.mono fun _ _ _ hstep => hstep.1)
  exact ⟨_, p, hwhole, hstuck, (session_closes echo (fun _ => []) () SendPath.fresh
    SendPath.fresh_fresh rfl _ p hwhole hfinished).2 hstuck⟩

/-! ## Polling -/

/-- What there is to do: to read bytes or the end of the stream, and to write bytes. -/
def work (p : Polled σ) : List Channel.Callback :=
  (if p.session.socket ≠ [] ∨ p.finished = true then [.readCallback] else []) ++
    if p.session.conn.output ≠ [] then [.writeCallback] else []

section Polling

variable {handler : Handler σ} {files : ℕ → List Byte} {user : σ} {pieces : List (List Byte)}
  {p : Polled σ} {ready : EventMask}

theorem handleEventWithGuard_eq_work (h : Goes handler files user pieces p)
    (hready : p.MayReport ready) (hwritable : ready &&& EPOLLOUT ≠ 0)
    (herror : ready &&& EPOLLERR = 0) (hurgent : ready &&& EPOLLPRI = 0) :
    Channel.handleEventWithGuard (reported ready p.session.conn.conn.channel.events) =
      p.work := by
  have hdelivers := h.serves.matched.delivers
  have hin := reported_and_EPOLLIN ready hdelivers.reading
  have hout := reported_and_EPOLLOUT p.session.conn.conn.channel.events hwritable
  set revents := reported ready p.session.conn.conn.channel.events with hrevents
  have hnone {bit : EventMask} (hbit : ready &&& bit = 0) : revents &&& bit = 0 := by
    by_contra hreported
    exact ready_of_reported hreported hbit
  have hclose : ¬ (revents &&& EPOLLHUP ≠ 0 ∧ revents &&& EPOLLIN = 0) := by
    rw [← Channel.closeCallback_mem_iff]
    exact hready.no_close hdelivers.reading
  have hread : revents &&& (EPOLLIN ||| EPOLLPRI) ≠ 0 ↔
      p.session.socket ≠ [] ∨ p.finished = true := by
    rw [BitVec.and_or_distrib_left, hnone hurgent, hin, ← hready.1]
    exact not_congr (Eq.congr_left BitVec.or_zero)
  have hwrite : revents &&& EPOLLOUT ≠ 0 ↔ p.session.conn.output ≠ [] := by
    rw [hout, ← hdelivers.writing]
    exact decide_eq_true_iff.symm
  unfold Channel.handleEventWithGuard work
  rw [if_neg hclose, if_neg (not_not.2 (hnone herror))]
  simp only [hread, hwrite, List.nil_append]

end Polling

/-- Between two events, a poll of an open connection whose socket is writable, without an error
and without urgent data, leads to exactly the callbacks that there is work for.  So the loop
overlooks nothing, and it does not poll in vain for ever: where there is nothing to read and
nothing to write, nothing is reported.  A closed connection is not polled. -/
theorem session_polls (handler : Handler σ) (files : ℕ → List Byte) (user : σ) (s : ConnState)
    (hfresh : s.Fresh) (hinput : s.input = []) (labels : List Label) (p : Polled σ)
    (hrun : Run (Step handler) (start s user) labels p) (hidle : p.todo = []) (ready : EventMask)
    (hready : p.MayReport ready) (hwritable : ready &&& EPOLLOUT ≠ 0)
    (herror : ready &&& EPOLLERR = 0) (hurgent : ready &&& EPOLLPRI = 0) :
    (¬ Closed p → ∀ q, Step handler p (.poll ready) q ↔ q = { p with todo := p.work }) ∧
      (Closed p → ∀ q, ¬ Step handler p (.poll ready) q) := by
  obtain ⟨pieces, hgoes | hended⟩ := run_goes files hfresh hinput hrun
  · refine ⟨fun _ q => ?_, fun hclosed => absurd hclosed hgoes.not_closed⟩
    rw [← handleEventWithGuard_eq_work hgoes hready hwritable herror hurgent]
    constructor
    · rintro ⟨-, -, entry, hentry, rfl⟩
      obtain rfl := Option.some.inj (hgoes.interest_eq.symm.trans hentry)
      rfl
    · rintro rfl
      exact ⟨hidle, hready, _, hgoes.interest_eq, rfl⟩
  · refine ⟨fun hopen => absurd hended.closed_state hopen, fun _ q => ?_⟩
    rintro ⟨-, -, entry, hentry, -⟩
    exact absurd (hended.interest_eq.symm.trans hentry) (by simp)

/-- The byte that the echo server still has to send makes its socket be polled for writing. -/
theorem session_polls_echo :
    Step echo answered (.poll (EPOLLIN ||| EPOLLOUT)) { answered with todo := answered.work } := by
  have hready : answered.MayReport (EPOLLIN ||| EPOLLOUT) :=
    ⟨⟨fun _ => .inr rfl, fun _ => by decide⟩, fun _ => rfl⟩
  exact ((session_polls echo (fun _ => []) () SendPath.fresh SendPath.fresh_fresh rfl _ _
    run_answered rfl _ hready (by decide) (by decide) (by decide)).1 not_closed_answered _).2 rfl

end Session.Polled

end MuduoLite
