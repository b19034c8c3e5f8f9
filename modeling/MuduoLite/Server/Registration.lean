import MuduoLite.Server.Methods
import MuduoLite.Server.Ownership

/-!
# The connections in the pollers

The fds of living connections are distinct, since a connection's fd is open until
its destructor closes it.  So a method of one connection, which touches the poller
at its own fd only, leaves the others registered as they were, and what a poller
has at an fd belongs to the living connection with that fd on that loop
(`Registered`).

The one step that could break this is `destroy`: it closes an fd whatever the
poller says there.  It does not when the channel has been removed before, which is
what `Lifecycle` proves.
-/

namespace MuduoLite

namespace Server

open ConnState EPollPoller State

structure Registered (s : State) : Prop where
  mirrors : ∀ c k, s.conns c = some k → k.alive = true →
    Mirrors (s.io k.loop).poller c k.tcp.channel
  distinct : ∀ c d k e, s.conns c = some k → s.conns d = some e → k.alive = true →
    e.alive = true → k.tcp.channel.fd = e.tcp.channel.fd → c = d
  known : ∀ loop fd,
    (s.io loop).poller.channels fd ≠ none ∨ (s.io loop).poller.interest fd ≠ none →
      ∃ c k, s.conns c = some k ∧ k.alive = true ∧ k.loop = loop ∧ k.tcp.channel.fd = fd

namespace Registered

variable {server : TcpServer} {s t : State}

theorem initial : Registered {} where
  mirrors := fun _ _ h => nomatch h
  distinct := fun _ _ _ _ h => nomatch h
  known := fun _ _ h => absurd h (by simp)

theorem congr (h : Registered s) (hconns : t.conns = s.conns)
    (hpoller : ∀ loop, (t.io loop).poller = (s.io loop).poller) : Registered t where
  mirrors := fun c k hk halive => by
    rw [hpoller]
    exact h.mirrors c k (hconns ▸ hk) halive
  distinct := fun c d k e hk he => h.distinct c d k e (hconns ▸ hk) (hconns ▸ he)
  known := fun loop fd hknown => by
    rw [hpoller] at hknown
    rw [hconns]
    exact h.known loop fd hknown

/-- A loop changes and leaves its poller alone. -/
theorem setLoop (h : Registered s) {loop : ℕ} {l : IoLoop}
    (hpoller : l.poller = (s.io loop).poller) : Registered (s.setLoop loop l) := by
  refine h.congr rfl fun other => ?_
  by_cases hother : other = loop
  · subst hother
    simpa using hpoller
  · rw [setLoop_io_of_ne _ _ _ _ hother]

/-- Connection `c` and the poller of its loop change, the poller at the fd of `c` only. -/
theorem of_agreesOff (h : Registered s) {c : ℕ} {k k' : Conn} (hconn : s.conns c = some k)
    (halive : k.alive = true) (hconns : ∀ d, d ≠ c → t.conns d = s.conns d)
    (hself : t.conns c = some k') (hloop : k'.loop = k.loop)
    (hfd : k'.tcp.channel.fd = k.tcp.channel.fd)
    (hpollers : ∀ loop, loop ≠ k.loop → (t.io loop).poller = (s.io loop).poller)
    (hagrees : AgreesOff (s.io k.loop).poller (t.io k.loop).poller k.tcp.channel.fd)
    (hmirrors : k'.alive = true → Mirrors (t.io k.loop).poller c k'.tcp.channel)
    (hclosed : k'.alive = false → (t.io k.loop).poller.channels k.tcp.channel.fd = none ∧
      (t.io k.loop).poller.interest k.tcp.channel.fd = none) : Registered t where
  mirrors := by
    intro d e he healive
    by_cases hd : d = c
    · subst hd
      rw [hself, Option.some.injEq] at he
      subst he
      rw [hloop]
      exact hmirrors healive
    -- another living connection has another fd, where nothing changed
    · rw [hconns d hd] at he
      have hne : e.tcp.channel.fd ≠ k.tcp.channel.fd := fun heq =>
        hd (h.distinct d c e k he hconn healive halive heq)
      by_cases heloop : e.loop = k.loop
      · rw [heloop]
        exact hagrees.mirrors hne (heloop ▸ h.mirrors d e he healive)
      · rw [hpollers _ heloop]
        exact h.mirrors d e he healive
  distinct := by
    have hback : ∀ d e, t.conns d = some e → e.alive = true →
        ∃ e', s.conns d = some e' ∧ e'.alive = true ∧ e'.tcp.channel.fd = e.tcp.channel.fd := by
      intro d e he healive
      by_cases hd : d = c
      · subst hd
        rw [hself, Option.some.injEq] at he
        subst he
        exact ⟨k, hconn, halive, hfd.symm⟩
      · exact ⟨e, hconns d hd ▸ he, healive, rfl⟩
    intro c₁ c₂ e₁ e₂ he₁ he₂ halive₁ halive₂ heq
    obtain ⟨f₁, hf₁, hfalive₁, hfd₁⟩ := hback c₁ e₁ he₁ halive₁
    obtain ⟨f₂, hf₂, hfalive₂, hfd₂⟩ := hback c₂ e₂ he₂ halive₂
    exact h.distinct c₁ c₂ f₁ f₂ hf₁ hf₂ hfalive₁ hfalive₂ (by rw [hfd₁, hfd₂, heq])
  known := by
    intro loop fd hknown
    by_cases hat : loop = k.loop ∧ fd = k.tcp.channel.fd
    -- at the fd of `c` the poller says what `c` says, and nothing once `c` is closed
    · obtain ⟨rfl, rfl⟩ := hat
      cases hk' : k'.alive with
      | true => exact ⟨c, k', hself, hk', hloop, hfd⟩
      | false => exact absurd hknown (by simp [hclosed hk'])
    · have hold : (s.io loop).poller.channels fd ≠ none ∨
          (s.io loop).poller.interest fd ≠ none := by
        by_cases hl : loop = k.loop
        · subst hl
          have hne : fd ≠ k.tcp.channel.fd := fun heq => hat ⟨rfl, heq⟩
          rwa [hagrees.channels_eq fd hne, hagrees.interest_eq fd hne] at hknown
        · rwa [hpollers loop hl] at hknown
      obtain ⟨d, e, he, healive, heloop, hefd⟩ := h.known loop fd hold
      by_cases hd : d = c
      · subst hd
        rw [hconn, Option.some.injEq] at he
        subst he
        exact absurd ⟨heloop.symm, hefd.symm⟩ hat
      · exact ⟨d, e, by rw [hconns d hd, he], healive, heloop, hefd⟩

/-- A method of a connection, run on its loop. -/
theorem onConn (h : Registered s) {c : ℕ} {k k' : Conn} (hconn : s.conns c = some k)
    (halive : k.alive = true) (htcp : k'.tcp = k.tcp) (hloop : k'.loop = k.loop)
    (halive' : k'.alive = k.alive) {method : ConnState → ConnState}
    (hlocal : ∀ start, Local start (method start)) :
    Registered (s.onConn c k' method) := by
  have hl := hlocal (s.connState c k')
  have hmirrors : Mirrors (s.connState c k').poller (s.connState c k').self
      (s.connState c k').conn.channel := by
    simpa only [connState, htcp, hloop] using h.mirrors c k hconn halive
  have hmirrors' := hl.mirrors hmirrors
  rw [show (method (s.connState c k')).self = c from hl.self_eq] at hmirrors'
  refine h.of_agreesOff hconn halive (fun d hd => onConn_conns_of_ne _ _ _ _ _ hd)
    (onConn_conns_self _ _ _ _) hloop ?_ ?_ ?_ ?_ ?_
  · rw [← htcp]
    exact hl.fd_eq
  · intro loop hne
    rw [onConn_io_of_ne _ _ _ _ _ (hloop ▸ hne)]
  · rw [← hloop, onConn_io_self, ← htcp]
    exact hl.agreesOff hmirrors
  · intro _
    rw [← hloop, onConn_io_self]
    exact hmirrors'
  · exact fun hdead => absurd (halive'.trans halive) (by simp [show k'.alive = false from hdead])

/-- The fd of a new connection is not open otherwise, so no poller knows it. -/
theorem newConnection (h : Registered s) (hwf : WellFormed server s) (loop : ℕ) {fd : ℕ}
    (hfd : ∀ c k, s.conns c = some k → k.alive = true → k.tcp.channel.fd ≠ fd) :
    Registered (s.newConnection server loop fd) := by
  have hunknown : (s.io loop).poller.channels fd = none ∧
      (s.io loop).poller.interest fd = none := by
    by_contra hknown
    rw [not_and_or] at hknown
    obtain ⟨c, k, hk, halive, -, heq⟩ := h.known loop fd hknown
    exact hfd c k hk halive heq
  have hpoller : ∀ other,
      ((s.newConnection server loop fd).io other).poller = (s.io other).poller := by
    intro other
    obtain ⟨functors, hio⟩ := newConnection_io_eq s server loop fd other
    rw [hio]
  refine ⟨?_, ?_, ?_⟩
  · intro c k hk halive
    rw [hpoller]
    rcases newConnection_conns_eq_some _ _ _ _ _ hk with ⟨rfl, rfl⟩ | ⟨-, hold⟩
    · exact ⟨hunknown.1, hunknown.2⟩
    · exact h.mirrors c k hold halive
  · intro c d k e hk he hkalive healive heq
    rcases newConnection_conns_eq_some _ _ _ _ _ hk with ⟨rfl, rfl⟩ | ⟨-, hkold⟩ <;>
      rcases newConnection_conns_eq_some _ _ _ _ _ he with ⟨rfl, rfl⟩ | ⟨-, heold⟩
    · rfl
    · exact absurd heq.symm (hfd d e heold healive)
    · exact absurd heq (hfd c k hkold hkalive)
    · exact h.distinct c d k e hkold heold hkalive healive heq
  · intro other otherFd hknown
    rw [hpoller] at hknown
    obtain ⟨c, k, hk, hrest⟩ := h.known other otherFd hknown
    exact ⟨c, k, by rw [newConnection_conns_of_ne _ _ _ _ _ (hwf.ne_nextConnId hk), hk], hrest⟩

/-- The destructor of a connection that its poller does not know. -/
theorem destroy (h : Registered s) {c : ℕ} {k : Conn} (hconn : s.conns c = some k)
    (halive : k.alive = true) (hindex : k.tcp.channel.index = .kNew) :
    Registered ((s.setConn c { k with alive := false }).setPoller k.loop
      (closeFd (s.io k.loop).poller k.tcp.channel.fd)) := by
  have hmirrors := h.mirrors c k hconn halive
  refine h.of_agreesOff hconn halive (fun d hd => setConn_conns_of_ne _ _ _ _ hd)
    (setConn_conns_self _ _ _) rfl rfl ?_ ?_ ?_ ?_
  · intro loop hne
    rw [setPoller, setLoop_io_of_ne _ _ _ _ hne, setConn_io]
  · rw [setPoller, setLoop_io_self]
    refine ⟨fun _ _ => rfl, fun other hother => ?_, rfl⟩
    exact Function.update_of_ne hother _ _
  · exact fun hdead => absurd hdead (by simp)
  · intro _
    rw [setPoller, setLoop_io_self]
    exact ⟨by simpa [hindex, closeFd] using hmirrors.channels_eq, Function.update_self _ _ _⟩

end Registered

end Server

end MuduoLite
