import MuduoLite.Server.Acceptor
import MuduoLite.Server.Lifecycle

/-!
# A server that has nothing to do

Once no functor waits, no event is handled and the user has dropped its pointers, all that
owns connections is the map.  A connection in it is open: one that has closed has queued its
removal, which nothing but the removal takes back (`Listed`).  A connection that is not in it
has been removed, has left its poller, and has no owner; its destructor may run and close the
fd.

So the server does not keep connections, nor their fds, beyond their end.
-/

namespace MuduoLite

namespace ConnState

/-! ## What leads to `kDisconnected` -/

/-- A callback that leaves state `kDisconnected` has found it or has reported the close. -/
theorem runCallback_closes (s : ConnState) (callback : Channel.Callback) (read : Buffer.ReadResult)
    (result : IoResult) (h : (s.runCallback callback read result).conn.state = .kDisconnected) :
    s.conn.state = .kDisconnected ∨
      .closeCallback ∈ (s.runCallback callback read result).effects := by
  have hclosed (t : ConnState) : .closeCallback ∈ t.handleClose.effects := by simp [handleClose]
  cases callback with
  | closeCallback => exact .inr (hclosed s)
  | errorCallback => exact .inl h
  | readCallback =>
      by_cases hopen : read = .data []
      · subst hopen
        obtain ⟨buffer, heof⟩ := s.exists_handleRead_eof
        right
        rw [runCallback, heof]
        exact hclosed _
      · exact .inl ((traffic_handleRead s hopen).state_eq.symm.trans h)
  | writeCallback => exact .inl ((traffic_handleWrite s result).state_eq.symm.trans h)

end ConnState

namespace Server

open ConnState State Transition

/-- A call of the user does not close the connection. -/
theorem UserCall.run_closes (call : UserCall) (s : ConnState)
    (h : (call.run s).conn.state = .kDisconnected) : s.conn.state = .kDisconnected := by
  cases call with
  | send data result => exact (traffic_send s data result).state_eq.symm.trans h
  | sendFile fileDescriptor offset count result =>
      exact (traffic_sendFile s _ _ _ _).state_eq.symm.trans h
  | shutdown =>
      simp only [UserCall.run, ConnState.shutdown] at h
      split_ifs at h
      · rw [shutdownInLoop_conn, setState_state] at h
        exact absurd h (by decide)
      · exact h
  | setHighWaterMarkCallback highWaterMark => exact h

/-! ## The connections in the map -/

/-- The removal of a connection that has closed waits until it leaves the map. -/
def Listed (s : State) : Prop :=
  ∀ c k, s.conns c = some k → s.connections k.name = some c → k.tcp.state = .kDisconnected →
    c ∈ s.base.functors.waiting

namespace Listed

variable {server : TcpServer} {s t : State} {c : ℕ} {k k' : Conn}

theorem setConn (h : Listed s) (hconn : s.conns c = some k) (hname : k'.name = k.name)
    (hstate : k'.tcp.state = .kDisconnected → k.tcp.state = .kDisconnected ∨
      c ∈ s.base.functors.waiting) : Listed (s.setConn c k') := by
  intro d e he hmap hclosed
  by_cases hd : d = c
  · subst hd
    obtain rfl := Option.some.inj ((setConn_conns_self s d k').symm.trans he)
    rcases hstate hclosed with hold | hwaits
    · exact h d k hconn (hname ▸ hmap) hold
    · exact hwaits
  · exact h d e ((setConn_conns_of_ne _ _ _ _ hd).symm.trans he) hmap hclosed

/-- A method that closes the connection reports it. -/
theorem onConn (h : Listed s) (hconn : s.conns c = some k) (hname : k'.name = k.name)
    {method : ConnState → ConnState}
    (hstate : (method (s.connState c k')).conn.state = .kDisconnected →
      k.tcp.state = .kDisconnected ∨ .closeCallback ∈ (method (s.connState c k')).effects) :
    Listed (s.onConn c k' method) := by
  have hwaiting (d : ℕ) : d ∈ (s.onConn c k' method).base.functors.waiting ↔
      d ∈ s.base.functors.waiting ∨
        d ∈ List.replicate ((method (s.connState c k')).effects.count .closeCallback) c := by
    rw [onConn_base, BatchQueue.waiting_enqueue, List.mem_append]
  intro d e he hmap hclosed
  rw [hwaiting]
  by_cases hd : d = c
  · subst hd
    obtain rfl := Option.some.inj ((onConn_conns_self s d k' method).symm.trans he)
    rcases hstate hclosed with hold | hreports
    · exact .inl (h d k hconn (hname ▸ hmap) hold)
    · right
      exact List.mem_replicate.2 ⟨(List.count_pos_iff.2 hreports).ne', rfl⟩
  · exact .inl (h d e ((onConn_conns_of_ne _ _ _ _ _ hd).symm.trans he) hmap hclosed)

theorem step (h : Listed s) (hlife : Lifecycle server s) {label : Label}
    (hstep : Step server s label t) : Listed t := by
  have hwf := hlife.wellFormed
  cases hstep with
  | newConnection loop fd hbase hid hfd =>
      intro d e he hmap hclosed
      rcases newConnection_conns_eq_some _ _ _ _ _ he with ⟨rfl, rfl⟩ | ⟨hne, hold⟩
      · nomatch hclosed
      · have hname := hwf.name_ne hold (hid.trans (by decide)) hne
        exact h d e hold ((Function.update_of_ne hname _ _).symm.trans hmap) hclosed
  | baseSwap hbase =>
      intro d e he hmap hclosed
      have hwaiting := BatchQueue.waiting_swap s.base.functors (hwf.base hbase).2
      exact hwaiting ▸ h d e he hmap hclosed
  | @baseRun c rest k hbase htodo hconn =>
      intro d e he hmap hclosed
      have hname : e.name ≠ k.name := by
        intro heq
        rw [heq] at hmap
        exact Option.some_ne_none d (hmap.symm.trans (Function.update_self _ _ _))
      have hwaits := h d e he ((Function.update_of_ne hname _ _).symm.trans hmap) hclosed
      rw [BatchQueue.waiting_advance _ htodo, List.mem_cons] at hwaits
      refine hwaits.resolve_left ?_
      rintro rfl
      exact hname (congrArg Conn.name (Option.some.inj (he.symm.trans hconn)))
  | baseFinish hbase htodo => exact h
  | callback loop read result hphase hevent hcallbacks hconn howned =>
      exact Listed.onConn (s := s.popCallback loop _ _) h hconn rfl
        fun hclosed => runCallback_closes _ _ _ _ hclosed
  | @run loop result functor rest k hphase hrunning htodo hconn howned =>
      refine Listed.onConn (s := s.popFunctor loop) h hconn (functor.mark_name k) ?_
      intro hclosed
      left
      have hwaiting : functor ∈ (s.io loop).functors.waiting := by
        rw [BatchQueue.waiting_advance _ htodo]
        exact List.mem_cons_self
      cases functor with
      | connectEstablished c => nomatch hclosed
      | connectDestroyed c =>
          -- it was queued by the removal, after the close
          obtain rfl := hlife.loop_of_todo htodo hconn
          exact ((hlife.stage c k hconn).closing (.inr hwaiting)).2
      | method c queued =>
          have howns := hlife.noRaw.owns loop _ (BatchQueue.mem_held_of_mem_waiting hwaiting)
          rw [IoFunctor.run, runFunctor_conn _ howns] at hclosed
          exact hclosed
  | call c call hconn howned hphase =>
      exact h.onConn hconn rfl fun hclosed => .inl (call.run_closes _ hclosed)
  | storeDisconnecting c hcall hconn => simp [hlife.noRaw.calls] at hcall
  | queueCall c functor hcall hconn => simp [hlife.noRaw.calls] at hcall
  | destroy c hconn halive hexpired =>
      exact Listed.setConn (s := s) h hconn rfl .inl
  | _ => exact h

theorem of_run {labels : List Label}
    (hrun : Run (restrict (Step server) OnLoopThread) {} labels s) : Listed s := by
  have hboth : Lifecycle server s ∧ Listed s := by
    refine hrun.invariant (P := fun a => Lifecycle server a ∧ Listed a)
      ⟨.initial, fun _ _ hconn => nomatch hconn⟩ ?_
    rintro a label b ⟨hlife, hlisted⟩ ⟨hstep, honly⟩
    exact ⟨hlife.step hstep honly, hlisted.step hlife hstep⟩
  exact hboth.2

end Listed

/-! ## Nothing to do -/

/-- Nothing waits, nothing is handled, and the user has no pointer. -/
structure Idle (s : State) : Prop where
  base : s.base.functors.held = []
  io : ∀ loop, (s.io loop).functors.held = []
  event : ∀ loop, (s.io loop).event = none
  user : ∀ c, s.userRefs c = 0
  calls : s.calls = []

namespace Idle

variable {server : TcpServer} {s : State}

/-- The map is the only owner. -/
theorem connections_of_owned (h : Idle s) {c : ℕ} (howned : s.Owned c) :
    ∃ name, s.connections name = some c := by
  cases howned with
  | connections hmap => exact ⟨_, hmap⟩
  | base hmem =>
      rw [h.base] at hmem
      exact absurd hmem List.not_mem_nil
  | functor loop hmem =>
      rw [h.io loop] at hmem
      exact absurd hmem List.not_mem_nil
  | event loop hsome =>
      rw [h.event loop] at hsome
      exact absurd hsome.symm (Option.some_ne_none _)
  | user hpos =>
      rw [h.user c] at hpos
      exact absurd hpos (Nat.lt_irrefl 0)
  | call hmem =>
      rw [h.calls] at hmem
      exact absurd hmem List.not_mem_nil

theorem not_closing (h : Idle s) (c : ℕ) (k : Conn) : ¬ Closing s c k := by
  rintro (hbase | hio)
  · have hheld := BatchQueue.mem_held_of_mem_waiting hbase
    rw [h.base] at hheld
    exact List.not_mem_nil hheld
  · have hheld := BatchQueue.mem_held_of_mem_waiting hio
    rw [h.io k.loop] at hheld
    exact List.not_mem_nil hheld

/-- A connection in the map is open. -/
theorem open_of_listed (h : Idle s) (hlife : Lifecycle server s) (hlisted : Listed s) {c : ℕ}
    {k : Conn} (hconn : s.conns c = some k) (hmap : s.connections k.name = some c) :
    k.alive = true ∧ k.established = true ∧ k.destroyed = false ∧
      k.tcp.state ≠ .kDisconnected := by
  have hstage := hlife.stage c k hconn
  have hopen : k.tcp.state ≠ .kDisconnected := fun hclosed =>
    h.not_closing c k (.inl (hlisted c k hconn hmap hclosed))
  refine ⟨hlife.alive hconn (.connections hmap), ?_, ?_, hopen⟩
  · by_contra hfresh
    have hopening := hstage.opening
    have hnone : (s.io k.loop).functors.waiting = [] := by
      refine List.eq_nil_iff_forall_not_mem.2 fun functor hmem => ?_
      have hheld := BatchQueue.mem_held_of_mem_waiting hmem
      rw [h.io k.loop] at hheld
      exact List.not_mem_nil hheld
    rw [hnone, if_neg hfresh] at hopening
    exact absurd hopening (by simp)
  · cases hdone : k.destroyed with
    | false => rfl
    | true => exact absurd (hstage.done hdone).1 hopen

/-- A connection that is not in the map is done, and nothing owns it. -/
theorem done_of_not_listed (h : Idle s) (hlife : Lifecycle server s) {c : ℕ} {k : Conn}
    (hconn : s.conns c = some k) (hmap : s.connections k.name ≠ some c) :
    k.destroyed = true ∧ k.tcp.state = .kDisconnected ∧ ¬ s.Owned c := by
  have hstage := hlife.stage c k hconn
  have hdone : k.destroyed = true := by
    by_contra hopen
    rcases hstage.kept (Bool.eq_false_of_not_eq_true hopen) with hkept | hclosing
    · exact hmap hkept
    · exact h.not_closing c k hclosing
  refine ⟨hdone, (hstage.done hdone).1, fun howned => ?_⟩
  obtain ⟨name, hname⟩ := h.connections_of_owned howned
  have hsame : name = k.name :=
    (hlife.wellFormed.names name c hname).trans (hlife.wellFormed.conns c k hconn).2.symm
  exact hmap (hsame ▸ hname)

end Idle

end Server

namespace Acceptor

open Transition

/-- An idle server keeps what is open and nothing else.  After any run in which the methods of
connections are called on their loop threads, if no functor waits, no event is handled and the
user has dropped its pointers, then the connections in `connections_` are established and have
not closed.  All others have closed and are done, and where such a connection still exists
its destructor can run, which closes its fd.  When no destructor is left to run, the open fds
are those of the connections in `connections_`, those that were never the server's, and, in
a pool without threads, those of the sockets for which `newConnection` has thrown. -/
theorem idle_keeps_open {H : Type*} [LinearOrder H] (server : TcpServer) (name : List Char)
    (hashFunction : List Char → H) (numThreads : ℤ) (cb : Bool) (fds : Finset ℕ)
    (labels : List Label) (t : State H)
    (hrun : Run (Step server) (.start name hashFunction numThreads cb fds) labels t)
    (hcalls : ∀ c request, .server (.request c request) ∉ labels) (hidle : Server.Idle t.server) :
    (∀ c k, t.server.conns c = some k → t.server.connections k.name = some c →
      k.alive = true ∧ k.established = true ∧ k.destroyed = false ∧
        k.tcp.state ≠ .kDisconnected) ∧
    (∀ c k, t.server.conns c = some k → t.server.connections k.name ≠ some c →
      k.destroyed = true ∧ k.tcp.state = .kDisconnected ∧
        (k.alive = true → ∃ u, Step server t (.destroy c) u ∧
          u.fds = t.fds.erase k.tcp.channel.fd)) ∧
    ((∀ c u, ¬ Step server t (.destroy c) u) → ∀ fd, fd ∈ t.fds ↔ fd ∈ t.others ∪ t.leaked ∨
      ∃ c k, t.server.conns c = some k ∧ t.server.connections k.name = some c ∧
        k.tcp.channel.fd = fd) ∧
    (0 < numThreads → t.leaked = ∅) := by
  obtain ⟨howns, serverLabels, hserver, hlabels⟩ := exists_server_run
    (fun label => ∀ c request, label ≠ .request c request) (fun _ _ _ _ => nofun)
    (fun _ _ _ => nofun) hrun fun label hmem c request heq => hcalls c request (heq ▸ hmem)
  have honly : Run (restrict (Server.Step server) Server.OnLoopThread) {} serverLabels t.server :=
    hserver.restrict_of_forall fun label hmem _ => hlabels label hmem
  have hlife := Server.Lifecycle.run honly
  have hlisted := Server.Listed.of_run honly
  have hdone {c : ℕ} {k : Server.Conn} (hconn : t.server.conns c = some k)
      (hmap : t.server.connections k.name ≠ some c) (halive : k.alive = true) :
      ∃ u, Step server t (.destroy c) u ∧ u.fds = t.fds.erase k.tcp.channel.fd :=
    ⟨_, .destroy c hconn (.destroy c hconn halive
      (hidle.done_of_not_listed hlife hconn hmap).2.2), rfl⟩
  refine ⟨fun c k hconn hmap => hidle.open_of_listed hlife hlisted hconn hmap,
    fun c k hconn hmap => ?_, fun hswept fd => ?_,
    fun hthreads => leaked_eq_empty hthreads hrun⟩
  · obtain ⟨hdestroyed, hstate, -⟩ := hidle.done_of_not_listed hlife hconn hmap
    exact ⟨hdestroyed, hstate, hdone hconn hmap⟩
  · rw [howns.mem_fds_iff]
    refine or_congr_right ⟨?_, ?_⟩
    · rintro ⟨c, k, hconn, halive, hfd⟩
      refine ⟨c, k, hconn, ?_, hfd⟩
      by_contra hmap
      obtain ⟨u, hstep, -⟩ := hdone hconn hmap halive
      exact hswept c u hstep
    · rintro ⟨c, k, hconn, hmap, hfd⟩
      exact ⟨c, k, hconn, (hidle.open_of_listed hlife hlisted hconn hmap).1, hfd⟩

/-- The server goes on by itself. -/
theorem server_run {H : Type*} [LinearOrder H] {server : TcpServer} {s : State H}
    {labels : List Server.Label} {u : Server.State}
    (hrun : Run (Server.Step server) s.server labels u)
    (hnew : ∀ label ∈ labels, ∀ loop fd, label ≠ .newConnection loop fd)
    (hdestroy : ∀ label ∈ labels, ∀ c, label ≠ .destroy c) :
    Run (Step server) s (labels.map .server) { s with server := u } := by
  induction hrun with
  | nil => exact .nil
  | snoc _ hlast ih =>
      rw [List.forall_mem_append] at hnew hdestroy
      rw [List.map_append]
      exact (ih hnew.1 hdestroy.1).snoc
        (.server (hnew.2 _ (List.mem_singleton.2 rfl)) (hdestroy.2 _ (List.mem_singleton.2 rfl))
          hlast)

/-- A connection is established, and its loop goes back to its poll. -/
theorem established_run (server : TcpServer) : ∃ u,
    Run (Server.Step server) (({} : Server.State).newConnection server 0 5)
      [.poll 0 [], .swap 0, .startRun 0, .run 0 (.bytes 0), .finish 0] u ∧ Server.Idle u ∧
      ∃ k, u.conns 1 = some k ∧ u.connections k.name = some 1 := by
  obtain ⟨u, hu, hrun⟩ : ∃ u, u = _ ∧
      Run (Server.Step server) (({} : Server.State).newConnection server 0 5)
        [.poll 0 [], .swap 0, .startRun 0, .run 0 (.bytes 0), .finish 0] u :=
    ⟨_, rfl, ((((Run.single (.poll 0 [] rfl)).snoc (.swap 0 rfl rfl rfl)).snoc
      (.startRun 0 rfl rfl rfl)).snoc
      (.run 0 (.bytes 0) rfl rfl rfl rfl (.functor 0 List.mem_cons_self rfl rfl))).snoc
        (.finish 0 rfl rfl)⟩
  -- the other loops have done nothing
  have hother {loop : ℕ} (hloop : loop ≠ 0) : u.io loop = {} := by
    rw [hu, Server.State.setLoop_io_of_ne _ _ _ _ hloop,
      Server.State.onConn_io_of_ne _ _ _ _ _ hloop, Server.State.popFunctor,
      Server.State.setLoop_io_of_ne _ _ _ _ hloop, Server.State.setLoop_io_of_ne _ _ _ _ hloop,
      Server.State.setLoop_io_of_ne _ _ _ _ hloop, Server.State.setLoop_io_of_ne _ _ _ _ hloop,
      Server.State.newConnection_io_of_ne _ _ _ _ _ hloop]
  have hself : (u.io 0).functors.held = [] ∧ (u.io 0).event = none := by
    subst hu
    exact ⟨rfl, rfl⟩
  have hrest : u.base.functors.held = [] ∧ (∀ c, u.userRefs c = 0) ∧ u.calls = [] := by
    subst hu
    exact ⟨rfl, fun _ => rfl, rfl⟩
  refine ⟨u, hrun, ⟨hrest.1, fun loop => ?_, fun loop => ?_, hrest.2.1, hrest.2.2⟩, ?_⟩
  · by_cases hloop : loop = 0
    · exact hloop ▸ hself.1
    · rw [hother hloop]
      rfl
  · by_cases hloop : loop = 0
    · exact hloop ▸ hself.2
    · rw [hother hloop]
  · subst hu
    exact ⟨_, rfl, Function.update_self _ _ _⟩

/-- One client connects, its connection is established, and nothing else happens. -/
theorem run_idle : ∃ (server : TcpServer) (labels : List Label) (t : State (Fin (2 ^ 64))),
    Run (Step server) (.start ['p'] RingConsistency.byLength 1 false {3}) labels t ∧
      (∀ c request, .server (.request c request) ∉ labels) ∧ Server.Idle t.server ∧
      ∃ k, t.server.conns 1 = some k ∧ t.server.connections k.name = some 1 := by
  let server : TcpServer := .new ⟨0x901F, #v[0, 0, 0, 0]⟩ ['s'] false
  let start : State (Fin (2 ^ 64)) := .start ['p'] RingConsistency.byLength 1 false {3}
  let client : InetAddress := ⟨0x901F, #v[127, 0, 0, 1]⟩
  obtain ⟨i, hi, hget⟩ := EventLoopThreadPool.startedPool_lands none ['p']
    RingConsistency.byLength some false (show 0 < (1 : ℤ) by decide) client.toIp
  obtain rfl : i = 0 := Nat.lt_one_iff.1 hi
  have hlistening : Run (Step server) start [.listen] { start with listenning := true } :=
    .single .listen
  have haccepted := (hlistening.snoc (.arrive client rfl)).snoc
    (.newConnection 5 rfl rfl rfl (show 5 ∉ {3} by decide) hget (by decide))
  obtain ⟨u, hserver, hidle, hlisted⟩ := established_run server
  have hrun := haccepted.append (server_run hserver (by simp) (by simp))
  exact ⟨server, _, _, hrun, by simp, hidle, hlisted⟩

theorem idle_keeps_open_established : ∃ (t : State (Fin (2 ^ 64))) (k : Server.Conn),
    t.server.conns 1 = some k ∧ k.alive = true ∧ k.established = true ∧
      k.tcp.state ≠ .kDisconnected := by
  obtain ⟨server, labels, t, hrun, hcalls, hidle, k, hconn, hmap⟩ := run_idle
  obtain ⟨halive, hestablished, -, hopen⟩ :=
    (idle_keeps_open server _ _ _ _ _ labels t hrun hcalls hidle).1 1 k hconn hmap
  exact ⟨t, k, hconn, halive, hestablished, hopen⟩

end Acceptor

end MuduoLite
