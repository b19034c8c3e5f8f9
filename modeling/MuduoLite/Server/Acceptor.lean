import MuduoLite.Pool.ThreadPool
import MuduoLite.Server.InetAddress
import MuduoLite.Server.Projection

/-!
# Accepting connections

The kernel keeps completed connections in the order of their arrival until `handleRead`
accepts them, one each time it is called, and it gives every new socket an fd that is not
open.  The server makes a connection of the socket, on the loop that the ring assigns to the
ip of the peer.  The destructor of the connection closes the fd, which the kernel may then
give away again.  The ring of a pool without threads throws: then the socket never has an
owner, and its fd stays open if the user catches the exception around `loop`.

`Step` adds the kernel to the steps of the server: what the server takes for granted when it
is given a socket is a fact here (`Owns`).
-/

namespace MuduoLite

namespace Server

open State Transition
open Function (update)

/-! ## Steps between two connections -/

/-- What never changes while the connection is alive, and whether it is. -/
def Conn.place (k : Conn) : ℕ × ℕ × Bool := (k.loop, k.tcp.channel.fd, k.alive)

/-- No connection is made or destroyed. -/
structure Keeps (s t : State) : Prop where
  nextConnId_eq : t.nextConnId = s.nextConnId
  place_eq : ∀ c, (t.conns c).map Conn.place = (s.conns c).map Conn.place

namespace Keeps

variable {server : TcpServer} {s t : State} {label : Label}

theorem of_eq (hnext : t.nextConnId = s.nextConnId) (hconns : t.conns = s.conns) : Keeps s t :=
  ⟨hnext, fun c => by rw [hconns]⟩

theorem of_update {c : ℕ} {k k' : Conn} (hnext : t.nextConnId = s.nextConnId)
    (hconn : s.conns c = some k) (hconns : t.conns = update s.conns c (some k'))
    (hplace : k'.place = k.place) : Keeps s t where
  nextConnId_eq := hnext
  place_eq := by
    intro d
    by_cases hd : d = c
    · subst hd
      rw [hconns, Function.update_self, hconn, Option.map_some, Option.map_some, hplace]
    · rw [hconns, Function.update_of_ne hd]

theorem onConn {s' : State} {c : ℕ} {k k' : Conn} (act : Act) (hconn : s.conns c = some k)
    (hnext : s'.nextConnId = s.nextConnId) (hconns : s'.conns = s.conns)
    (hplace : k'.place = k.place) : Keeps s (s'.onConn c k' act.run) := by
  let after : Conn := { k' with tcp := (act.run (s'.connState c k')).conn }
  have hafter : (s'.onConn c k' act.run).conns = update s.conns c (some after) := by
    rw [← hconns]
    rfl
  have hfd : after.tcp.channel.fd = k'.tcp.channel.fd := (act.confined (s'.connState c k')).fd_eq
  refine .of_update hnext hconn hafter ?_
  rw [← hplace, Conn.place, Conn.place, hfd]

theorem exists_place (h : Keeps s t) {c : ℕ} {k : Conn} (hconn : s.conns c = some k) :
    ∃ k', t.conns c = some k' ∧ k'.place = k.place := by
  have hplace := h.place_eq c
  rw [hconn, Option.map_some, Option.map_eq_some_iff] at hplace
  exact hplace

theorem symm (h : Keeps s t) : Keeps t s :=
  ⟨h.nextConnId_eq.symm, fun c => (h.place_eq c).symm⟩

theorem of_step (hstep : Step server s label t)
    (hnew : ∀ loop fd, label ≠ .newConnection loop fd) (hdestroy : ∀ c, label ≠ .destroy c) :
    Keeps s t := by
  cases hstep with
  | newConnection loop fd => exact absurd rfl (hnew loop fd)
  | destroy c => exact absurd rfl (hdestroy c)
  | callback loop read result hphase hevent hcallbacks hconn howned =>
      exact .onConn (.callback _ read result) hconn rfl rfl rfl
  | @run loop result functor rest k hphase hrunning htodo hconn howned =>
      refine .onConn (.functor functor result) hconn rfl rfl ?_
      simp only [Conn.place, functor.mark_loop, functor.mark_tcp, functor.mark_alive]
  | call c call hconn howned hphase => exact .onConn (.call call) hconn rfl rfl rfl
  | storeDisconnecting c hcall hconn => exact .of_update rfl hconn rfl rfl
  | _ => exact .of_eq rfl rfl

end Keeps

end Server

/-! ## The acceptor and the kernel -/

namespace Acceptor

open Server (Conn Keeps)
open Transition

variable {H : Type*}

structure State (H : Type*) where
  server : Server.State := {}
  /-- `threadPool_`; its loops are `none` for the base loop and `some i` for that of thread `i` -/
  threadPool : EventLoopThreadPool H (Option ℕ)
  listenning : Bool := false
  /-- the peers of the connections that wait in the kernel -/
  backlog : List InetAddress := []
  /-- the fds that are open in the process -/
  fds : Finset ℕ
  /-- those of them that were never sockets of the server -/
  others : Finset ℕ
  /-- those of the sockets for which `newConnection` has thrown -/
  leaked : Finset ℕ := ∅
  /-- the peers of all connections that have come in -/
  arrived : List InetAddress := []
  /-- `peerAddr_` of the connections that were made, from the first one on -/
  peerAddrs : List InetAddress := []

/-- A started server in a process with the open fds `fds`. -/
def State.start [LinearOrder H] (name : List Char) (hashFunction : List Char → H)
    (numThreads : ℤ) (cb : Bool) (fds : Finset ℕ) : State H where
  threadPool := EventLoopThreadPool.startedPool none name hashFunction numThreads some cb
  fds := fds
  others := fds

inductive Label
  | listen
  | arrive (peerAddr : InetAddress)
  /-- `connfd` is what `accept4` returns, if it does not fail -/
  | handleRead (connfd : Option ℕ)
  | destroy (c : ℕ)
  | openFile (fd : ℕ)
  | closeFile (fd : ℕ)
  | server (label : Server.Label)

inductive Step [LinearOrder H] (server : TcpServer) (s : State H) : Label → State H → Prop
  | listen : Step server s .listen { s with listenning := true }
  | arrive (peerAddr : InetAddress) (hlisten : s.listenning = true) :
      Step server s (.arrive peerAddr)
        { s with backlog := s.backlog ++ [peerAddr], arrived := s.arrived ++ [peerAddr] }
  /-- The error is logged. -/
  | acceptError (hbase : s.server.base.calling = false) (hlisten : s.listenning = true) :
      Step server s (.handleRead none) s
  /-- `newConnection` is called; `++nextConnId_` does not overflow. -/
  | newConnection (connfd : ℕ) {peerAddr : InetAddress} {rest : List InetAddress} {loop : ℕ}
      {texts : List String} {threadPool : EventLoopThreadPool H (Option ℕ)}
      (hbase : s.server.base.calling = false) (hlisten : s.listenning = true)
      (hbacklog : s.backlog = peerAddr :: rest) (hfd : connfd ∉ s.fds)
      (hloop : s.threadPool.getNextLoop peerAddr.toIp = .ok (some loop, texts, threadPool))
      (hid : s.server.nextConnId < 2 ^ 31 - 1) :
      Step server s (.handleRead (some connfd))
        { s with
          server := s.server.newConnection server loop connfd
          threadPool := threadPool
          backlog := rest
          fds := insert connfd s.fds
          peerAddrs := s.peerAddrs ++ [peerAddr] }
  /-- `getNextLoop` throws before a connection has been made.  Nobody closes the fd. -/
  | newConnectionThrows (connfd : ℕ) {peerAddr : InetAddress} {rest : List InetAddress}
      {error : ConsistentHash.GetNodeError} (hbase : s.server.base.calling = false)
      (hlisten : s.listenning = true) (hbacklog : s.backlog = peerAddr :: rest)
      (hfd : connfd ∉ s.fds) (hthrows : s.threadPool.getNextLoop peerAddr.toIp = .error error) :
      Step server s (.handleRead (some connfd))
        { s with
          backlog := rest
          fds := insert connfd s.fds
          leaked := insert connfd s.leaked }
  /-- The destructor closes the fd. -/
  | destroy (c : ℕ) {k : Conn} {t : Server.State} (hconn : s.server.conns c = some k)
      (hstep : Server.Step server s.server (.destroy c) t) :
      Step server s (.destroy c)
        { s with server := t, fds := s.fds.erase k.tcp.channel.fd }
  | openFile (fd : ℕ) (hfd : fd ∉ s.fds) :
      Step server s (.openFile fd)
        { s with fds := insert fd s.fds, others := insert fd s.others }
  | closeFile (fd : ℕ) (hfd : fd ∈ s.others) :
      Step server s (.closeFile fd)
        { s with fds := s.fds.erase fd, others := s.others.erase fd }
  /-- Any other step of the server. -/
  | server {label : Server.Label} {t : Server.State}
      (hnew : ∀ loop fd, label ≠ .newConnection loop fd) (hdestroy : ∀ c, label ≠ .destroy c)
      (hstep : Server.Step server s.server label t) :
      Step server s (.server label) { s with server := t }

/-! ## Who closes an fd -/

/-- A living connection has the fd. -/
def Holds (s : Server.State) (fd : ℕ) : Prop :=
  ∃ c k, s.conns c = some k ∧ k.alive = true ∧ k.tcp.channel.fd = fd

/-- Every open fd is one of the others, one that has leaked, or that of a connection, and
only of one. -/
structure Owns (server : TcpServer) (s : State H) : Prop where
  wellFormed : Server.WellFormed server s.server
  apart : Server.Apart s.server
  mem_fds_iff : ∀ fd, fd ∈ s.fds ↔ fd ∈ s.others ∪ s.leaked ∨ Holds s.server fd
  disjoint : ∀ fd ∈ s.others ∪ s.leaked, ¬ Holds s.server fd
  others_disjoint : Disjoint s.others s.leaked

theorem holds_of_keeps {s t : Server.State} (h : Keeps s t) {fd : ℕ} (hfd : Holds s fd) :
    Holds t fd := by
  obtain ⟨c, k, hconn, halive, rfl⟩ := hfd
  obtain ⟨k', hconn', hplace⟩ := h.exists_place hconn
  simp only [Conn.place, Prod.mk.injEq] at hplace
  exact ⟨c, k', hconn', hplace.2.2.trans halive, hplace.2.1⟩

theorem holds_newConnection_iff {server : TcpServer} {s : Server.State}
    (hwf : Server.WellFormed server s) (loop connfd fd : ℕ) :
    Holds (s.newConnection server loop connfd) fd ↔ fd = connfd ∨ Holds s fd := by
  have hself : (s.newConnection server loop connfd).conns s.nextConnId =
      some (.new server loop connfd s.nextConnId) := by simp
  have hother {c : ℕ} (hc : c ≠ s.nextConnId) :
      (s.newConnection server loop connfd).conns c = s.conns c :=
    Server.State.newConnection_conns_of_ne s server c loop connfd hc
  constructor
  · rintro ⟨c, k, hconn, halive, rfl⟩
    by_cases hc : c = s.nextConnId
    · subst hc
      rw [hself, Option.some.injEq] at hconn
      exact .inl (hconn ▸ rfl)
    · exact .inr ⟨c, k, hother hc ▸ hconn, halive, rfl⟩
  · rintro (rfl | ⟨c, k, hconn, halive, rfl⟩)
    · exact ⟨_, _, hself, rfl, rfl⟩
    · have hc : c ≠ s.nextConnId := by
        rintro rfl
        rw [hwf.conns_nextConnId] at hconn
        exact absurd hconn.symm (Option.some_ne_none k)
      exact ⟨c, k, (hother hc).trans hconn, halive, rfl⟩

theorem holds_destroy_iff {s t : Server.State} {server : TcpServer} {c : ℕ} {k : Conn}
    (hapart : Server.Apart s) (hconn : s.conns c = some k)
    (hstep : Server.Step server s (.destroy c) t) (fd : ℕ) :
    Holds t fd ↔ Holds s fd ∧ fd ≠ k.tcp.channel.fd := by
  cases hstep with
  | @destroy _ e he halive hexpired =>
      obtain rfl : k = e := Option.some.inj (hconn.symm.trans he)
      have hself : (s.setConn c { k with alive := false }).conns c =
          some { k with alive := false } := by simp
      have hother {d : ℕ} (hd : d ≠ c) :
          (s.setConn c { k with alive := false }).conns d = s.conns d :=
        Server.State.setConn_conns_of_ne s c d _ hd
      constructor
      · rintro ⟨d, f, hf, hfalive, rfl⟩
        have hd : d ≠ c := by
          rintro rfl
          have hdead := Option.some.inj (hself.symm.trans hf)
          rw [← hdead] at hfalive
          exact Bool.noConfusion hfalive
        have hf' : s.conns d = some f := (hother hd).symm.trans hf
        exact ⟨⟨d, f, hf', hfalive, rfl⟩,
          fun heq => hd (hapart.distinct d c f k hf' hconn hfalive halive heq)⟩
      · rintro ⟨⟨d, f, hf, hfalive, rfl⟩, hne⟩
        have hd : d ≠ c := by
          rintro rfl
          obtain rfl : f = k := Option.some.inj (hf.symm.trans hconn)
          exact hne rfl
        exact ⟨d, f, (hother hd).trans hf, hfalive, rfl⟩

namespace Owns

variable {server : TcpServer} {s t : State H}

theorem start [LinearOrder H] (name : List Char) (hashFunction : List Char → H)
    (numThreads : ℤ) (cb : Bool) (fds : Finset ℕ) :
    Owns server (.start name hashFunction numThreads cb fds) where
  wellFormed := .initial
  apart := .initial
  mem_fds_iff := by
    intro fd
    have hnone : ¬ Holds {} fd := fun ⟨_, _, hconn, _⟩ => nomatch hconn
    rw [State.start, Finset.union_empty]
    exact (or_iff_left hnone).symm
  disjoint := fun fd _ ⟨_, _, hconn, _⟩ => nomatch hconn
  others_disjoint := Finset.disjoint_empty_right _

/-- The kernel gives the server an fd that no connection has. -/
theorem newConnection_step (h : Owns server s) {connfd : ℕ} (loop : ℕ)
    (hbase : s.server.base.calling = false) (hid : s.server.nextConnId < 2 ^ 31 - 1)
    (hfd : connfd ∉ s.fds) : Server.Step server s.server (.newConnection loop connfd)
      (s.server.newConnection server loop connfd) := by
  refine .newConnection loop connfd hbase hid ?_
  rintro c k hconn halive rfl
  exact hfd ((h.mem_fds_iff _).2 (.inr ⟨c, k, hconn, halive, rfl⟩))

/-- A closed fd is nobody's. -/
theorem fresh (h : Owns server s) {fd : ℕ} (hfd : fd ∉ s.fds) :
    fd ∉ s.others ∧ fd ∉ s.leaked ∧ ¬ Holds s.server fd := by
  have hnone := mt (h.mem_fds_iff fd).2 hfd
  rw [not_or, Finset.mem_union, not_or] at hnone
  exact ⟨hnone.1.1, hnone.1.2, hnone.2⟩

theorem step [LinearOrder H] {label : Label} (h : Owns server s)
    (hstep : Step server s label t) : Owns server t := by
  have hserver {serverLabel : Server.Label} {u : Server.State}
      (hstep : Server.Step server s.server serverLabel u) :
      Server.WellFormed server u ∧ Server.Apart u :=
    ⟨h.wellFormed.step hstep, h.apart.step (Server.outcome_of_step h.wellFormed hstep)⟩
  cases hstep with
  | listen => exact ⟨h.wellFormed, h.apart, h.mem_fds_iff, h.disjoint, h.others_disjoint⟩
  | arrive peerAddr hlisten =>
      exact ⟨h.wellFormed, h.apart, h.mem_fds_iff, h.disjoint, h.others_disjoint⟩
  | acceptError hbase hlisten => exact h
  | @newConnection connfd peerAddr rest loop texts pool hbase hlisten hbacklog hfd hloop hid =>
      obtain ⟨hwf, hapart⟩ := hserver (h.newConnection_step loop hbase hid hfd)
      refine ⟨hwf, hapart, fun fd => ?_, fun fd hmem => ?_, h.others_disjoint⟩
      · rw [holds_newConnection_iff h.wellFormed, Finset.mem_insert, h.mem_fds_iff]
        exact or_left_comm
      · rw [holds_newConnection_iff h.wellFormed, not_or]
        refine ⟨?_, h.disjoint fd hmem⟩
        rintro rfl
        exact hfd ((h.mem_fds_iff fd).2 (.inl hmem))
  -- the socket is open, and no connection has been made for it
  | newConnectionThrows connfd hbase hlisten hbacklog hfd hthrows =>
      obtain ⟨hother, -, hholds⟩ := h.fresh hfd
      refine ⟨h.wellFormed, h.apart, fun fd => ?_, fun fd hmem => ?_, ?_⟩
      · rw [Finset.union_insert, Finset.mem_insert, Finset.mem_insert, h.mem_fds_iff, or_assoc]
      · rw [Finset.union_insert, Finset.mem_insert] at hmem
        rcases hmem with rfl | hmem
        · exact hholds
        · exact h.disjoint fd hmem
      · exact Finset.disjoint_insert_right.2 ⟨hother, h.others_disjoint⟩
  | @destroy c k u hconn hstep =>
      obtain ⟨hwf, hapart⟩ := hserver hstep
      have hholds := holds_destroy_iff h.apart hconn hstep
      have halive : k.alive = true := by
        cases hstep with
        | destroy _ he halive _ => exact Option.some.inj (hconn.symm.trans he) ▸ halive
      -- what is closed is neither a file of somebody else nor a socket that leaked
      have hother : k.tcp.channel.fd ∉ s.others ∪ s.leaked := fun hmem =>
        h.disjoint _ hmem ⟨c, k, hconn, halive, rfl⟩
      refine ⟨hwf, hapart, fun fd => ?_, fun fd hmem => ?_, h.others_disjoint⟩
      · rw [hholds, Finset.mem_erase, h.mem_fds_iff]
        constructor
        · rintro ⟨hne, hmem | hmem⟩
          · exact .inl hmem
          · exact .inr ⟨hmem, hne⟩
        · rintro (hmem | ⟨hmem, hne⟩)
          · exact ⟨fun heq => hother (heq ▸ hmem), .inl hmem⟩
          · exact ⟨hne, .inr hmem⟩
      · rw [hholds]
        exact fun hmem' => h.disjoint fd hmem hmem'.1
  | openFile fd hfd =>
      obtain ⟨-, hleaked, hholds⟩ := h.fresh hfd
      refine ⟨h.wellFormed, h.apart, fun other => ?_, fun other hmem => ?_, ?_⟩
      · rw [Finset.insert_union, Finset.mem_insert, Finset.mem_insert, h.mem_fds_iff, or_assoc]
      · rw [Finset.insert_union, Finset.mem_insert] at hmem
        rcases hmem with rfl | hmem
        · exact hholds
        · exact h.disjoint other hmem
      · exact Finset.disjoint_insert_left.2 ⟨hleaked, h.others_disjoint⟩
  | closeFile fd hfd =>
      have hunion : s.others.erase fd ∪ s.leaked = (s.others ∪ s.leaked).erase fd := by
        rw [Finset.erase_union_distrib,
          Finset.erase_eq_of_notMem (Finset.disjoint_left.1 h.others_disjoint hfd)]
      refine ⟨h.wellFormed, h.apart, fun other => ?_, fun other hmem => ?_, ?_⟩
      · rw [hunion, Finset.mem_erase, Finset.mem_erase, h.mem_fds_iff, and_or_left]
        refine or_congr_right (and_iff_right_of_imp fun hholds heq => ?_)
        exact h.disjoint fd (Finset.mem_union_left _ hfd) (heq ▸ hholds)
      · rw [hunion] at hmem
        exact h.disjoint other (Finset.mem_of_mem_erase hmem)
      · exact h.others_disjoint.mono_left (Finset.erase_subset _ _)
  | @server label u hnew hdestroy hstep =>
      obtain ⟨hwf, hapart⟩ := hserver hstep
      have hkeeps := Keeps.of_step hstep hnew hdestroy
      have hholds (fd : ℕ) : Holds u fd ↔ Holds s.server fd :=
        ⟨holds_of_keeps hkeeps.symm, holds_of_keeps hkeeps⟩
      refine ⟨hwf, hapart, fun fd => ?_, fun fd hmem => ?_, h.others_disjoint⟩
      · rw [hholds, h.mem_fds_iff]
      · rw [hholds]
        exact h.disjoint fd hmem

end Owns

/-! ## The pool -/

/-- `getNextLoop` finds the loop of thread `loop` at once. -/
def landsOn (threadPool : EventLoopThreadPool H (Option ℕ)) (loop : ℕ) :
    Except ConsistentHash.GetNodeError
      (Option ℕ × List String × EventLoopThreadPool H (Option ℕ)) :=
  .ok (some loop, [], threadPool)

theorem landsOn_inj {threadPool : EventLoopThreadPool H (Option ℕ)} {i j : ℕ}
    (h : landsOn threadPool i = landsOn threadPool j) : i = j := by
  simpa [landsOn] using h

section Pool

variable [LinearOrder H] {server : TcpServer} {s t : State H} {label : Label}

/-- Where every search lands on a thread, nothing leaks. -/
theorem pool_of_lands (hstep : Step server s label t)
    (hlands : ∀ key, ∃ i, s.threadPool.getNextLoop key = landsOn s.threadPool i) :
    t.threadPool = s.threadPool ∧ t.leaked = s.leaked := by
  cases hstep with
  | @newConnection connfd peerAddr rest loop texts pool hbase hlisten hbacklog hfd hloop hid =>
      obtain ⟨i, hget⟩ := hlands peerAddr.toIp
      rw [hget, landsOn, Except.ok.injEq, Prod.mk.injEq, Prod.mk.injEq] at hloop
      exact ⟨hloop.2.2.symm, rfl⟩
  | @newConnectionThrows connfd peerAddr rest error hbase hlisten hbacklog hfd hthrows =>
      obtain ⟨i, hget⟩ := hlands peerAddr.toIp
      cases hthrows.symm.trans hget
  | _ => exact ⟨rfl, rfl⟩

/-- Where every search throws, no connection is made. -/
theorem pool_of_throws (hstep : Step server s label t)
    (hthrows : ∀ key, ∃ error, s.threadPool.getNextLoop key = .error error)
    (hnone : ∀ c, s.server.conns c = none) :
    t.threadPool = s.threadPool ∧ ∀ c, t.server.conns c = none := by
  cases hstep with
  | @newConnection connfd peerAddr rest loop texts pool hbase hlisten hbacklog hfd hloop hid =>
      obtain ⟨error, herror⟩ := hthrows peerAddr.toIp
      cases herror.symm.trans hloop
  | destroy c hconn hstep => cases (hnone c).symm.trans hconn
  | server hnew hdestroy hstep =>
      refine ⟨rfl, fun c => ?_⟩
      have hplace := (Keeps.of_step hstep hnew hdestroy).place_eq c
      rwa [hnone, Option.map_none, Option.map_eq_none_iff] at hplace
  | _ => exact ⟨rfl, hnone⟩

variable {name : List Char} {hashFunction : List Char → H} {numThreads : ℤ} {cb : Bool}
  {fds : Finset ℕ} {labels : List Label}

/-- A pool with threads leaks nothing. -/
theorem leaked_eq_empty (hthreads : 0 < numThreads)
    (hrun : Run (Step server) (.start name hashFunction numThreads cb fds) labels t) :
    t.leaked = ∅ := by
  set pool := EventLoopThreadPool.startedPool none name hashFunction numThreads some cb
  have hlands (key : List Char) : ∃ i, pool.getNextLoop key = landsOn pool i :=
    (EventLoopThreadPool.startedPool_lands none name hashFunction some cb hthreads key).imp
      fun _ hi => hi.2
  have hboth : t.threadPool = pool ∧ t.leaked = ∅ := by
    refine hrun.invariant (P := fun s => s.threadPool = pool ∧ s.leaked = ∅) ⟨rfl, rfl⟩ ?_
    rintro s label u ⟨hpool, hleaked⟩ hstep
    obtain ⟨hpool', hleaked'⟩ := pool_of_lands hstep (hpool ▸ hlands)
    exact ⟨hpool'.trans hpool, hleaked'.trans hleaked⟩
  exact hboth.2

/-- A pool without threads makes no connection: each socket that is accepted leaks. -/
theorem conns_eq_none (hthreads : numThreads ≤ 0)
    (hrun : Run (Step server) (.start name hashFunction numThreads cb fds) labels t) (c : ℕ) :
    t.server.conns c = none := by
  set pool := EventLoopThreadPool.startedPool none name hashFunction numThreads some cb
  have hthrows : ∀ key, ∃ error, pool.getNextLoop key = .error error :=
    EventLoopThreadPool.startedPool_throws none name hashFunction some cb hthreads
  have hboth : t.threadPool = pool ∧ ∀ c, t.server.conns c = none := by
    refine hrun.invariant (P := fun s => s.threadPool = pool ∧ ∀ c, s.server.conns c = none)
      ⟨rfl, fun _ => rfl⟩ ?_
    rintro s label u ⟨hpool, hnone⟩ hstep
    obtain ⟨hpool', hnone'⟩ := pool_of_throws hstep (hpool ▸ hthrows) hnone
    exact ⟨hpool'.trans hpool, hnone'⟩
  exact hboth.2 c

end Pool

/-- What the server does in a run is a run of the server. -/
theorem exists_server_run [LinearOrder H] {server : TcpServer} {name : List Char}
    {hashFunction : List Char → H} {numThreads : ℤ} {cb : Bool} {fds : Finset ℕ}
    {labels : List Label} {t : State H} (ok : Server.Label → Prop)
    (hnew : ∀ loop fd, ok (.newConnection loop fd)) (hdestroy : ∀ c, ok (.destroy c))
    (hrun : Run (Step server) (.start name hashFunction numThreads cb fds) labels t)
    (hlabels : ∀ label, .server label ∈ labels → ok label) :
    Owns server t ∧ ∃ serverLabels, Run (Server.Step server) {} serverLabels t.server ∧
      ∀ label ∈ serverLabels, ok label := by
  have hsnoc {labels : List Server.Label} {label : Server.Label}
      (hpast : ∀ other ∈ labels, ok other) (hlast : ok label) :
      ∀ other ∈ labels ++ [label], ok other := by
    intro other hother
    rcases List.mem_append.1 hother with hother | hother
    · exact hpast other hother
    · rwa [List.mem_singleton.1 hother]
  induction hrun with
  | nil =>
      exact ⟨.start name hashFunction numThreads cb fds, [], .nil,
        fun _ hmem => absurd hmem List.not_mem_nil⟩
  | snoc _ hlast ih =>
      obtain ⟨howns, serverLabels, hserver, hpast⟩ :=
        ih fun label hmem => hlabels label (List.mem_append_left _ hmem)
      refine ⟨howns.step hlast, ?_⟩
      -- a step of the server, or one that the server does not see
      cases hlast with
      | newConnection connfd hbase hlisten hbacklog hfd hloop hid =>
          exact ⟨_, hserver.snoc (howns.newConnection_step _ hbase hid hfd),
            hsnoc hpast (hnew _ _)⟩
      | destroy c hconn hstep => exact ⟨_, hserver.snoc hstep, hsnoc hpast (hdestroy c)⟩
      | server _ _ hstep =>
          exact ⟨_, hserver.snoc hstep,
            hsnoc hpast (hlabels _ (List.mem_append_right _ (List.mem_singleton.2 rfl)))⟩
      | _ => exact ⟨serverLabels, hserver, hpast⟩

/-- No fd leaks from a server with threads, and none is closed twice.  In any run of the
server, with sockets accepted and destroyed and other fds opened and closed in between, the
server does no step that it could not do if the kernel's choice of fds were left to it; each
open fd belongs to one living connection alone, is one of the others, or has leaked, and the
fd of a living connection is open.  With threads none leaks; without, each socket that is
accepted does. -/
theorem fds_owned [LinearOrder H] (server : TcpServer) (name : List Char)
    (hashFunction : List Char → H) (numThreads : ℤ) (cb : Bool) (fds : Finset ℕ)
    (labels : List Label) (t : State H)
    (hrun : Run (Step server) (.start name hashFunction numThreads cb fds) labels t) :
    (∃ serverLabels, Run (Server.Step server) {} serverLabels t.server) ∧
      (∀ fd ∈ t.fds, fd ∉ t.others → fd ∉ t.leaked →
        ∃! c, ∃ k, t.server.conns c = some k ∧ k.alive = true ∧ k.tcp.channel.fd = fd) ∧
      t.others ∪ t.leaked ⊆ t.fds ∧ Disjoint t.others t.leaked ∧
      (∀ c k, t.server.conns c = some k → k.alive = true →
        k.tcp.channel.fd ∈ t.fds ∧ k.tcp.channel.fd ∉ t.others ∧ k.tcp.channel.fd ∉ t.leaked) ∧
      (0 < numThreads → t.leaked = ∅) ∧ (numThreads ≤ 0 → ∀ c, t.server.conns c = none) := by
  obtain ⟨h, serverLabels, hserver, -⟩ :=
    exists_server_run (fun _ => True) (fun _ _ => trivial) (fun _ => trivial) hrun
      fun _ _ => trivial
  refine ⟨⟨serverLabels, hserver⟩, fun fd hfd hother hleaked => ?_,
    fun fd hfd => (h.mem_fds_iff fd).2 (.inl hfd), h.others_disjoint, fun c k hconn halive => ?_,
    fun hthreads => leaked_eq_empty hthreads hrun, fun hthreads => conns_eq_none hthreads hrun⟩
  · have hnone : fd ∉ t.others ∪ t.leaked := by simp [hother, hleaked]
    obtain ⟨c, k, hconn, halive, rfl⟩ := ((h.mem_fds_iff fd).1 hfd).resolve_left hnone
    refine ⟨c, ⟨k, hconn, halive, rfl⟩, ?_⟩
    rintro d ⟨e, he, healive, heq⟩
    exact h.apart.distinct d c e k he hconn healive halive heq
  · have hholds : Holds t.server k.tcp.channel.fd := ⟨c, k, hconn, halive, rfl⟩
    exact ⟨(h.mem_fds_iff _).2 (.inr hholds),
      fun hother => h.disjoint _ (Finset.mem_union_left _ hother) hholds,
      fun hleaked => h.disjoint _ (Finset.mem_union_right _ hleaked) hholds⟩

/-- Two clients of one ip connect and are given the fds 5 and 6, while 3 is that of a file. -/
theorem run_accepting : ∃ (server : TcpServer) (labels : List Label)
    (t : State (Fin (2 ^ 64))), Run (Step server)
      (.start ['p'] RingConsistency.byLength 2 false {3}) labels t ∧
      t.peerAddrs = [⟨0x901F, #v[127, 0, 0, 1]⟩, ⟨0x911F, #v[127, 0, 0, 1]⟩] ∧
      t.fds = {6, 5, 3} ∧ t.others = {3} := by
  let server : TcpServer := .new ⟨0x901F, #v[0, 0, 0, 0]⟩ ['s'] false
  let start : State (Fin (2 ^ 64)) := .start ['p'] RingConsistency.byLength 2 false {3}
  let client : InetAddress := ⟨0x901F, #v[127, 0, 0, 1]⟩
  let other : InetAddress := ⟨0x911F, #v[127, 0, 0, 1]⟩
  obtain ⟨i, -, hget⟩ := EventLoopThreadPool.startedPool_lands none ['p']
    RingConsistency.byLength some false (show 0 < (2 : ℤ) by decide) client.toIp
  have hlistening : Run (Step server) start [.listen] { start with listenning := true } :=
    .single .listen
  have harrived := (hlistening.snoc (.arrive client rfl)).snoc (.arrive other rfl)
  have hrun := (harrived.snoc
    (.newConnection 5 rfl rfl rfl (show 5 ∉ {3} by decide) hget (by decide))).snoc
    (.newConnection 6 rfl rfl rfl (show 6 ∉ {5, 3} by decide) hget
      (show 2 < 2 ^ 31 - 1 by decide))
  exact ⟨_, _, _, hrun, rfl, rfl, rfl⟩

theorem fds_owned_first : ∃ t : State (Fin (2 ^ 64)), t.fds = {6, 5, 3} ∧
    ∀ fd ∈ ({5, 6} : Finset ℕ),
      ∃! c, ∃ k, t.server.conns c = some k ∧ k.alive = true ∧ k.tcp.channel.fd = fd := by
  obtain ⟨server, labels, t, hrun, -, hfds, hothers⟩ := run_accepting
  obtain ⟨-, howned, -, -, -, hleaked, -⟩ := fds_owned server _ _ 2 _ _ labels t hrun
  have hopen : ({5, 6} : Finset ℕ) ⊆ t.fds := hfds ▸ by decide
  have hother : Disjoint {5, 6} t.others := hothers ▸ by decide
  refine ⟨t, hfds, fun fd hfd => howned fd (hopen hfd) (Finset.disjoint_left.1 hother hfd) ?_⟩
  rw [hleaked (by decide)]
  exact Finset.notMem_empty fd

/-! ## The order of the connections -/

/-- The connections are those that came in first, in their order, each on the loop of its ip. -/
structure Ordered (threadPool : EventLoopThreadPool H (Option ℕ)) [LinearOrder H] (s : State H) :
    Prop where
  threadPool_eq : s.threadPool = threadPool
  arrived_eq : s.peerAddrs ++ s.backlog = s.arrived
  nextConnId_eq : s.server.nextConnId = s.peerAddrs.length + 1
  none : s.server.conns 0 = none
  loop_eq : ∀ i, (s.server.conns (i + 1)).map (fun k => landsOn threadPool k.loop) =
    s.peerAddrs[i]?.map fun peerAddr => threadPool.getNextLoop peerAddr.toIp

namespace Ordered

variable [LinearOrder H] {server : TcpServer} {threadPool : EventLoopThreadPool H (Option ℕ)}
  {s t : State H}

/-- The server takes a step that makes no connection. -/
theorem withServer (h : Ordered threadPool s) {u : Server.State}
    (hnext : u.nextConnId = s.server.nextConnId)
    (hloop : ∀ c, (u.conns c).map Conn.loop = (s.server.conns c).map Conn.loop)
    (fds : Finset ℕ) : Ordered threadPool { s with server := u, fds := fds } where
  threadPool_eq := h.threadPool_eq
  arrived_eq := h.arrived_eq
  nextConnId_eq := hnext.trans h.nextConnId_eq
  none := by
    have hzero := hloop 0
    rwa [h.none, Option.map_none, Option.map_eq_none_iff] at hzero
  loop_eq := by
    intro i
    have hmap := congrArg (Option.map (landsOn threadPool)) (hloop (i + 1))
    rw [Option.map_map, Option.map_map] at hmap
    exact hmap.trans (h.loop_eq i)

theorem step (h : Ordered threadPool s)
    (hlands : ∀ key, ∃ i, threadPool.getNextLoop key = landsOn threadPool i)
    {label : Label} (hstep : Step server s label t) : Ordered threadPool t := by
  cases hstep with
  | listen => exact ⟨h.threadPool_eq, h.arrived_eq, h.nextConnId_eq, h.none, h.loop_eq⟩
  | arrive peerAddr hlisten =>
      refine ⟨h.threadPool_eq, ?_, h.nextConnId_eq, h.none, h.loop_eq⟩
      rw [← h.arrived_eq, List.append_assoc]
  | acceptError hbase hlisten => exact h
  | @newConnection connfd peerAddr rest loop texts pool hbase hlisten hbacklog hfd hloop hid =>
      obtain ⟨i, hget⟩ := hlands peerAddr.toIp
      rw [h.threadPool_eq, hget, landsOn, Except.ok.injEq, Prod.mk.injEq, Prod.mk.injEq,
        Option.some.injEq] at hloop
      obtain ⟨rfl, rfl, rfl⟩ := hloop
      have hnext := h.nextConnId_eq
      have hself := Server.State.newConnection_conns_self s.server server i connfd
      have hother {c : ℕ} (hc : c ≠ s.server.nextConnId) :
          (s.server.newConnection server i connfd).conns c = s.server.conns c :=
        Server.State.newConnection_conns_of_ne s.server server c i connfd hc
      refine ⟨rfl, ?_, ?_, (hother (by omega)).trans h.none, fun j => ?_⟩
      · rw [List.append_assoc, ← h.arrived_eq, hbacklog]
        rfl
      · rw [List.length_append, List.length_singleton, ← hnext]
        rfl
      -- the connections before the new one, the new one, and those that do not exist yet
      · rcases lt_trichotomy j s.peerAddrs.length with hj | rfl | hj
        · rw [hother (by omega), List.getElem?_append_left hj]
          exact h.loop_eq j
        · rw [← hnext, hself, List.getElem?_concat_length]
          exact congrArg some hget.symm
        · have hpast : (s.peerAddrs ++ [peerAddr])[j]? = Option.none := by
            rw [List.getElem?_eq_none_iff, List.length_append, List.length_singleton]
            exact hj
          have hbefore : s.peerAddrs[j]? = Option.none := List.getElem?_eq_none_iff.2 hj.le
          rw [hother (by omega), hpast, ← hbefore]
          exact h.loop_eq j
  -- the ring is not empty
  | @newConnectionThrows connfd peerAddr rest error hbase hlisten hbacklog hfd hthrows =>
      obtain ⟨i, hget⟩ := hlands peerAddr.toIp
      rw [h.threadPool_eq, hget] at hthrows
      cases hthrows
  | @destroy c k u hconn hstep =>
      cases hstep with
      | @destroy _ e he halive hexpired =>
          refine h.withServer (u := (s.server.setConn c { e with alive := false }).setPoller e.loop
            (Server.closeFd (s.server.io e.loop).poller e.tcp.channel.fd)) rfl (fun d => ?_) _
          by_cases hd : d = c
          · subst hd
            have hself := Server.State.setConn_conns_self s.server d { e with alive := false }
            rw [he]
            refine (congrArg (Option.map Conn.loop) hself).trans ?_
            rfl
          · exact congrArg (Option.map Conn.loop)
              (Server.State.setConn_conns_of_ne s.server c d _ hd)
  | openFile fd hfd => exact ⟨h.threadPool_eq, h.arrived_eq, h.nextConnId_eq, h.none, h.loop_eq⟩
  | closeFile fd hfd => exact ⟨h.threadPool_eq, h.arrived_eq, h.nextConnId_eq, h.none, h.loop_eq⟩
  | @server label u hnew hdestroy hstep =>
      have hkeeps := Keeps.of_step hstep hnew hdestroy
      refine h.withServer hkeeps.nextConnId_eq (fun c => ?_) s.fds
      have hplace := congrArg (Option.map Prod.fst) (hkeeps.place_eq c)
      rwa [Option.map_map, Option.map_map] at hplace

theorem run {name : List Char} {hashFunction : List Char → H} {numThreads : ℤ} {cb : Bool}
    {fds : Finset ℕ} (hthreads : 0 < numThreads) {labels : List Label}
    (hrun : Run (Step server) (.start name hashFunction numThreads cb fds) labels t) :
    Ordered (.startedPool Option.none name hashFunction numThreads some cb) t := by
  refine hrun.invariant ⟨rfl, rfl, rfl, rfl, fun _ => rfl⟩ fun _ _ _ h hstep => h.step ?_ hstep
  intro key
  obtain ⟨i, -, hget⟩ := EventLoopThreadPool.startedPool_lands Option.none name hashFunction some
    cb hthreads key
  exact ⟨i, hget⟩

end Ordered

/-- Connections are made in the order in which they came in, none is left out, and all from
one address go to one loop.  In any run of a server with threads the connections made and
those that still wait are all that came in, in this order; the `i`-th has the number `i + 1`,
from the first to the last, and stays on the loop of a thread that the ring assigns to its
address.  A waiting connection can be accepted whenever the base loop handles events, with
any fd that is not open. -/
theorem accepted_in_order [LinearOrder H] (server : TcpServer) (name : List Char)
    (hashFunction : List Char → H) (numThreads : ℤ) (cb : Bool) (fds : Finset ℕ)
    (hthreads : 0 < numThreads) (labels : List Label) (t : State H)
    (hrun : Run (Step server) (.start name hashFunction numThreads cb fds) labels t) :
    t.peerAddrs ++ t.backlog = t.arrived ∧
      (∀ c, t.server.conns c ≠ none ↔ 1 ≤ c ∧ c ≤ t.peerAddrs.length) ∧
      (∀ i k peerAddr, t.server.conns (i + 1) = some k → t.peerAddrs[i]? = some peerAddr →
        k.name = server.connName (i + 1) ∧ k.loop < numThreads.toNat ∧
          t.threadPool.getNextLoop peerAddr.toIp = landsOn t.threadPool k.loop) ∧
      (∀ i j k e peerAddr peerAddr', t.server.conns (i + 1) = some k →
        t.server.conns (j + 1) = some e → t.peerAddrs[i]? = some peerAddr →
        t.peerAddrs[j]? = some peerAddr' → peerAddr.sin_addr = peerAddr'.sin_addr →
        k.loop = e.loop) ∧
      (t.listenning = true → t.server.base.calling = false → t.backlog ≠ [] →
        t.server.nextConnId < 2 ^ 31 - 1 → ∀ connfd ∉ t.fds,
          ∃ u, Step server t (.handleRead (some connfd)) u ∧
            u.server.conns t.server.nextConnId ≠ none) := by
  set threadPool := EventLoopThreadPool.startedPool none name hashFunction numThreads some cb
  have hlands (key : List Char) :
      ∃ i < numThreads.toNat, threadPool.getNextLoop key = landsOn threadPool i :=
    EventLoopThreadPool.startedPool_lands none name hashFunction some cb hthreads key
  have h : Ordered threadPool t := .run hthreads hrun
  have hwf : Server.WellFormed server t.server :=
    (hrun.invariant (P := Owns server) (.start name hashFunction numThreads cb fds)
      fun _ _ _ howns hstep => howns.step hstep).wellFormed
  -- the entry of `Ordered` for a connection that exists
  have hloop {i : ℕ} {k : Conn} {peerAddr : InetAddress} (hconn : t.server.conns (i + 1) = some k)
      (hpeer : t.peerAddrs[i]? = some peerAddr) :
      threadPool.getNextLoop peerAddr.toIp = landsOn threadPool k.loop := by
    have heq := h.loop_eq i
    rw [hconn, hpeer, Option.map_some, Option.map_some, Option.some.injEq] at heq
    exact heq.symm
  refine ⟨h.arrived_eq, ?_, ?_, ?_, ?_⟩
  · intro c
    cases c with
    | zero => simp [h.none]
    | succ i =>
        have heq := congrArg Option.isSome (h.loop_eq i)
        rw [Option.isSome_map, Option.isSome_map] at heq
        rw [← Option.isSome_iff_ne_none, heq, Option.isSome_iff_ne_none, ne_eq,
          List.getElem?_eq_none_iff]
        omega
  · intro i k peerAddr hconn hpeer
    obtain ⟨j, hj, hget⟩ := hlands peerAddr.toIp
    have hsame : k.loop = j := landsOn_inj ((hloop hconn hpeer).symm.trans hget)
    exact ⟨(hwf.conns _ k hconn).2, hsame ▸ hj, h.threadPool_eq ▸ hloop hconn hpeer⟩
  · intro i j k e peerAddr peerAddr' hconn hconn' hpeer hpeer' haddr
    have hip : peerAddr.toIp = peerAddr'.toIp := by rw [InetAddress.toIp, haddr, InetAddress.toIp]
    have hsame : landsOn threadPool k.loop = landsOn threadPool e.loop := by
      rw [← hloop hconn hpeer, hip, hloop hconn' hpeer']
    exact landsOn_inj hsame
  · intro hlisten hbase hsome hid connfd hfd
    obtain ⟨peerAddr, rest, hbacklog⟩ := List.exists_cons_of_ne_nil hsome
    obtain ⟨i, -, hget⟩ := hlands peerAddr.toIp
    rw [← h.threadPool_eq] at hget
    refine ⟨_, .newConnection connfd hbase hlisten hbacklog hfd hget hid, ?_⟩
    simp

/-- The clients have connections 1 and 2, there is no other, and they share a loop. -/
theorem accepted_in_order_first : ∃ (t : State (Fin (2 ^ 64))) (k e : Conn),
    t.server.conns 1 = some k ∧ t.server.conns 2 = some e ∧ t.server.conns 3 = none ∧
      k.loop = e.loop ∧ t.peerAddrs ++ t.backlog = t.arrived := by
  obtain ⟨server, labels, t, hrun, hpeers, -, -⟩ := run_accepting
  obtain ⟨harrived, hconns, -, hshared, -⟩ :=
    accepted_in_order server _ _ 2 _ _ (by decide) labels t hrun
  have hlength : t.peerAddrs.length = 2 := by rw [hpeers]; rfl
  obtain ⟨k, hk⟩ := Option.ne_none_iff_exists'.1 ((hconns 1).2 (by omega))
  obtain ⟨e, he⟩ := Option.ne_none_iff_exists'.1 ((hconns 2).2 (by omega))
  refine ⟨t, k, e, hk, he, ?_, ?_, harrived⟩
  · by_contra hthird
    have hle := ((hconns 3).1 hthird).2
    omega
  · have hfirst : t.peerAddrs[0]? = some ⟨0x901F, #v[127, 0, 0, 1]⟩ := by rw [hpeers]; rfl
    have hsecond : t.peerAddrs[1]? = some ⟨0x911F, #v[127, 0, 0, 1]⟩ := by rw [hpeers]; rfl
    exact hshared 0 1 k e _ _ hk he hfirst hsecond rfl

end Acceptor

end MuduoLite
