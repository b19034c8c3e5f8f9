import MuduoLite.Server.Methods
import MuduoLite.Server.Ownership

/-!
# The stages of a connection

A connection is new until the functor of `newConnection` has established it, is
then open, closes when a callback reports so, and is done when the first
`connectDestroyed` has run.  `Stage` says for each of these what waits in which
queue: one `connectEstablished` while it is new and none afterwards, no removal
before it has closed, and, until it is done, an entry in the map or a removal that
waits.

A step moves at most one connection on, the one it is about; for the others the
lemmas say that what waits for them is the same as before.
-/

namespace MuduoLite

namespace Server

open ConnState EPollPoller State Transition

/-! ## Stages -/

/-- A functor that removes `c` waits in the base loop or in the loop of `c`. -/
def Closing (s : State) (c : ℕ) (k : Conn) : Prop :=
  c ∈ s.base.functors.waiting ∨ .connectDestroyed c ∈ (s.io k.loop).functors.waiting

structure Stage (s : State) (c : ℕ) (k : Conn) : Prop where
  fresh : k.established = false →
    k.tcp.state = .kConnecting ∧ k.tcp.channel.index = .kNew ∧ k.destroyed = false
  opening : (s.io k.loop).functors.waiting.count (.connectEstablished c) =
    if k.established then 0 else 1
  closing : Closing s c k → k.established = true ∧ k.tcp.state = .kDisconnected
  kept : k.destroyed = false → s.connections k.name = some c ∨ Closing s c k
  done : k.destroyed = true → k.tcp.state = .kDisconnected ∧ k.tcp.channel.index = .kNew

namespace Stage

variable {s t : State} {c d : ℕ} {k e : Conn}

theorem congr (h : Stage s c k)
    (hmap : s.connections k.name = some c → t.connections k.name = some c)
    (hopening : (t.io k.loop).functors.waiting.count (.connectEstablished c) =
      (s.io k.loop).functors.waiting.count (.connectEstablished c))
    (hclosing : Closing t c k ↔ Closing s c k) : Stage t c k where
  fresh := h.fresh
  opening := hopening.trans h.opening
  closing := fun hc => h.closing (hclosing.1 hc)
  kept := fun hdone => (h.kept hdone).imp hmap hclosing.2
  done := h.done

/-- Nothing starts or stops waiting. -/
theorem of_waiting (h : Stage s c k) (hconnections : t.connections = s.connections)
    (hbase : t.base.functors.waiting = s.base.functors.waiting)
    (hio : ∀ loop, (t.io loop).functors.waiting = (s.io loop).functors.waiting) :
    Stage t c k := by
  refine h.congr (fun hmap => by rwa [hconnections]) (by rw [hio]) ?_
  rw [Closing, Closing, hbase, hio]

theorem setLoop (h : Stage s c k) {loop : ℕ} {l : IoLoop}
    (hwaiting : l.functors.waiting = (s.io loop).functors.waiting) :
    Stage (s.setLoop loop l) c k := by
  refine h.of_waiting rfl rfl fun other => ?_
  by_cases hother : other = loop
  · subst hother
    rwa [setLoop_io_self]
  · rw [setLoop_io_of_ne _ _ _ _ hother]

theorem setBase (h : Stage s c k) {base : BaseLoop}
    (hwaiting : base.functors.waiting = s.base.functors.waiting) :
    Stage (s.setBase base) c k := h.of_waiting rfl hwaiting fun _ => rfl

/-- The stage of a connection does not depend on whether it is alive. -/
theorem destroy (h : Stage s c k) : Stage s c { k with alive := false } :=
  ⟨h.fresh, h.opening, h.closing, h.kept, h.done⟩

theorem setConn (h : Stage s c k) (d : ℕ) (e : Conn) : Stage (s.setConn d e) c k :=
  h.of_waiting rfl rfl fun _ => rfl

/-! ### Methods -/

section OnConn

variable (s c d k e) (method : ConnState → ConnState)

theorem count_onConn (loop : ℕ) :
    ((s.onConn c k method).io loop).functors.waiting.count (.connectEstablished d) =
      (s.io loop).functors.waiting.count (.connectEstablished d) := by
  by_cases hloop : loop = k.loop
  · subst hloop
    rw [onConn_io_self, BatchQueue.waiting_enqueue, List.count_append, Nat.add_eq_left,
      List.count_eq_zero]
    simp
  · rw [onConn_io_of_ne _ _ _ _ _ hloop]

/-- A method adds to the removals those that it reports itself. -/
theorem closing_onConn : Closing (s.onConn c k method) d e ↔
    Closing s d e ∨ (d = c ∧ .closeCallback ∈ (method (s.connState c k)).effects) := by
  have hbase : d ∈ (s.onConn c k method).base.functors.waiting ↔
      d ∈ s.base.functors.waiting ∨
        (d = c ∧ .closeCallback ∈ (method (s.connState c k)).effects) := by
    rw [onConn_base, BatchQueue.waiting_enqueue, List.mem_append, List.mem_replicate, ne_eq,
      List.count_eq_zero, not_not, and_comm (a := d = c)]
  have hio : .connectDestroyed d ∈ ((s.onConn c k method).io e.loop).functors.waiting ↔
      .connectDestroyed d ∈ (s.io e.loop).functors.waiting := by
    by_cases hloop : e.loop = k.loop
    · rw [hloop, onConn_io_self, BatchQueue.waiting_enqueue, List.mem_append]
      simp
    · rw [onConn_io_of_ne _ _ _ _ _ hloop]
  rw [Closing, Closing, hbase, hio]
  tauto

end OnConn

variable {method : ConnState → ConnState}

/-- The stage of another connection. -/
theorem onConn_of_ne (h : Stage s d e) (hd : d ≠ c) : Stage (s.onConn c k method) d e := by
  refine h.congr id (count_onConn s c d k method e.loop) ?_
  rw [closing_onConn]
  exact or_iff_left fun hclose => hd hclose.1

theorem onConn_of_self (hothers : ∀ d e, d ≠ c → s.conns d = some e → Stage s d e)
    (hself : Stage (s.onConn c k method) c { k with tcp := (method (s.connState c k)).conn })
    (he : (s.onConn c k method).conns d = some e) : Stage (s.onConn c k method) d e := by
  by_cases hd : d = c
  · subst hd
    rw [onConn_conns_self, Option.some.injEq] at he
    exact he ▸ hself
  · rw [onConn_conns_of_ne _ _ _ _ _ hd] at he
    exact (hothers d e hd he).onConn_of_ne hd

/-- A method on an open connection; where it reports a close it leaves `kDisconnected`. -/
theorem onConn_open (h : Stage s c k) (hestablished : k.established = true)
    (hdestroyed : k.destroyed = false)
    (hclosed : k.tcp.state = .kDisconnected ∨
      .closeCallback ∈ (method (s.connState c k)).effects →
        (method (s.connState c k)).conn.state = .kDisconnected) :
    Stage (s.onConn c k method) c { k with tcp := (method (s.connState c k)).conn } where
  fresh := fun hfresh => absurd (hestablished.symm.trans hfresh) (by simp)
  opening := (count_onConn s c c k method k.loop).trans h.opening
  closing := by
    intro hc
    refine ⟨hestablished, hclosed ?_⟩
    rcases (closing_onConn _ _ _ _ _ _).1 hc with hold | hnew
    · exact .inl (h.closing hold).2
    · exact .inr hnew.2
  kept := fun _ => (h.kept hdestroyed).imp id fun hc => (closing_onConn _ _ _ _ _ _).2 (.inl hc)
  done := fun hdone => absurd (hdestroyed.symm.trans hdone) (by simp)

/-- A method that does nothing to the state and the registration. -/
theorem onConn_idle (h : Stage s c k)
    (hstate : (method (s.connState c k)).conn.state = k.tcp.state)
    (hindex : (method (s.connState c k)).conn.channel.index = k.tcp.channel.index)
    (hsilent : .closeCallback ∉ (method (s.connState c k)).effects) :
    Stage (s.onConn c k method) c { k with tcp := (method (s.connState c k)).conn } := by
  have hclosing : ∀ e, Closing (s.onConn c k method) c e ↔ Closing s c e := fun e =>
    (closing_onConn _ _ _ _ _ _).trans (or_iff_left fun hclose => hsilent hclose.2)
  exact {
    fresh := fun hfresh => ⟨hstate.trans (h.fresh hfresh).1, hindex.trans (h.fresh hfresh).2.1,
      (h.fresh hfresh).2.2⟩
    opening := (count_onConn s c c k method k.loop).trans h.opening
    closing := fun hc => ⟨(h.closing ((hclosing _).1 hc)).1,
      hstate.trans (h.closing ((hclosing _).1 hc)).2⟩
    kept := fun hdone => (h.kept hdone).imp id (hclosing _).2
    done := fun hdone => ⟨hstate.trans (h.done hdone).1, hindex.trans (h.done hdone).2⟩ }

/-- A call of the user: it does something in state `kConnected` only, and in this
state the connection is open. -/
theorem onConn_call (h : Stage s c k) (call : UserCall) :
    Stage (s.onConn c k call.run) c { k with tcp := (call.run (s.connState c k)).conn } := by
  have hsilent : .closeCallback ∉ (call.run (s.connState c k)).effects := fun hmem =>
    absurd (call.silent_run _ hmem) List.not_mem_nil
  by_cases hstate : k.tcp.state = .kConnected
  · refine h.onConn_open ?_ ?_ ?_
    · by_contra hfresh
      have := (h.fresh (by simpa using hfresh)).1
      simp [hstate] at this
    · by_contra hdone
      have := (h.done (by simpa using hdone)).1
      simp [hstate] at this
    · rintro (hclosed | hclose)
      · simp [hstate] at hclosed
      · exact absurd hclose hsilent
  · obtain ⟨hsame, hchannel⟩ := call.run_of_ne (s := s.connState c k) hstate
    exact h.onConn_idle hsame (by rw [hchannel]; rfl) hsilent

/-! ### Functors -/

/-- The functor at the head of the queue no longer waits once it is taken out. -/
theorem waiting_popped {functor : IoFunctor} {rest : List IoFunctor} {loop : ℕ}
    (htodo : (s.io loop).functors.todo = functor :: rest) :
    (s.io loop).functors.waiting = functor ::
      ((s.popFunctor loop).io loop).functors.waiting := by
  rw [State.popFunctor, setLoop_io_self]
  exact BatchQueue.waiting_advance _ htodo

/-- A functor is taken out of the queue. -/
theorem popFunctor (h : Stage s c k) {loop : ℕ} {functor : IoFunctor} {rest : List IoFunctor}
    (htodo : (s.io loop).functors.todo = functor :: rest)
    (hopening : functor ≠ .connectEstablished c) (hclosing : functor ≠ .connectDestroyed c) :
    Stage (s.popFunctor loop) c k := by
  have hwaiting := waiting_popped htodo
  by_cases hloop : k.loop = loop
  · subst hloop
    refine h.congr id ?_ ?_
    · rw [hwaiting, List.count_cons_of_ne hopening]
    · rw [Closing, Closing, hwaiting, List.mem_cons]
      exact or_congr .rfl (or_iff_right fun heq => hclosing heq.symm).symm
  · refine h.congr id ?_ ?_
    · rw [State.popFunctor, setLoop_io_of_ne _ _ _ _ hloop]
    · rw [Closing, Closing, State.popFunctor, setLoop_io_of_ne _ _ _ _ hloop]
      rfl

/-- `connectEstablished` runs once, on a new connection. -/
theorem onConn_connectEstablished (h : Stage s c k) {rest : List IoFunctor}
    (htodo : (s.io k.loop).functors.todo = .connectEstablished c :: rest) {popped : State}
    (hpopped : popped = s.popFunctor k.loop) {k' : Conn}
    (hk' : k' = { k with established := true }) :
    Stage (popped.onConn c k' ConnState.connectEstablished) c
      { k' with tcp := (popped.connState c k').connectEstablished.conn } := by
  subst hpopped hk'
  have hopening := h.opening
  -- the functor itself is the one that waits, so the connection is new
  rw [waiting_popped htodo, List.count_cons_self] at hopening
  have hfresh : k.established = false := by
    rcases Bool.eq_false_or_eq_true k.established with htrue | hfalse
    · simp [htrue] at hopening
    · exact hfalse
  obtain ⟨hstate, -, hdestroyed⟩ := h.fresh hfresh
  have hclosing : ¬ Closing s c k := fun hc =>
    Bool.false_ne_true (hfresh.symm.trans (h.closing hc).1)
  refine onConn_open ⟨nofun, ?_, ?_, ?_, ?_⟩ rfl hdestroyed ?_
  · simpa [hfresh] using hopening
  · rintro (hbase | hio)
    · exact absurd (.inl hbase) hclosing
    · refine absurd (.inr ?_) hclosing
      rw [waiting_popped htodo]
      exact List.mem_cons_of_mem _ hio
  · exact fun _ => (h.kept hdestroyed).imp id fun hc => absurd hc hclosing
  · exact fun hdone => absurd (hdestroyed.symm.trans hdone) (by simp)
  · rintro (hclosed | hclose)
    · exact absurd (hstate.symm.trans hclosed) (by simp)
    · exact absurd (silent_connectEstablished _ hclose) List.not_mem_nil

/-- The first `connectDestroyed` runs after the close. -/
theorem onConn_connectDestroyed (h : Stage s c k) {rest : List IoFunctor}
    (htodo : (s.io k.loop).functors.todo = .connectDestroyed c :: rest) {popped : State}
    (hpopped : popped = s.popFunctor k.loop) {k' : Conn}
    (hk' : k' = { k with destroyed := true }) :
    Stage (popped.onConn c k' ConnState.connectDestroyed) c
      { k' with tcp := (popped.connState c k').connectDestroyed.conn } := by
  subst hpopped hk'
  have hwaiting := waiting_popped htodo
  obtain ⟨hestablished, hstate⟩ := h.closing (.inr (by rw [hwaiting]; exact List.mem_cons_self))
  have hdone := connectDestroyed_of_closed
    (s := (s.popFunctor k.loop).connState c { k with destroyed := true }) hstate
  refine ⟨fun hfresh => ?_, ?_, fun _ => ⟨hestablished, hdone.1⟩, nofun, fun _ => hdone⟩
  · exact absurd (hestablished.symm.trans hfresh) (by simp)
  · rw [count_onConn, ← h.opening, hwaiting, List.count_cons_of_ne (by simp)]

/-! ### The base loop -/

section Base

variable {server : TcpServer}

theorem newConnection_of_ne (h : Stage s d e) (hd : d ≠ s.nextConnId)
    (hname : e.name ≠ server.connName s.nextConnId) (loop fd : ℕ) :
    Stage (s.newConnection server loop fd) d e := by
  refine h.congr (fun hmap => (Function.update_of_ne hname _ _).trans hmap) ?_ ?_
  · by_cases hloop : e.loop = loop
    · rw [hloop, newConnection_io_self, BatchQueue.waiting_enqueue, List.count_append,
        Nat.add_eq_left, List.count_singleton, if_neg (by simpa using Ne.symm hd)]
    · rw [newConnection_io_of_ne _ _ _ _ _ hloop]
  · refine or_congr .rfl ?_
    by_cases hloop : e.loop = loop
    · rw [hloop, newConnection_io_self, BatchQueue.waiting_enqueue, List.mem_append]
      simp
    · rw [newConnection_io_of_ne _ _ _ _ _ hloop]

/-- The new connection: its only functor is the one that establishes it. -/
theorem newConnection_self (hwf : WellFormed server s) (loop fd : ℕ) :
    Stage (s.newConnection server loop fd) s.nextConnId
      (.new server loop fd s.nextConnId) := by
  have hnew := hwf.conns_nextConnId
  have hunknown : ∀ functor ∈ (s.io loop).functors.waiting, functor.conn ≠ s.nextConnId := by
    intro functor hmem heq
    obtain ⟨k, hk, -⟩ := hwf.functors loop functor (BatchQueue.mem_held_of_mem_waiting hmem)
    rw [heq, hnew] at hk
    nomatch hk
  refine ⟨fun _ => ⟨rfl, rfl, rfl⟩, ?_, ?_, fun _ => .inl (Function.update_self _ _ _), nofun⟩
  · show ((s.newConnection server loop fd).io loop).functors.waiting.count _ = 1
    rw [newConnection_io_self, BatchQueue.waiting_enqueue, List.count_append,
      List.count_singleton_self, Nat.add_eq_right, List.count_eq_zero]
    exact fun hmem => hunknown _ hmem rfl
  · rintro (hbase | hio)
    · obtain ⟨k, hk, -⟩ := hwf.owned _ (.base (BatchQueue.mem_held_of_mem_waiting hbase))
      rw [hnew] at hk
      nomatch hk
    · replace hio : IoFunctor.connectDestroyed s.nextConnId ∈
        ((s.newConnection server loop fd).io loop).functors.waiting := hio
      rw [newConnection_io_self, BatchQueue.waiting_enqueue, List.mem_append] at hio
      rcases hio with hold | hnew'
      · exact absurd rfl (hunknown _ hold)
      · simp at hnew'

/-- `removeConnectionInLoop` hands the removal on to the loop of the connection. -/
theorem removeConnectionInLoop_self (h : Stage s c k) {rest : List ℕ}
    (htodo : s.base.functors.todo = c :: rest) :
    Stage (s.popBase.removeConnectionInLoop c k) c k := by
  have hclosing : Closing s c k := .inl (by
    rw [BatchQueue.waiting_advance _ htodo]
    exact List.mem_cons_self)
  refine ⟨h.fresh, ?_, fun _ => h.closing hclosing, fun _ => .inr (.inr ?_), h.done⟩
  · rw [removeConnectionInLoop_io_self, BatchQueue.waiting_enqueue, List.count_append, ← h.opening]
    simp
  · rw [removeConnectionInLoop_io_self, BatchQueue.waiting_enqueue]
    exact List.mem_append_right _ (List.mem_singleton.2 rfl)

theorem removeConnectionInLoop_of_ne (h : Stage s d e) {rest : List ℕ}
    (htodo : s.base.functors.todo = c :: rest) (hd : d ≠ c) (hname : e.name ≠ k.name) :
    Stage (s.popBase.removeConnectionInLoop c k) d e := by
  refine h.congr (fun hmap => (Function.update_of_ne hname _ _).trans hmap) ?_ (or_congr ?_ ?_)
  · by_cases hloop : e.loop = k.loop
    · rw [hloop, removeConnectionInLoop_io_self, BatchQueue.waiting_enqueue, List.count_append]
      simp
    · rw [removeConnectionInLoop_io_of_ne _ _ _ _ hloop]
      rfl
  · rw [BatchQueue.waiting_advance _ htodo, List.mem_cons]
    exact (or_iff_right hd).symm
  · by_cases hloop : e.loop = k.loop
    · rw [hloop, removeConnectionInLoop_io_self, BatchQueue.waiting_enqueue, List.mem_append]
      simp [hd]
    · rw [removeConnectionInLoop_io_of_ne _ _ _ _ hloop]
      rfl

end Base

end Stage

end Server

end MuduoLite
