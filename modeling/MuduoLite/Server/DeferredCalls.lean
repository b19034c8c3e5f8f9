import MuduoLite.Server.Methods
import MuduoLite.Server.Ownership

/-!
# Deferred calls and the connections they work on

A functor in the queue of an I/O loop works on a connection.  Most functors bind
a `TcpConnectionPtr`: those of `newConnection` and `removeConnectionInLoop`, of
`sendFile`, and of the write-complete and high-water-mark notifications.  Those
of `send` and `shutdown` bind the bare `this`; nothing else in the queue need
keep the connection until they run.

While the thread that called `send` keeps its pointer the connection stays.  After
that it stays as long as a functor is `Covered`: the connection is still in the
map, its removal is still waiting in the base loop, or an owner stands behind
every raw functor in the queue.  The three follow one another without a gap,
since `removeConnectionInLoop` takes the connection out of the map only to queue
`connectDestroyed` behind everything that waits.  A functor that runs stays at the
head of the batch until its end, so all of this is about it as well.

So one kind of step decides: a thread drops the last pointer that user code holds
while a raw functor waits or runs that is not covered.  In runs without such a step
the connection of a functor is not destroyed before the functor has come to its end
(`deferred_calls_alive`).  The step does occur: a thread tests the state of a
connection, the connection is closed and removed, and the thread queues its
functor when `connectDestroyed` is already running (`deferred_send_dangles`).  The
connection is then destroyed before the functor starts, or while it runs
(`exists_dangling`).
-/

namespace MuduoLite

namespace Server

open ConnState State Transition

/-! ## Raw functors and their cover -/

/-- A functor that works on `c` and does not own it. -/
def Raw (c : ℕ) (functor : IoFunctor) : Prop := functor.conn = c ∧ functor.owns = false

/-- A functor that owns `c`. -/
def Owner (c : ℕ) (functor : IoFunctor) : Prop := functor.conn = c ∧ functor.owns = true

/-- Every raw functor about `c` that waits or runs has an owner of `c` until its end. -/
inductive Covered (s : State) (c : ℕ) : Prop
  | connections {name : List Char} (h : s.connections name = some c)
  | removal (h : c ∈ s.base.functors.waiting)
  | queue (h : ∀ loop, (s.io loop).functors.KeptBy (Raw c) (Owner c))

/-- User code holds a pointer to `c`. -/
def UserHeld (s : State) (c : ℕ) : Prop := 0 < s.userRefs c ∨ ∃ pending, (c, pending) ∈ s.calls

/-- Nobody gives up the last pointer that user code holds while a raw functor
about the connection waits or runs that is not covered. -/
def ReleasesCovered (s : State) (label : Label) : Prop :=
  ∀ c, label = .release c → s.userRefs c = 1 → (∀ pending, (c, pending) ∉ s.calls) → Covered s c

/-- What keeps `c` for the raw functors about it. -/
def Protected (s : State) (c : ℕ) : Prop := UserHeld s c ∨ Covered s c

theorem Covered.imp {s t : State} {c : ℕ} (h : Covered s c)
    (hconnections : ∀ name, s.connections name = some c → t.connections name = some c)
    (hremoval : c ∈ s.base.functors.waiting → c ∈ t.base.functors.waiting)
    (hqueue : ∀ loop, (s.io loop).functors.KeptBy (Raw c) (Owner c) →
      (t.io loop).functors.KeptBy (Raw c) (Owner c)) : Covered t c := by
  cases h with
  | connections h => exact .connections (hconnections _ h)
  | removal h => exact .removal (hremoval h)
  | queue h => exact .queue fun loop => hqueue loop (h loop)

namespace Protected

variable {s : State} {c : ℕ}

theorem setConn (h : Protected s c) (d : ℕ) (k : Conn) : Protected (s.setConn d k) c :=
  h.imp id fun hcovered => hcovered.imp (fun _ => id) id fun _ => id

theorem setLoop (h : Protected s c) {loop : ℕ} {l : IoLoop}
    (hkept : (s.io loop).functors.KeptBy (Raw c) (Owner c) →
      l.functors.KeptBy (Raw c) (Owner c)) : Protected (s.setLoop loop l) c := by
  refine h.imp id fun hcovered => hcovered.imp (fun _ => id) id fun other => ?_
  by_cases hother : other = loop
  · subst hother
    rwa [setLoop_io_self]
  · rw [setLoop_io_of_ne _ _ _ _ hother]
    exact id

theorem setPoller (h : Protected s c) (loop : ℕ) (poller : EPollPoller) :
    Protected (s.setPoller loop poller) c := h.setLoop fun hkept => hkept

theorem queueInLoop (h : Protected s c) (loop : ℕ) {functors : List IoFunctor}
    (hnone : ∀ functor ∈ functors, ¬ Raw c functor) :
    Protected (s.queueInLoop loop functors) c :=
  h.setLoop fun hkept => hkept.enqueue hnone

theorem setBase (h : Protected s c) {base : BaseLoop}
    (hwaiting : c ∈ s.base.functors.waiting → c ∈ base.functors.waiting) :
    Protected (s.setBase base) c :=
  h.imp id fun hcovered => hcovered.imp (fun _ => id) hwaiting fun _ => id

/-- The methods of a connection only queue owners. -/
theorem onConn (h : Protected s c) (d : ℕ) (k : Conn) {method : ConnState → ConnState}
    (howners : ∀ start, QueuesOwners start (method start)) :
    Protected (s.onConn d k method) c := by
  have hran := (h.setConn d { k with tcp := (method (s.connState d k)).conn }).setPoller k.loop
    (method (s.connState d k)).poller
  refine (hran.queueInLoop k.loop ?_).setBase ?_
  · intro functor hmem hraw
    obtain ⟨queued, hqueued, rfl⟩ := List.mem_map.1 hmem
    rcases howners _ queued hqueued with hold | howns
    · exact List.not_mem_nil hold
    · exact Bool.false_ne_true (hraw.2.symm.trans howns)
  · intro hmem
    rw [BatchQueue.waiting_enqueue]
    exact List.mem_append_left _ hmem

theorem setConnections (h : Protected s c) (nextConnId : ℕ) {connections : List Char → Option ℕ}
    (hkept : ∀ name, s.connections name = some c → connections name = some c) :
    Protected { s with nextConnId := nextConnId, connections := connections } c :=
  h.imp id fun hcovered => hcovered.imp hkept id fun _ => id

/-- The pointers of user code change; where it has none left the connection is covered. -/
theorem setUsers (h : Protected s c) {userRefs : ℕ → ℕ} {calls : List (ℕ × Pending)}
    (husers : UserHeld s c → UserHeld { s with userRefs := userRefs, calls := calls } c ∨
      Covered s c) : Protected { s with userRefs := userRefs, calls := calls } c := by
  have hcovered : Covered s c → Protected { s with userRefs := userRefs, calls := calls } c :=
    fun hcovered => .inr (hcovered.imp (fun _ => id) id fun _ => id)
  exact h.elim (fun huser => (husers huser).elim .inl hcovered) hcovered

end Protected

/-! ## Steps -/

variable {server : TcpServer} {s t : State}

/-- The new connection has an entry of its own in the map. -/
theorem protected_newConnection (hwf : WellFormed server s) (hid : s.nextConnId < 2 ^ 31 - 1)
    (h : ∀ c, Protected s c) (loop fd c : ℕ) :
    Protected (s.newConnection server loop fd) c := by
  refine Protected.queueInLoop (Protected.setConn ?_ _ _) loop ?_
  · by_cases hc : c = s.nextConnId
    · subst hc
      exact .inr (.connections (Function.update_self _ _ _))
    · refine (h c).setConnections _ fun name hname => ?_
      have hother := hwf.connections_ne hname (hid.trans (by decide)) hc
      rwa [Function.update_of_ne hother]
  · intro functor hmem hraw
    rw [List.mem_singleton.1 hmem] at hraw
    exact absurd hraw.2 (by simp [IoFunctor.owns])

/-- `removeConnectionInLoop` queues an owner behind everything that waits. -/
theorem protected_baseRun (hwf : WellFormed server s) (h : ∀ c, Protected s c) {d : ℕ}
    {rest : List ℕ} {k : Conn} (htodo : s.base.functors.todo = d :: rest)
    (hconn : s.conns d = some k) (c : ℕ) :
    Protected (s.popBase.removeConnectionInLoop d k) c := by
  by_cases hc : c = d
  · subst hc
    refine .inr (.queue fun loop => ?_)
    by_cases hloop : loop = k.loop
    · subst hloop
      rw [removeConnectionInLoop_io_self]
      exact .enqueue_keeper _ ⟨rfl, rfl⟩
    -- a loop that is not the one of `c` has no functor about `c`
    · rw [removeConnectionInLoop_io_of_ne _ _ _ _ hloop]
      refine .of_none fun functor hmem hraw => hloop ?_
      obtain ⟨e, he, heloop⟩ := hwf.functors loop functor (BatchQueue.mem_held_of_mem_waiting hmem)
      rw [hraw.1, hconn, Option.some.injEq] at he
      rw [← heloop, he]
  · refine Protected.queueInLoop (Protected.setConnections ((h c).setBase ?_) s.nextConnId ?_)
      k.loop ?_
    · intro hmem
      rw [BatchQueue.waiting_advance _ htodo] at hmem
      exact (List.mem_cons.1 hmem).resolve_left hc
    · intro name hname
      obtain ⟨hbound, hkname⟩ := hwf.conns d k hconn
      have hother := hwf.connections_ne hname (hbound.trans hwf.bound) hc
      rwa [hkname, Function.update_of_ne hother]
    · intro functor hmem hraw
      rw [List.mem_singleton.1 hmem] at hraw
      exact absurd hraw.2 (by simp [IoFunctor.owns])

theorem step_protected (hwf : WellFormed server s) (h : ∀ c, Protected s c) {label : Label}
    (hstep : Step server s label t) (hrelease : ReleasesCovered s label) (c : ℕ) :
    Protected t c := by
  cases hstep with
  | newConnection loop fd hbase hid hfd => exact protected_newConnection hwf hid h loop fd c
  | baseSwap hbase =>
      refine (h c).setBase fun hmem => ?_
      rwa [BatchQueue.waiting_swap _ (hwf.base hbase).2]
  | baseRun hbase htodo hconn => exact protected_baseRun hwf h htodo hconn c
  | baseFinish hbase htodo => exact (h c).setBase id
  | poll loop events hphase => exact (h c).setLoop id
  | handleEvent loop hphase hevent hactive hconn hguard => exact (h c).setLoop id
  | handleEventExpired loop hphase hevent hactive hconn htied hexpired => exact (h c).setLoop id
  | callback loop read result hphase hevent hcallbacks hconn howned =>
      refine Protected.onConn ?_ _ _ fun start => queuesOwners_runCallback start _ _ _
      exact (h c).setLoop fun hkept => hkept
  | endEvent loop hphase hevent hcallbacks => exact (h c).setLoop id
  | swap loop hphase hevent hactive => exact (h c).setLoop .swap
  | startRun loop hphase hrunning htodo => exact (h c).setLoop id
  | run loop result hphase hrunning htodo hconn howned =>
      refine Protected.onConn ?_ _ _ (IoFunctor.queuesOwners_run _ result)
      exact (h c).setLoop .advance
  | runExpired loop result hphase hrunning htodo hexpired => exact (h c).setLoop .advance
  | finish loop hphase htodo => exact (h c).setLoop fun hkept => hkept.finish htodo
  | call d call hconn howned hphase => exact (h c).onConn _ _ call.queuesOwners_run
  | acquire d howned =>
      refine (h c).setUsers fun huser => .inl ?_
      rcases huser with huser | hcall
      · refine .inl ?_
        by_cases hc : c = d
        · simp [hc]
        · simpa [hc] using huser
      · exact .inr hcall
  -- the only label that takes a pointer away from user code
  | release d huser =>
      refine (h c).setUsers fun hheld => ?_
      by_cases hc : c = d
      · subst hc
        by_cases hcall : ∃ pending, (c, pending) ∈ s.calls
        · exact .inl (.inr hcall)
        · by_cases hlast : s.userRefs c = 1
          · exact .inr (hrelease c rfl hlast (not_exists.1 hcall))
          · exact .inl (.inl (by simp; omega))
      · exact .inl (hheld.imp (fun huser => by simpa [hc] using huser) id)
  | request d request huser hconn hstate =>
      refine (h c).setUsers fun hheld => .inl ?_
      by_cases hc : c = d
      · subst hc
        exact .inr ⟨_, List.mem_cons_self⟩
      · refine hheld.imp (fun huser => by simpa [hc] using huser) fun ⟨pending, hmem⟩ => ?_
        exact ⟨pending, List.mem_cons_of_mem _ hmem⟩
  | storeDisconnecting d hcall hconn =>
      refine ((h c).setConn d _).setUsers fun hheld => .inl ?_
      refine hheld.imp id fun ⟨pending, hmem⟩ => ?_
      by_cases hc : c = d
      · subst hc
        exact ⟨_, List.mem_cons_self⟩
      · have hne : (c, pending) ≠ (d, .storeDisconnecting) := fun heq => hc (Prod.mk.inj heq).1
        exact ⟨pending, List.mem_cons_of_mem _ ((List.mem_erase_of_ne hne).2 hmem)⟩
  | queueCall d functor hcall hconn =>
      by_cases hc : c = d
      -- the functor may be raw, but the thread has its pointer back
      · subst hc
        exact .inl (.inl (by simp [State.queueInLoop, setFunctors, State.setLoop]))
      · refine Protected.queueInLoop ((h c).setUsers fun hheld => .inl ?_) _ ?_
        · refine hheld.imp (fun huser => by simpa [hc] using huser) fun ⟨pending, hmem⟩ => ?_
          have hne : (c, pending) ≠ (d, .queueInLoop functor) := fun heq => hc (Prod.mk.inj heq).1
          exact ⟨pending, (List.mem_erase_of_ne hne).2 hmem⟩
        · intro new hmem hraw
          rw [List.mem_singleton.1 hmem] at hraw
          exact hc hraw.1.symm
  | destroy d hconn halive hexpired => exact ((h c).setConn _ _).setPoller _ _

/-! ## Runs -/

theorem initial_protected (c : ℕ) : Protected {} c :=
  .inr (.queue fun _ => .of_none fun _ hmem => nomatch hmem)

theorem run_protected {labels : List Label}
    (hrun : Run (restrict (Step server) ReleasesCovered) {} labels s) :
    WellFormed server s ∧ ∀ c, Protected s c :=
  hrun.invariant (P := fun s => WellFormed server s ∧ ∀ c, Protected s c)
    ⟨.initial, initial_protected⟩ fun _ _ _ h hstep =>
      ⟨h.1.step hstep.1, step_protected h.1 h.2 hstep.1 hstep.2⟩

/-- A functor about a protected connection finds an owner. -/
theorem owned_of_waiting {loop : ℕ} {functor : IoFunctor}
    (hmem : functor ∈ (s.io loop).functors.waiting) (h : Protected s functor.conn) :
    s.Owned functor.conn := by
  -- an owner keeps the connection itself, a raw one relies on what protects it
  by_cases howns : functor.owns = true
  · exact .functor loop (BatchQueue.mem_held_of_mem_waiting hmem) howns rfl
  · rcases h with (huser | ⟨pending, hcall⟩) | hcovered
    · exact .user huser
    · exact .call hcall
    · cases hcovered with
      | connections h => exact .connections h
      | removal h => exact .base (BatchQueue.mem_held_of_mem_waiting h)
      | queue h =>
          obtain ⟨other, hother, hconn, howner⟩ :=
            (h loop).exists_of_waiting hmem ⟨rfl, by simpa using howns⟩
          exact .functor loop hother howner hconn

/-- The connection has not been destroyed. -/
def Alive (s : State) (c : ℕ) : Prop := ∃ k, s.conns c = some k ∧ k.alive = true

/-- The next functor of every loop, which may be running, works on a connection that
has not been destroyed. -/
def RunsAlive (s : State) : Prop :=
  (∀ loop functor rest, (s.io loop).functors.todo = functor :: rest → Alive s functor.conn) ∧
    ∀ c rest, s.base.functors.todo = c :: rest → Alive s c

/-- When nobody gives up the last pointer of user code while an uncovered raw
functor waits or runs, every deferred call has its connection to the end. -/
theorem deferred_calls_alive (server : TcpServer) (labels : List Label) (s : State)
    (hrun : Run (restrict (Step server) ReleasesCovered) {} labels s) : RunsAlive s := by
  obtain ⟨hwf, hprotected⟩ := run_protected hrun
  constructor
  · intro loop functor rest htodo
    have hwaiting : functor ∈ (s.io loop).functors.waiting := by
      simp [BatchQueue.waiting, htodo]
    exact hwf.owned _ (owned_of_waiting hwaiting (hprotected _))
  · intro c rest htodo
    have hwaiting : c ∈ s.base.functors.waiting := by simp [BatchQueue.waiting, htodo]
    exact hwf.owned c (.base (BatchQueue.mem_held_of_mem_waiting hwaiting))

/-! ## A send that is kept, and one that dangles -/

def plainServer : TcpServer := { name := [], ipPort := [], ipPort_length := by decide }

/-- A thread sends, and drops its pointer while the functor runs.  The map keeps the
connection until the functor has come to its end. -/
theorem deferred_calls_alive_send :
    ∃ labels s, Run (restrict (Step plainServer) ReleasesCovered) {} labels s ∧
      (s.io 0).functors.todo = [.method 1 (.sendInLoop [104])] ∧ (s.io 0).running = true ∧
      s.userRefs 1 = 0 ∧ RunsAlive s := by
  have hestablished := (((((Run.single (@Step.newConnection plainServer {} 0 5 rfl (by decide)
    fun c k hk => nomatch hk)).snoc (.poll 0 [] rfl)).snoc (.swap 0 rfl rfl rfl)).snoc
      (.startRun 0 rfl rfl rfl)).snoc
      (.run 0 (.bytes 0) rfl rfl rfl rfl (.functor 0 List.mem_cons_self rfl rfl))).snoc
      (.finish 0 rfl rfl)
  have hsent := ((hestablished.snoc
    (.acquire 1 (@Owned.connections _ _ (plainServer.connName 1) rfl))).snoc
      (.request 1 (.send [104]) (by decide) rfl rfl)).snoc
      (.queueCall 1 _ List.mem_cons_self rfl)
  have hrunning := ((hsent.snoc (.poll 0 [] rfl)).snoc (.swap 0 rfl rfl rfl)).snoc
    (.startRun 0 rfl rfl rfl)
  have hcovered : Run (restrict _ ReleasesCovered) _ _ _ :=
    hrunning.restrict_of_forall (by simp [ReleasesCovered])
  have hreleased := hcovered.snoc ⟨.release 1 (by decide), fun c hc _ _ =>
    @Covered.connections _ c (plainServer.connName 1) (by cases hc; rfl)⟩
  exact ⟨_, _, hreleased, rfl, rfl, rfl, deferred_calls_alive _ _ _ hreleased⟩

/-- A connection without an owner can be destroyed under a functor, which need not even
have started. -/
theorem exists_dangling {loop : ℕ} {functor : IoFunctor} {rest : List IoFunctor}
    (htodo : (s.io loop).functors.todo = functor :: rest) (halive : Alive s functor.conn)
    (hexpired : ¬ s.Owned functor.conn) :
    ∃ t, Step server s (.destroy functor.conn) t ∧ ¬ RunsAlive t := by
  obtain ⟨k, hconn, hk⟩ := halive
  refine ⟨_, .destroy functor.conn hconn hk hexpired, fun hruns => ?_⟩
  have hhead : (((s.setConn functor.conn { k with alive := false }).setPoller k.loop
      (closeFd (s.io k.loop).poller k.tcp.channel.fd)).io loop).functors.todo =
        functor :: rest := by
    by_cases hloop : loop = k.loop
    · subst hloop
      rw [setPoller, setLoop_io_self]
      exact htodo
    · rw [setPoller, setLoop_io_of_ne _ _ _ _ hloop]
      exact htodo
  obtain ⟨e, he, healive⟩ := hruns.1 loop functor rest hhead
  have hself : some e = some { k with alive := false } :=
    he.symm.trans (setConn_conns_self s functor.conn _)
  rw [Option.some.inj hself] at healive
  exact Bool.noConfusion healive

/-- A thread has tested the state of a connection when the connection is closed and
removed.  It queues its functor behind the batch that runs `connectDestroyed`, and
drops its pointer: when the batch ends the connection is destroyed. -/
theorem deferred_send_dangles :
    ¬ ∀ (server : TcpServer) (labels : List Label) (s : State),
      Run (Step server) {} labels s → RunsAlive s := by
  intro hclaim
  -- the connection is accepted and established on loop 0
  have hestablished := (((((Run.single (@Step.newConnection plainServer {} 0 5 rfl (by decide)
    fun c k hk => nomatch hk)).snoc (.poll 0 [] rfl)).snoc (.swap 0 rfl rfl rfl)).snoc
      (.startRun 0 rfl rfl rfl)).snoc
      (.run 0 (.bytes 0) rfl rfl rfl rfl (.functor 0 List.mem_cons_self rfl rfl))).snoc
      (.finish 0 rfl rfl)
  -- a thread calls `send` and finds the connection connected
  have htested := (hestablished.snoc
    (.acquire 1 (@Owned.connections _ _ (plainServer.connName 1) rfl))).snoc
      (.request 1 (.send [104]) (by decide) rfl rfl)
  -- the peer hangs up, and the base loop takes the connection out of the map
  have hclosed := (((htested.snoc (.poll 0 [(5, EPOLLHUP)] rfl)).snoc
    (.handleEvent 0 rfl rfl rfl rfl fun _ => .call List.mem_cons_self)).snoc
      (.callback 0 (.data []) (.bytes 0) rfl rfl rfl rfl (.call List.mem_cons_self))).snoc
      (.endEvent 0 rfl rfl rfl)
  have hremoved := ((hclosed.snoc (.baseSwap rfl)).snoc (.baseRun rfl rfl rfl)).snoc
    (.swap 0 rfl rfl rfl)
  -- the thread queues its functor behind the batch and drops its pointer
  have hqueued := (hremoved.snoc (.queueCall 1 _ List.mem_cons_self rfl)).snoc
    (.release 1 (by decide))
  -- `connectDestroyed` runs, and both batches let go of what they hold
  have hfinished := (((hqueued.snoc (.startRun 0 rfl rfl rfl)).snoc
    (.run 0 (.bytes 0) rfl rfl rfl rfl (.functor 0 List.mem_cons_self rfl rfl))).snoc
      (.baseFinish rfl rfl)).snoc (.finish 0 rfl rfl)
  have hnext := (hfinished.snoc (.poll 0 [] rfl)).snoc (.swap 0 rfl rfl rfl)
  have hwf := hnext.invariant .initial fun _ _ _ h hstep => WellFormed.step h hstep
  -- of the functors only the raw one is left, so the connection has no owner
  obtain ⟨t, hdestroyed, hdangles⟩ := @exists_dangling plainServer _ 0
    (.method 1 (.sendInLoop [104])) [] rfl ⟨_, rfl, rfl⟩ (by
    intro howned
    cases howned with
    | connections h =>
        obtain rfl := hwf.names _ _ h
        exact nomatch h
    | base h => exact nomatch h
    | functor loop h howns hconn =>
        cases loop with
        | zero =>
            rw [List.mem_singleton.1 h] at howns
            exact nomatch howns
        | succ loop => exact nomatch h
    | event loop h hguarded hconn =>
        cases loop with
        | zero => exact nomatch h
        | succ loop => exact nomatch h
    | user h => exact absurd h (by decide)
    | call h => exact nomatch h)
  exact hdangles (hclaim plainServer _ _ (hnext.snoc hdestroyed))

end Server

end MuduoLite
