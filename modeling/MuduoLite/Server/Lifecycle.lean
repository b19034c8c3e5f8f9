import MuduoLite.Server.Registration
import MuduoLite.Server.Stages

/-!
# The life of a connection

The server is safe because three facts fit together.  Until a connection is done
something that removes it exists, in the map or in a queue, and owns it; so a
connection that has no owner is done (`Stage`).  One that is done has left its
poller, so its destructor closes an fd that no poller knows (`Registered`).  And a
poller only reports open connections, which are handled before the loop runs the
next functor (`Handled`).

The half-processed list of active channels is the delicate part.  `connectDestroyed`
runs in the batch of functors of the connection's own loop, and when that batch
starts the list has been worked off.  This is why `removeConnectionInLoop` queues
it.
-/

namespace MuduoLite

namespace Server

open ConnState EPollPoller State Transition

/-! ## Active channels -/

/-- Connection `c` lives on `loop` and is open. -/
def OpenOn (s : State) (loop c : ℕ) : Prop :=
  ∃ k, s.conns c = some k ∧ k.loop = loop ∧ k.established = true ∧ k.destroyed = false

/-- What a loop still has to handle is open; when it runs its functors, nothing is left. -/
structure Handled (s : State) (loop : ℕ) : Prop where
  active : ∀ entry ∈ (s.io loop).activeChannels, OpenOn s loop entry.1
  event : ∀ event, (s.io loop).event = some event → OpenOn s loop event.conn
  calling : (s.io loop).phase = .calling →
    (s.io loop).activeChannels = [] ∧ (s.io loop).event = none

namespace Handled

variable {s t : State}

theorem congr {loop : ℕ} (h : Handled s loop)
    (hactive : (t.io loop).activeChannels = (s.io loop).activeChannels)
    (hevent : (t.io loop).event = (s.io loop).event)
    (hphase : (t.io loop).phase = (s.io loop).phase)
    (hopen : (s.io loop).phase ≠ .calling → ∀ c, OpenOn s loop c → OpenOn t loop c) :
    Handled t loop where
  active := by
    intro entry hmem
    rw [hactive] at hmem
    refine hopen (fun hcalling => ?_) _ (h.active entry hmem)
    rw [(h.calling hcalling).1] at hmem
    exact List.not_mem_nil hmem
  event := by
    intro event hsome
    rw [hevent] at hsome
    refine hopen (fun hcalling => ?_) _ (h.event event hsome)
    rw [(h.calling hcalling).2] at hsome
    nomatch hsome
  calling := by
    rw [hphase, hactive, hevent]
    exact h.calling

theorem setLoop (h : ∀ loop, Handled s loop) {loop : ℕ} {l : IoLoop}
    (hactive : ∀ entry ∈ l.activeChannels, OpenOn s loop entry.1)
    (hevent : ∀ event, l.event = some event → OpenOn s loop event.conn)
    (hcalling : l.phase = .calling → l.activeChannels = [] ∧ l.event = none) (other : ℕ) :
    Handled (s.setLoop loop l) other := by
  by_cases hother : other = loop
  · subst hother
    refine ⟨?_, ?_, ?_⟩ <;> rw [setLoop_io_self]
    · exact hactive
    · exact hevent
    · exact hcalling
  · exact (h other).congr (by rw [setLoop_io_of_ne _ _ _ _ hother])
      (by rw [setLoop_io_of_ne _ _ _ _ hother]) (by rw [setLoop_io_of_ne _ _ _ _ hother])
      fun _ _ hopen => hopen

/-- Functors start, run and are taken out of the batch. -/
theorem setFunctors (h : ∀ loop, Handled s loop) (loop : ℕ) (functors : BatchQueue IoFunctor)
    (running : Bool) (other : ℕ) :
    Handled (s.setLoop loop { s.io loop with functors := functors, running := running })
      other := by
  refine setLoop h ?_ ?_ ?_ other
  · exact (h loop).active
  · exact (h loop).event
  · exact (h loop).calling

theorem onConn (h : ∀ loop, Handled s loop) {c : ℕ} {k k' : Conn} (hconn : s.conns c = some k)
    (hloop : k'.loop = k.loop) (hestablished : k.established = true → k'.established = true)
    (hdestroyed : k'.destroyed = k.destroyed ∨ (s.io k.loop).phase = .calling)
    (method : ConnState → ConnState) (other : ℕ) : Handled (s.onConn c k' method) other := by
  have hopen : (s.io other).phase ≠ .calling → ∀ d, OpenOn s other d →
      OpenOn (s.onConn c k' method) other d := by
    rintro hphase d ⟨e, he, heloop, heestablished, hedestroyed⟩
    by_cases hd : d = c
    · subst hd
      rw [hconn, Option.some.injEq] at he
      subst he
      refine ⟨_, onConn_conns_self _ _ _ _, hloop.trans heloop, hestablished heestablished, ?_⟩
      exact (hdestroyed.resolve_right (heloop ▸ hphase)).trans hedestroyed
    · exact ⟨e, by rw [onConn_conns_of_ne _ _ _ _ _ hd, he], heloop, heestablished, hedestroyed⟩
  by_cases hother : other = k'.loop
  · subst hother
    exact (h _).congr (by rw [onConn_io_self]) (by rw [onConn_io_self]) (by rw [onConn_io_self])
      hopen
  · exact (h other).congr (by rw [onConn_io_of_ne _ _ _ _ _ hother])
      (by rw [onConn_io_of_ne _ _ _ _ _ hother]) (by rw [onConn_io_of_ne _ _ _ _ _ hother]) hopen

end Handled

/-! ## Calls on the loop thread only -/

/-- User code calls the methods of a connection on its loop thread only. -/
def OnLoopThread (_ : State) (label : Label) : Prop := ∀ c request, label ≠ .request c request

/-- Without calls from other threads every functor owns its connection. -/
structure NoRaw (s : State) : Prop where
  calls : s.calls = []
  owns : ∀ loop, ∀ functor ∈ (s.io loop).functors.held, functor.owns = true

namespace NoRaw

variable {server : TcpServer} {s t : State}

theorem setLoop (h : NoRaw s) {loop : ℕ} {l : IoLoop}
    (howns : ∀ functor ∈ l.functors.held, functor.owns = true) : NoRaw (s.setLoop loop l) where
  calls := h.calls
  owns := by
    intro other
    by_cases hother : other = loop
    · subst hother
      rwa [setLoop_io_self]
    · rw [setLoop_io_of_ne _ _ _ _ hother]
      exact h.owns other

theorem queueInLoop (h : NoRaw s) (loop : ℕ) {functors : List IoFunctor}
    (howns : ∀ functor ∈ functors, functor.owns = true) : NoRaw (s.queueInLoop loop functors) := by
  refine h.setLoop fun functor hmem => ?_
  rw [BatchQueue.held_enqueue] at hmem
  exact (List.mem_append.1 hmem).elim (h.owns loop functor) (howns functor)

theorem onConn (h : NoRaw s) (c : ℕ) (k : Conn) {method : ConnState → ConnState}
    (howners : ∀ start, QueuesOwners start (method start)) : NoRaw (s.onConn c k method) := by
  have hset : NoRaw (s.setConn c { k with tcp := (method (s.connState c k)).conn }) :=
    ⟨h.calls, h.owns⟩
  have hran : NoRaw ((s.setConn c { k with tcp := (method (s.connState c k)).conn }).setPoller
    k.loop (method (s.connState c k)).poller) := hset.setLoop (h.owns k.loop)
  have howned : ∀ functor ∈ (method (s.connState c k)).pendingFunctors.map (IoFunctor.method c),
      functor.owns = true := by
    intro functor hmem
    obtain ⟨queued, hqueued, rfl⟩ := List.mem_map.1 hmem
    exact (howners _ queued hqueued).resolve_left List.not_mem_nil
  have hqueued := hran.queueInLoop k.loop howned
  exact ⟨hqueued.calls, hqueued.owns⟩

theorem step (h : NoRaw s) (hwf : WellFormed server s) {label : Label}
    (hstep : Step server s label t) (honly : OnLoopThread s label) : NoRaw t := by
  cases hstep with
  | newConnection loop fd hbase hid hfd =>
      refine NoRaw.queueInLoop ?_ loop (by simp [IoFunctor.owns])
      exact ⟨h.calls, h.owns⟩
  | baseSwap hbase => exact ⟨h.calls, h.owns⟩
  | baseRun hbase htodo hconn =>
      refine NoRaw.queueInLoop ?_ _ (by simp [IoFunctor.owns])
      exact ⟨h.calls, h.owns⟩
  | baseFinish hbase htodo => exact ⟨h.calls, h.owns⟩
  | poll loop events hphase => exact h.setLoop (h.owns loop)
  | handleEvent loop hphase hevent hactive hconn hguard => exact h.setLoop (h.owns loop)
  | handleEventExpired loop hphase hevent hactive hconn htied hexpired =>
      exact h.setLoop (h.owns loop)
  | callback loop read result hphase hevent hcallbacks hconn howned =>
      refine NoRaw.onConn ?_ _ _ fun start => queuesOwners_runCallback start _ _ _
      exact h.setLoop (h.owns loop)
  | endEvent loop hphase hevent hcallbacks => exact h.setLoop (h.owns loop)
  | swap loop hphase hevent hactive =>
      refine h.setLoop fun functor hmem => h.owns loop functor ?_
      rwa [BatchQueue.held_swap _ (hwf.io loop (by simp [hphase]))] at hmem
  | startRun loop hphase hrunning htodo => exact h.setLoop (h.owns loop)
  | run loop result hphase hrunning htodo hconn howned =>
      refine NoRaw.onConn ?_ _ _ (IoFunctor.queuesOwners_run _ result)
      exact h.setLoop (by simpa using h.owns loop)
  | runExpired loop result hphase hrunning htodo hexpired =>
      exact h.setLoop (by simpa using h.owns loop)
  | finish loop hphase htodo =>
      refine h.setLoop fun functor hmem => h.owns loop functor ?_
      rw [BatchQueue.held_finish] at hmem
      exact BatchQueue.mem_held_of_mem_waiting hmem
  | call d call hconn howned hphase => exact h.onConn _ _ call.queuesOwners_run
  | acquire d howned => exact ⟨h.calls, h.owns⟩
  | release d huser => exact ⟨h.calls, h.owns⟩
  | request d request huser hconn hstate => exact absurd rfl (honly d request)
  | storeDisconnecting d hcall hconn => simp [h.calls] at hcall
  | queueCall d functor hcall hconn => simp [h.calls] at hcall
  | @destroy d k hconn halive hexpired =>
      have hset : NoRaw (s.setConn d { k with alive := false }) := ⟨h.calls, h.owns⟩
      exact hset.setLoop (h.owns k.loop)

end NoRaw

/-! ## Steps -/

/-- What holds in every state that is reached by calls on the loop threads. -/
structure Lifecycle (server : TcpServer) (s : State) : Prop where
  wellFormed : WellFormed server s
  noRaw : NoRaw s
  registered : Registered s
  stage : ∀ c k, s.conns c = some k → Stage s c k
  handled : ∀ loop, Handled s loop

/-- What is to remove a connection that is not done owns it. -/
theorem Stage.owned {s : State} {c : ℕ} {k : Conn} (h : Stage s c k) (hdone : k.destroyed = false) :
    s.Owned c := by
  rcases h.kept hdone with hmap | hbase | hio
  · exact .connections hmap
  · exact .base (BatchQueue.mem_held_of_mem_waiting hbase)
  · exact .functor k.loop (BatchQueue.mem_held_of_mem_waiting hio) rfl rfl

namespace Lifecycle

variable {server : TcpServer} {s t : State}

/-- A connection without an owner is done. -/
theorem index_of_expired (h : Lifecycle server s) {c : ℕ} {k : Conn} (hconn : s.conns c = some k)
    (hexpired : ¬ s.Owned c) : k.tcp.channel.index = .kNew := by
  cases hdone : k.destroyed with
  | false => exact absurd ((h.stage c k hconn).owned hdone) hexpired
  | true => exact ((h.stage c k hconn).done hdone).2

/-- What a poller reports is open. -/
theorem openOn_of_interest (h : Lifecycle server s) {loop fd c : ℕ} {events : EventMask}
    (hinterest : (s.io loop).poller.interest fd = some (c, events)) : OpenOn s loop c := by
  obtain ⟨d, k, hk, halive, hloop, hfd⟩ := h.registered.known loop fd (.inr (by simp [hinterest]))
  have hmirrors := (h.registered.mirrors d k hk halive).interest_eq
  rw [hloop, hfd, hinterest] at hmirrors
  have hstage := h.stage d k hk
  -- what is not established, or is destroyed, has the index `kNew` and is not watched
  split_ifs at hmirrors with hindex
  obtain rfl : c = d := by simpa using congrArg (Option.map Prod.fst) hmirrors
  refine ⟨k, hk, hloop, ?_, ?_⟩
  · by_contra hfresh
    have := (hstage.fresh (by simpa using hfresh)).2.1
    simp [hindex] at this
  · by_contra hdone
    have := (hstage.done (by simpa using hdone)).2
    simp [hindex] at this

/-- A connection with an owner is alive. -/
theorem alive (h : Lifecycle server s) {c : ℕ} {k : Conn} (hconn : s.conns c = some k)
    (howned : s.Owned c) : k.alive = true := by
  obtain ⟨e, he, halive⟩ := h.wellFormed.owned c howned
  rw [hconn, Option.some.injEq] at he
  exact he ▸ halive

/-- A functor waits in the loop of its connection. -/
theorem loop_of_todo (h : Lifecycle server s) {loop : ℕ} {functor : IoFunctor}
    {rest : List IoFunctor} {k : Conn} (htodo : (s.io loop).functors.todo = functor :: rest)
    (hconn : s.conns functor.conn = some k) : k.loop = loop := by
  have hheld : functor ∈ (s.io loop).functors.held :=
    BatchQueue.mem_held_of_mem_waiting (by simp [BatchQueue.waiting, htodo])
  -- it was queued in that loop
  obtain ⟨e, he, heloop⟩ := h.wellFormed.functors loop functor hheld
  rw [hconn, Option.some.injEq] at he
  exact he ▸ heloop

theorem step_registered (h : Lifecycle server s) {label : Label} (hstep : Step server s label t) :
    Registered t := by
  have hreg := h.registered
  cases hstep with
  | newConnection loop fd hbase hid hfd => exact hreg.newConnection h.wellFormed loop hfd
  | baseSwap hbase => exact hreg.congr rfl fun _ => rfl
  | @baseRun c rest k hbase htodo hconn =>
      refine hreg.congr rfl fun loop => ?_
      obtain ⟨functors, hio⟩ := removeConnectionInLoop_io_eq s.popBase c loop k
      rw [hio]
      rfl
  | baseFinish hbase htodo => exact hreg.congr rfl fun _ => rfl
  | poll loop events hphase => exact hreg.setLoop rfl
  | handleEvent loop hphase hevent hactive hconn hguard => exact hreg.setLoop rfl
  | handleEventExpired loop hphase hevent hactive hconn htied hexpired => exact hreg.setLoop rfl
  | @callback loop read result event callback rest k hphase hevent hcallbacks hconn howned =>
      have hpopped : Registered (s.popCallback loop event rest) := hreg.setLoop rfl
      exact hpopped.onConn hconn (h.alive hconn howned) rfl rfl rfl
        fun start => local_runCallback start _ _ _
  | endEvent loop hphase hevent hcallbacks => exact hreg.setLoop rfl
  | swap loop hphase hevent hactive => exact hreg.setLoop rfl
  | startRun loop hphase hrunning htodo => exact hreg.setLoop rfl
  | @run loop result functor rest k hphase hrunning htodo hconn howned =>
      have hpopped : Registered (s.popFunctor loop) := hreg.setLoop rfl
      exact hpopped.onConn hconn (h.alive hconn howned) (functor.mark_tcp k) (functor.mark_loop k)
        (functor.mark_alive k) (functor.local_run result)
  | runExpired loop result hphase hrunning htodo hexpired => exact hreg.setLoop rfl
  | finish loop hphase htodo => exact hreg.setLoop rfl
  | call c call hconn howned hphase =>
      exact hreg.onConn hconn (h.alive hconn howned) rfl rfl rfl call.local_run
  | acquire c howned => exact hreg.congr rfl fun _ => rfl
  | release c huser => exact hreg.congr rfl fun _ => rfl
  | request c request huser hconn hstate => exact hreg.congr rfl fun _ => rfl
  | storeDisconnecting c hcall hconn => simp [h.noRaw.calls] at hcall
  | queueCall c functor hcall hconn => simp [h.noRaw.calls] at hcall
  | destroy c hconn halive hexpired =>
      exact hreg.destroy hconn halive (h.index_of_expired hconn hexpired)

theorem stage_run (h : Lifecycle server s) {loop : ℕ} {result : IoResult} {functor : IoFunctor}
    {rest : List IoFunctor} {k : Conn} (htodo : (s.io loop).functors.todo = functor :: rest)
    (hconn : s.conns functor.conn = some k) {d : ℕ} {e : Conn}
    (he : ((s.popFunctor loop).onConn functor.conn (functor.mark k)
      (functor.run result)).conns d = some e) :
    Stage ((s.popFunctor loop).onConn functor.conn (functor.mark k) (functor.run result)) d e := by
  obtain rfl := h.loop_of_todo htodo hconn
  have hstage := h.stage _ k hconn
  refine Stage.onConn_of_self ?_ ?_ he
  · intro c j hc hj
    refine (h.stage c j hj).popFunctor htodo ?_ ?_
    · rintro rfl
      exact hc rfl
    · rintro rfl
      exact hc rfl
  · cases functor with
    | connectEstablished c => exact hstage.onConn_connectEstablished htodo rfl rfl
    | connectDestroyed c => exact hstage.onConn_connectDestroyed htodo rfl rfl
    | method c queued =>
        have howns : queued.owns = true := h.noRaw.owns k.loop (.method c queued)
          (BatchQueue.mem_held_of_mem_waiting (by simp [BatchQueue.waiting, htodo]))
        have hconn' := runFunctor_conn ((s.popFunctor k.loop).connState c k) howns result
        refine (hstage.popFunctor htodo (by simp) (by simp)).onConn_idle ?_ ?_ ?_
        · exact congrArg TcpConnection.state hconn'
        · exact congrArg (fun tcp => tcp.channel.index) hconn'
        · exact fun hmem => List.not_mem_nil (IoFunctor.silent_run _ _ _ hmem)

theorem step_stage (h : Lifecycle server s) {label : Label} (hstep : Step server s label t)
    (d : ℕ) (e : Conn) (he : t.conns d = some e) : Stage t d e := by
  have hwf := h.wellFormed
  cases hstep with
  | newConnection loop fd hbase hid hfd =>
      rcases newConnection_conns_eq_some _ _ _ _ _ he with ⟨rfl, rfl⟩ | ⟨hne, hold⟩
      · exact .newConnection_self hwf loop fd
      · exact (h.stage d e hold).newConnection_of_ne hne
          (hwf.name_ne hold (hid.trans (by decide)) hne) loop fd
  | baseSwap hbase => exact (h.stage d e he).setBase (BatchQueue.waiting_swap _ (hwf.base hbase).2)
  | @baseRun c rest k hbase htodo hconn =>
      by_cases hd : d = c
      · subst hd
        obtain rfl : k = e := Option.some.inj (hconn.symm.trans he)
        exact (h.stage d k hconn).removeConnectionInLoop_self htodo
      · obtain ⟨hbound, hname⟩ := hwf.conns c k hconn
        exact (h.stage d e he).removeConnectionInLoop_of_ne htodo hd
          (hname ▸ hwf.name_ne he (hbound.trans hwf.bound) hd)
  | baseFinish hbase htodo => exact (h.stage d e he).setBase rfl
  | poll loop events hphase => exact (h.stage d e he).setLoop rfl
  | handleEvent loop hphase hevent hactive hconn hguard => exact (h.stage d e he).setLoop rfl
  | handleEventExpired loop hphase hevent hactive hconn htied hexpired =>
      exact (h.stage d e he).setLoop rfl
  | @callback loop read result event callback rest k hphase hevent hcallbacks hconn howned =>
      have hpopped : ∀ c j, s.conns c = some j → Stage (s.popCallback loop event rest) c j :=
        fun c j hj => (h.stage c j hj).setLoop rfl
      refine Stage.onConn_of_self (fun c j _ hj => hpopped c j hj) ?_ he
      obtain ⟨j, hj, -, hestablished, hdestroyed⟩ := (h.handled loop).event event hevent
      obtain rfl : k = j := Option.some.inj (hconn.symm.trans hj)
      refine (hpopped _ k hconn).onConn_open hestablished hdestroyed fun hclosed => ?_
      exact runCallback_state _ _ _ _ (hclosed.imp id fun hclose => ⟨List.not_mem_nil, hclose⟩)
  | endEvent loop hphase hevent hcallbacks => exact (h.stage d e he).setLoop rfl
  | swap loop hphase hevent hactive =>
      exact (h.stage d e he).setLoop
        (BatchQueue.waiting_swap _ (hwf.io loop (by simp [hphase])).2)
  | startRun loop hphase hrunning htodo => exact (h.stage d e he).setLoop rfl
  | run loop result hphase hrunning htodo hconn howned => exact h.stage_run htodo hconn he
  -- every functor owns its connection, so none has expired
  | runExpired loop result hphase hrunning htodo hexpired =>
      have hheld := BatchQueue.mem_held_of_mem_waiting
        (by rw [BatchQueue.waiting_advance _ htodo]; exact List.mem_cons_self)
      exact absurd (.functor loop hheld (h.noRaw.owns loop _ hheld) rfl) hexpired
  | finish loop hphase htodo => exact (h.stage d e he).setLoop rfl
  | call c call hconn howned hphase =>
      exact .onConn_of_self (fun c j _ hj => h.stage c j hj)
        ((h.stage c _ hconn).onConn_call call) he
  | acquire c howned => exact (h.stage d e he).of_waiting rfl rfl fun _ => rfl
  | release c huser => exact (h.stage d e he).of_waiting rfl rfl fun _ => rfl
  | request c request huser hconn hstate => exact (h.stage d e he).of_waiting rfl rfl fun _ => rfl
  | storeDisconnecting c hcall hconn => simp [h.noRaw.calls] at hcall
  | queueCall c functor hcall hconn => simp [h.noRaw.calls] at hcall
  | @destroy c k hconn halive hexpired =>
      have hset : Stage (s.setConn c { k with alive := false }) d e := by
        by_cases hd : d = c
        · subst hd
          obtain rfl := Option.some.inj ((setConn_conns_self _ _ _).symm.trans he)
          exact (h.stage d k hconn).destroy.setConn _ _
        · exact (h.stage d e ((setConn_conns_of_ne _ _ _ _ hd).symm.trans he)).setConn _ _
      exact hset.setLoop rfl

theorem step_handled (h : Lifecycle server s) {label : Label} (hstep : Step server s label t)
    (other : ℕ) : Handled t other := by
  have hhandled := h.handled
  cases hstep with
  | newConnection loop fd hbase hid hfd =>
      obtain ⟨functors, hio⟩ := newConnection_io_eq s server loop fd other
      refine (hhandled other).congr (by rw [hio]) (by rw [hio]) (by rw [hio]) ?_
      rintro - c ⟨k, hk, hopen⟩
      have hne := h.wellFormed.ne_nextConnId hk
      exact ⟨k, by rw [newConnection_conns_of_ne _ _ _ _ _ hne, hk], hopen⟩
  | baseSwap hbase => exact (hhandled other).congr rfl rfl rfl fun _ _ hopen => hopen
  | @baseRun c rest k hbase htodo hconn =>
      obtain ⟨functors, hio⟩ := removeConnectionInLoop_io_eq s.popBase c other k
      exact (hhandled other).congr (by rw [hio]; rfl) (by rw [hio]; rfl) (by rw [hio]; rfl)
        fun _ _ hopen => hopen
  | baseFinish hbase htodo => exact (hhandled other).congr rfl rfl rfl fun _ _ hopen => hopen
  | poll loop events hphase =>
      refine Handled.setLoop hhandled ?_ ?_ ?_ other
      -- what the kernel returns is in the interest list
      · intro entry hmem
        obtain ⟨event, -, hevent⟩ := List.mem_filterMap.1 hmem
        obtain ⟨interest, hinterest, rfl⟩ := Option.map_eq_some_iff.1 hevent
        exact h.openOn_of_interest hinterest
      · exact (hhandled loop).event
      · exact fun hcalling => absurd hcalling (by simp)
  | handleEvent loop hphase hevent hactive hconn hguard =>
      have hactive' := (hhandled loop).active
      rw [hactive] at hactive'
      refine Handled.setLoop hhandled ?_ ?_ ?_ other
      · exact fun entry hmem => hactive' entry (List.mem_cons_of_mem _ hmem)
      · rintro event ⟨⟩
        exact hactive' _ List.mem_cons_self
      · exact fun hcalling => absurd (hphase.symm.trans hcalling) (by simp)
  | handleEventExpired loop hphase hevent hactive hconn htied hexpired =>
      have hactive' := (hhandled loop).active
      rw [hactive] at hactive'
      refine Handled.setLoop hhandled ?_ ?_ ?_ other
      · exact fun entry hmem => hactive' entry (List.mem_cons_of_mem _ hmem)
      · exact (hhandled loop).event
      · exact fun hcalling => absurd (hphase.symm.trans hcalling) (by simp)
  | @callback loop read result event callback rest k hphase hevent hcallbacks hconn howned =>
      have hpopped : ∀ other, Handled (s.popCallback loop event rest) other := by
        refine Handled.setLoop hhandled ?_ ?_ ?_
        · exact (hhandled loop).active
        · rintro after ⟨⟩
          exact (hhandled loop).event event hevent
        · exact fun hcalling => absurd (hphase.symm.trans hcalling) (by simp)
      exact Handled.onConn hpopped hconn rfl id (.inl rfl) _ other
  | endEvent loop hphase hevent hcallbacks =>
      refine Handled.setLoop hhandled ?_ ?_ ?_ other
      · exact (hhandled loop).active
      · exact fun event hnew => absurd hnew (by simp)
      · exact fun hcalling => absurd (hphase.symm.trans hcalling) (by simp)
  | swap loop hphase hevent hactive =>
      refine Handled.setLoop hhandled ?_ ?_ ?_ other
      · exact (hhandled loop).active
      · exact (hhandled loop).event
      · exact fun _ => ⟨hactive, hevent⟩
  | startRun loop hphase hrunning htodo => exact .setFunctors hhandled loop _ true other
  | @run loop result functor rest k hphase hrunning htodo hconn howned =>
      -- `connectDestroyed` may run here: this loop has nothing left to handle
      refine Handled.onConn (Handled.setFunctors hhandled loop _ false) hconn (functor.mark_loop k)
        (functor.mark_established k) (.inr ?_) _ other
      rw [h.loop_of_todo htodo hconn, setLoop_io_self]
      exact hphase
  | runExpired loop result hphase hrunning htodo hexpired =>
      exact .setFunctors hhandled loop _ false other
  | finish loop hphase htodo =>
      refine Handled.setLoop hhandled ?_ ?_ ?_ other
      · exact (hhandled loop).active
      · exact (hhandled loop).event
      · exact fun hcalling => absurd hcalling (by simp)
  | call c call hconn howned hphase =>
      exact Handled.onConn hhandled hconn rfl id (.inl rfl) _ other
  | acquire c howned => exact (hhandled other).congr rfl rfl rfl fun _ _ hopen => hopen
  | release c huser => exact (hhandled other).congr rfl rfl rfl fun _ _ hopen => hopen
  | request c request huser hconn hstate =>
      exact (hhandled other).congr rfl rfl rfl fun _ _ hopen => hopen
  | storeDisconnecting c hcall hconn => simp [h.noRaw.calls] at hcall
  | queueCall c functor hcall hconn => simp [h.noRaw.calls] at hcall
  | @destroy c k hconn halive hexpired =>
      have hset : ∀ other, Handled (s.setConn c { k with alive := false }) other := by
        intro other
        refine (hhandled other).congr rfl rfl rfl ?_
        rintro - d ⟨e, he, hopen⟩
        by_cases hd : d = c
        · subst hd
          rw [hconn, Option.some.injEq] at he
          subst he
          exact ⟨_, setConn_conns_self _ _ _, hopen⟩
        · exact ⟨e, by rw [setConn_conns_of_ne _ _ _ _ hd, he], hopen⟩
      refine Handled.setLoop hset ?_ ?_ ?_ other
      · exact (hset k.loop).active
      · exact (hset k.loop).event
      · exact (hset k.loop).calling

theorem initial : Lifecycle server {} where
  wellFormed := .initial
  noRaw := ⟨rfl, fun _ _ hmem => nomatch hmem⟩
  registered := .initial
  stage := fun _ _ hconn => nomatch hconn
  handled := fun _ => ⟨fun _ h => (nomatch h), fun _ h => (nomatch h), fun h => (nomatch h)⟩

theorem step (h : Lifecycle server s) {label : Label} (hstep : Step server s label t)
    (honly : OnLoopThread s label) : Lifecycle server t where
  wellFormed := h.wellFormed.step hstep
  noRaw := h.noRaw.step h.wellFormed hstep honly
  registered := h.step_registered hstep
  stage := h.step_stage hstep
  handled := h.step_handled hstep

theorem run {labels : List Label} (hrun : Run (restrict (Step server) OnLoopThread) {} labels s) :
    Lifecycle server s :=
  hrun.invariant .initial fun _ _ _ h hstep => h.step hstep.1 hstep.2

end Lifecycle

/-! ## Safety -/

/-- A handler finds `c` alive and owned, after `connectEstablished` and before the
first `connectDestroyed`. -/
def FoundOpen (s : State) (c : ℕ) : Prop :=
  ∃ k, s.conns c = some k ∧ k.alive = true ∧ s.Owned c ∧ k.established = true ∧
    k.destroyed = false

/-- All that the loops have to handle, and what they are handling, is found open. -/
def HandlesOpen (s : State) : Prop :=
  ∀ loop, (∀ entry ∈ (s.io loop).activeChannels, FoundOpen s entry.1) ∧
    ∀ event, (s.io loop).event = some event → FoundOpen s event.conn

/-- A connection that is destroyed next is neither in `channels_` nor in the
interest list of its loop. -/
def DestroysUnregistered (server : TcpServer) (s : State) : Prop :=
  ∀ c k t, s.conns c = some k → Step server s (.destroy c) t →
    (s.io k.loop).poller.channels k.tcp.channel.fd = none ∧
      (s.io k.loop).poller.interest k.tcp.channel.fd = none

theorem Lifecycle.foundOpen {server : TcpServer} {s : State} (h : Lifecycle server s)
    {loop c : ℕ} (hopen : OpenOn s loop c) : FoundOpen s c := by
  obtain ⟨k, hk, -, hestablished, hdestroyed⟩ := hopen
  have howned := (h.stage c k hk).owned hdestroyed
  exact ⟨k, hk, h.alive hk howned, howned, hestablished, hdestroyed⟩

/-- In every run in which user code keeps to the loop threads, events find their
connection open and destructors find theirs unregistered. -/
theorem lifecycle_safety (server : TcpServer) (labels : List Label) (s : State)
    (hrun : Run (restrict (Step server) OnLoopThread) {} labels s) :
    HandlesOpen s ∧ DestroysUnregistered server s := by
  have h := Lifecycle.run hrun
  constructor
  · exact fun loop => ⟨fun entry hmem => h.foundOpen ((h.handled loop).active entry hmem),
      fun event hevent => h.foundOpen ((h.handled loop).event event hevent)⟩
  · intro c k t hk hstep
    cases hstep with
    | @destroy _ e he halive hexpired =>
        obtain rfl : k = e := Option.some.inj (hk.symm.trans he)
        have hmirrors := h.registered.mirrors c k hk halive
        have hindex := h.index_of_expired hk hexpired
        exact ⟨by simpa [hindex] using hmirrors.channels_eq,
          by simpa [hindex] using hmirrors.interest_eq⟩

/-- Two connections of one loop are established, and the user keeps the first.  Its peer
hangs up: it is closed, removed and, when the user lets go of it, destroyed.  Then the
second becomes readable. -/
theorem lifecycle_safety_readable : ∃ server labels s,
    Run (restrict (Step server) OnLoopThread) {} labels s ∧
      (∃ k, s.conns 1 = some k ∧ k.alive = false) ∧
      (s.io 0).activeChannels = [(2, EPOLLIN)] ∧
      HandlesOpen s ∧ DestroysUnregistered server s := by
  let server : TcpServer := { name := [], ipPort := [], ipPort_length := by decide }
  have haccepted := (Run.single (@Step.newConnection server {} 0 5 rfl (by decide)
    fun c k hk => nomatch hk)).snoc (.newConnection 0 6 rfl (by decide) fun c k hk _ => by
      by_cases hc : c = 1
      · subst hc
        cases hk
        decide
      · exact nomatch (Function.update_of_ne hc _ _).symm.trans hk)
  have hestablished := (((((((haccepted.snoc (.poll 0 [] rfl)).snoc (.swap 0 rfl rfl rfl)).snoc
    (.startRun 0 rfl rfl rfl)).snoc
      (.run 0 (.bytes 0) rfl rfl rfl rfl (.functor 0 List.mem_cons_self rfl rfl))).snoc
        (.startRun 0 rfl rfl rfl)).snoc
      (.run 0 (.bytes 0) rfl rfl rfl rfl
        (.functor 0 (List.mem_cons_of_mem _ List.mem_cons_self) rfl rfl))).snoc
      (.acquire 1 (.functor 0 List.mem_cons_self rfl rfl))).snoc (.finish 0 rfl rfl)
  -- the peer hangs up, and the base loop takes the connection out of the map
  have hclosed := (((hestablished.snoc (.poll 0 [(5, EPOLLHUP)] rfl)).snoc
    (.handleEvent 0 rfl rfl rfl rfl fun _ => .user (by decide))).snoc
      (.callback 0 (.data []) (.bytes 0) rfl rfl rfl rfl (.event 0 rfl rfl rfl))).snoc
      (.endEvent 0 rfl rfl rfl)
  have hremoved := (((hclosed.snoc (.baseSwap rfl)).snoc (.baseRun rfl rfl rfl)).snoc
    (.baseFinish rfl rfl)).snoc (.swap 0 rfl rfl rfl)
  have hfinished := (((hremoved.snoc (.startRun 0 rfl rfl rfl)).snoc
    (.run 0 (.bytes 0) rfl rfl rfl rfl (.functor 0 List.mem_cons_self rfl rfl))).snoc
      (.finish 0 rfl rfl)).snoc (.release 1 (by decide))
  have hwf := hfinished.invariant .initial fun _ _ _ h hstep => WellFormed.step h hstep
  have hdestroyed := hfinished.snoc (.destroy 1 rfl rfl (by
    intro howned
    cases howned with
    | connections h =>
        obtain rfl := hwf.names _ _ h
        exact nomatch h
    | base h => exact nomatch h
    | functor loop h howns hconn =>
        cases loop with
        | zero => exact nomatch h
        | succ loop => exact nomatch h
    | event loop h hguarded hconn =>
        cases loop with
        | zero => exact nomatch h
        | succ loop => exact nomatch h
    | user h => exact absurd h (by decide)
    | call h => exact nomatch h))
  have hreadable : Run (restrict _ OnLoopThread) _ _ _ :=
    (hdestroyed.snoc (.poll 0 [(6, EPOLLIN)] rfl)).restrict_of_forall (by simp [OnLoopThread])
  exact ⟨_, _, _, hreadable, ⟨_, rfl, rfl⟩, rfl, lifecycle_safety _ _ _ hreadable⟩

end Server

end MuduoLite
