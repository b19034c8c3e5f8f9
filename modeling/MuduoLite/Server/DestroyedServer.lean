import MuduoLite.Server.Shutdown

/-!
# Messages to a destroyed server

`removeConnection` queues `removeConnectionInLoop` to the base loop, with a raw pointer to
the server.  The base thread is in the destructor meanwhile and runs no functor, so what
waits in its queue when the destructor starts, or arrives from an I/O loop before it is
joined, is still there when the server is destroyed, for the base loop to run.

After that no message arrives any more: the I/O threads have ended.
-/

namespace MuduoLite

open Transition
open Function (update)

namespace EventLoop

variable {F T : Type*} [DecidableEq T] {l m : EventLoop F T} {label : Label F T}

/-- What waits after a step has waited before, or is what the step queues. -/
theorem mem_waiting_step (hstep : Step l label m) {functor : F}
    (hmem : functor ∈ m.functors.waiting) : functor ∈ l.functors.waiting ∨
      label = .queueInLoop functor ∨ ∃ thread, label = .queueInLoopFrom thread functor := by
  have hpush (pushed : F) (h : functor ∈ (l.push pushed).functors.waiting) :
      functor ∈ l.functors.waiting ∨ functor = pushed := by
    simpa [push] using h
  cases hstep with
  | testQuit =>
      left
      split_ifs at hmem <;> exact hmem
  | @handleEvent channel =>
      left
      cases channel <;> exact hmem
  | swap =>
      left
      have hpending : functor ∈ l.functors.pending := by
        simpa [BatchQueue.swap, BatchQueue.waiting] using hmem
      exact List.mem_append_right _ hpending
  | run _ _ htodo =>
      left
      rw [l.functors.waiting_advance htodo]
      exact List.mem_cons_of_mem _ hmem
  | queueInLoop pushed =>
      rcases hpush pushed hmem with hold | rfl
      · exact .inl hold
      · exact .inr (.inl rfl)
  | queueInLoopFrom thread pushed =>
      rcases hpush pushed hmem with hold | rfl
      · exact .inl hold
      · exact .inr (.inr ⟨thread, rfl⟩)
  | _ => exact .inl hmem

/-- Other threads take nothing out of the queue. -/
theorem mem_waiting_of_isFrom (hstep : Step l label m) (hfrom : label.isFrom = true) {functor : F}
    (hmem : functor ∈ l.functors.waiting) : functor ∈ m.functors.waiting := by
  cases hstep with
  | queueInLoopFrom => simpa [push] using .inl hmem
  | quitFrom => exact hmem
  | wakeupFrom => exact hmem
  | _ => cases hfrom

end EventLoop

namespace Server.Teardown

variable {pool : IoPool} {s t : Teardown} {label : Label}

/-! ## No message in flight -/

/-- No removal waits in the queue of the base loop. -/
def NoneWaits (s : Teardown) : Prop :=
  ∀ functor ∈ s.base.functors.waiting, functor.isRemove = false

/-- The destructor starts while no removal waits, and no connection closes after that. -/
def NoneInFlight (s : Teardown) : Label → Prop
  | .destroy _ => NoneWaits s
  | .close _ => s.phase = .notStarted
  | _ => True

/-- From the start of the destructor on no removal waits. -/
theorem noneWaits_step (h : s.phase ≠ .notStarted → NoneWaits s) (hstep : Step pool s label t)
    (hflight : NoneInFlight s label) (hphase : t.phase ≠ .notStarted) : NoneWaits t := by
  cases hstep with
  | base call hmay hstep =>
      intro functor hmem
      rcases EventLoop.mem_waiting_step hstep hmem with hold | rfl | ⟨thread, rfl⟩
      · exact h hphase functor hold
      · exact hmay.2
      · exact hmay.2
  | io loop inner hmay hstep => exact h hphase
  | close c _ _ hstep => exact absurd hflight hphase
  | destroy connections hbefore => exact hflight
  | hand hbefore => exact h (by simp [hbefore])
  | wakeup hbefore => exact h (by simp [hbefore])
  | destroyPool hbefore => exact h (by simp [hbefore])
  | next hbefore => exact h (by simp [hbefore])
  | finish hbefore => exact h (by simp [hbefore])

/-! ## A message in flight -/

/-- Is the base thread in the destructor? -/
def Inside (s : Teardown) : Prop := ¬ s.phase.IsOutside

theorem isFrom_of_mayBase {call : EventLoop.Label BaseFunctor Thread} (hinside : Inside s)
    (hmay : s.MayBase call) : call.isFrom = true := by
  cases call with
  | queueInLoopFrom => rfl
  | quitFrom => rfl
  | wakeupFrom => rfl
  | queueInLoop functor => exact absurd hmay.1 hinside
  | _ => exact absurd hmay hinside

/-- The destructor runs no functor of the base loop, and ends destroyed. -/
theorem waits_step {functor : BaseFunctor} (hinside : Inside s)
    (hmem : functor ∈ s.base.functors.waiting) (hstep : Step pool s label t) :
    functor ∈ t.base.functors.waiting ∧ t.phase ≠ .notStarted := by
  have hphase : s.phase ≠ .notStarted := fun heq => hinside (.inl heq)
  cases hstep with
  | base call hmay hstep =>
      exact ⟨EventLoop.mem_waiting_of_isFrom hstep (isFrom_of_mayBase hinside hmay) hmem, hphase⟩
  | io loop inner hmay hstep => exact ⟨hmem, hphase⟩
  | close c _ _ hstep => exact ⟨EventLoop.mem_waiting_of_isFrom hstep rfl hmem, hphase⟩
  | destroy connections hbefore => exact absurd hbefore hphase
  | _ => exact ⟨hmem, fun heq => DestructorPhase.noConfusion heq⟩

/-- A step that leaves a removal in flight. -/
theorem exists_waits (hstep : Step pool s label t) (hflight : ¬ NoneInFlight s label) :
    ∃ c, .removeConnectionInLoop c ∈ t.base.functors.waiting ∧ t.phase ≠ .notStarted := by
  cases hstep with
  | destroy connections hbefore =>
      simp only [NoneInFlight, NoneWaits, not_forall] at hflight
      obtain ⟨functor, hmem, hremove⟩ := hflight
      cases functor with
      | removeConnectionInLoop c =>
          exact ⟨c, hmem, fun heq => DestructorPhase.noConfusion heq⟩
      | user id => exact absurd rfl hremove
  | close c _ _ hstep =>
      refine ⟨c, ?_, hflight⟩
      cases hstep
      simp [EventLoop.push]
  | _ => exact absurd trivial hflight

/-! ## The theorem -/

/-- The I/O threads have ended when the server is destroyed. -/
theorem Handing.not_close (h : Handing pool s) (hphase : s.phase = .destroyed) (c : ℕ) :
    ¬ Step pool s (.close c) t := by
  intro hstep
  cases hstep with
  | close _ hhandling hwaking hstep =>
      have hgone := h.gone _ (pool.loopOf_mem c) (by rw [hphase]; exact List.not_mem_nil)
      have hfinished := (h.synced (pool.loopOf c)).gone hgone
      have hstopped : (s.io (pool.loopOf c)).eventLoop.phase = .stopped := by
        rw [(h.synced _).stopped_iff, hfinished]
        decide
      rw [hstopped] at hhandling
      cases hhandling

theorem run_handing {labels : List Label} (hrun : Run (Step pool) {} labels s) : Handing pool s :=
  hrun.invariant start_handing fun _ _ _ => Handing.step

theorem noneWaits_run {labels : List Label}
    (hrun : Run (restrict (Step pool) NoneInFlight) {} labels s) (hphase : s.phase ≠ .notStarted) :
    NoneWaits s :=
  hrun.invariant (P := fun s => s.phase ≠ .notStarted → NoneWaits s)
    (fun hphase => absurd rfl hphase)
    (fun _ _ _ h hstep => noneWaits_step h hstep.1 hstep.2) hphase

/-- A message in flight is still there when the server has been destroyed. -/
theorem waits_run {labels : List Label} {functor : BaseFunctor}
    (hmem : functor ∈ s.base.functors.waiting) (hphase : s.phase ≠ .notStarted)
    (hrun : Run (restrict (Step pool) fun s _ => s.phase ≠ .destroyed) s labels t) :
    functor ∈ t.base.functors.waiting := by
  have h : functor ∈ t.base.functors.waiting ∧ t.phase ≠ .notStarted := by
    refine hrun.invariant (P := fun s => functor ∈ s.base.functors.waiting ∧ s.phase ≠ .notStarted)
      ⟨hmem, hphase⟩ fun a label b ha hstep => ?_
    have hinside : Inside a := fun houtside => houtside.elim ha.2 hstep.2
    exact waits_step hinside ha.1 hstep.1
  exact h.1

/-- If no removal is in flight when the destructor starts, and no connection closes after
that, the base loop executes none on the destroyed server.  One that is in flight waits for
it at the end of the destructor.  No connection sends one after that. -/
theorem no_message_to_destroyed (pool : IoPool) :
    (∀ labels s, Run (restrict (Step pool) NoneInFlight) {} labels s → s.phase = .destroyed →
      ∀ t, Step pool s (.base .run) t →
        ∃ functor, t.base.executed = s.base.executed ++ [functor] ∧ functor.isRemove = false) ∧
    ∀ labels s, Run (Step pool) {} labels s →
      (s.phase = .destroyed → ∀ c t, ¬ Step pool s (.close c) t) ∧
      ∀ label t, Step pool s label t → ¬ NoneInFlight s label →
        ∃ c, ∀ labels' u, Run (restrict (Step pool) fun s _ => s.phase ≠ .destroyed) t labels' u →
          .removeConnectionInLoop c ∈ u.base.functors.waiting := by
  refine ⟨fun labels s hrun hphase t hstep => ?_, fun labels s hrun => ⟨fun hphase c t => ?_, ?_⟩⟩
  · have hnone : NoneWaits s := noneWaits_run hrun (by rw [hphase]; decide)
    cases hstep with
    | base _ hmay hstep =>
        cases hstep with
        | @run functor rest _ _ htodo =>
            refine ⟨functor, rfl, hnone functor ?_⟩
            rw [BatchQueue.waiting, htodo]
            exact List.mem_append_left _ List.mem_cons_self
  · exact (run_handing hrun).not_close hphase c
  · intro label t hstep hflight
    obtain ⟨c, hmem, hphase⟩ := exists_waits hstep hflight
    exact ⟨c, fun labels' u hrun' => waits_run hmem hphase hrun'⟩

/-! ## A message that arrives too late -/

/-- A server whose only I/O loop is loop 0. -/
def single (base : EventLoop BaseFunctor Thread) (phase : DestructorPhase) (connections : List ℕ)
    (handed : List (ℕ × ℕ)) (u : EventLoopThread IoFunctor Thread) : Teardown :=
  { base := base, io := update (fun _ => {}) 0 u, phase := phase, connections := connections,
    handed := handed }

section Single

variable {base : EventLoop BaseFunctor Thread} {phase : DestructorPhase} {connections : List ℕ}
  {handed : List (ℕ × ℕ)} {u v : EventLoopThread IoFunctor Thread}

theorem single_setIo : (single base phase connections handed u).setIo 0 v =
    single base phase connections handed v := by
  rw [single, setIo, single, Function.update_idem]

theorem single_step {inner : EventLoopThread.Label IoFunctor Thread}
    (hstep : EventLoopThread.Step .base u inner v)
    (hmay : (single base phase connections handed u).MayIo 0 inner) :
    Step onePool (single base phase connections handed u) (.io 0 inner)
      (single base phase connections handed v) := by
  have h : Step onePool (single base phase connections handed u) (.io 0 inner)
      ((single base phase connections handed u).setIo 0 v) := .io 0 inner hmay hstep
  rwa [single_setIo] at h

theorem single_run {labels : List (EventLoopThread.Label IoFunctor Thread)}
    (hrun : Run (restrict (EventLoopThread.Step .base) fun t inner =>
      (single base phase connections handed t).MayIo 0 inner) u labels v) :
    Run (restrict (Step onePool) NoneInFlight) (single base phase connections handed u)
      (labels.map (.io 0)) (single base phase connections handed v) := by
  induction hrun with
  | nil => exact .nil
  | snoc _ hlast ih =>
      rw [List.map_append]
      exact ih.snoc ⟨single_step hlast.1 hlast.2, trivial⟩

end Single

/-- The base loop handles an event. -/
def baseHandling : EventLoop BaseFunctor Thread :=
  { looping := true, activeChannels := [.channel 9], phase := .handling }

/-- The I/O loop handles an event. -/
def ioHandling : EventLoopThread IoFunctor Thread where
  eventLoop := { looping := true, activeChannels := [.channel 5], phase := .handling }
  loopSet := true
  thread := .looping
  owner := .returned

theorem single_handling : ∃ labels, Run (restrict (Step onePool) NoneInFlight) {} labels
    (single baseHandling .notStarted [] [] ioHandling) := by
  have hbase : Run (restrict (Step onePool) NoneInFlight) (single {} .notStarted [] [] {}) _
      (single baseHandling .notStarted [] [] {}) :=
    ((Run.single ⟨.base .loop (.inl rfl) (.loop rfl), trivial⟩).snoc
      ⟨.base .testQuit (.inl rfl) (.testQuit rfl), trivial⟩).snoc
      ⟨.base (.poll [.channel 9]) (.inl rfl) (.poll _ rfl), by exact trivial⟩
  have hio : Run (restrict (EventLoopThread.Step .base) fun t inner =>
      (single baseHandling .notStarted [] [] t).MayIo 0 inner) {} _ ioHandling :=
    (((((Run.single ⟨.start rfl, rfl⟩).snoc ⟨.publish rfl, trivial⟩).snoc
      ⟨.eventLoop .loop rfl (.loop rfl), Finset.notMem_empty _⟩).snoc
      ⟨.returnLoop rfl rfl, rfl⟩).snoc
      ⟨.eventLoop .testQuit rfl (.testQuit rfl), Finset.notMem_empty _⟩).snoc
      ⟨.eventLoop (.poll [.channel 5]) (by exact rfl) (.poll _ rfl),
        by exact Finset.notMem_empty _⟩
  have hstart : ({} : Teardown) = single {} .notStarted [] [] {} := by
    rw [single, Function.update_eq_self_iff.2 rfl]
  rw [hstart]
  exact ⟨_, hbase.append (single_run hio)⟩

/-- The callback of the base loop destroys the server. -/
theorem single_destroy {base : EventLoop BaseFunctor Thread} (hphase : base.phase = .handling)
    (hwaking : base.waking = false) :
    Step onePool (single base .notStarted [] [] ioHandling) (.destroy [7])
      (single base (.handing [7]) [7] [] ioHandling) := by
  refine .destroy [7] rfl (.inr (.inl hphase)) hwaking (fun loop hloop => ?_) (fun loop => ?_)
  · obtain rfl : loop = 0 := List.mem_singleton.1 hloop
    rfl
  · cases loop <;> exact Finset.notMem_empty _

/-- The I/O loop was handed connection 7. -/
def ioHanded : EventLoopThread IoFunctor Thread :=
  { ioHandling with
    eventLoop := { ioHandling.eventLoop with
      functors := { pending := [.connectDestroyed 7] }
      queued := [.connectDestroyed 7]
      wakeupFd := 1 } }

/-- The I/O thread has ended. -/
def ioJoined : EventLoopThread IoFunctor Thread where
  eventLoop := {
    quit := true
    queued := [.connectDestroyed 7]
    executed := [.connectDestroyed 7]
    wakeupFd := 2 }
  thread := .finished
  owner := .joined
  asked := true

section Destructor

variable (base : EventLoop BaseFunctor Thread)

theorem single_handed :
    ∃ labels, Run (restrict (Step onePool) NoneInFlight) (single base (.handing [7]) [7] []
      ioHandling) labels (single base (.handing []) [7] [(7, 0)] ioHanded) := by
  -- the call of `queueInLoop` on the I/O loop
  let ioPushed : EventLoopThread IoFunctor Thread :=
    { ioHanded with
      eventLoop := { ioHanded.eventLoop with wakeupFd := 0, wakingThreads := insert .base ∅ } }
  have hpush : EventLoopThread.Step .base ioHandling
      (.eventLoop (.queueInLoopFrom .base (.connectDestroyed 7))) ioPushed :=
    .eventLoop _ (fun hthread => ThreadPhase.noConfusion hthread)
      (.queueInLoopFrom _ _ (Finset.notMem_empty _))
  have hwake : EventLoopThread.Step .base ioPushed (.eventLoop (.wakeupFrom .base)) ioHanded :=
    .eventLoop _ (fun hthread => ThreadPhase.noConfusion hthread) (.wakeupFrom _ (by decide))
  have hhand : Step onePool (single base (.handing [7]) [7] [] ioHandling) .hand
      (single base (.waking 0 []) [7] [(7, 0)] ioPushed) := by
    have h : Step onePool (single base (.handing [7]) [7] [] ioHandling) .hand
        { (single base (.handing [7]) [7] [] ioHandling).setIo 0 ioPushed with
          phase := .waking 0 [], handed := [(7, 0)] } := .hand rfl hpush
    rwa [single_setIo] at h
  have hwakeup : Step onePool (single base (.waking 0 []) [7] [(7, 0)] ioPushed) .wakeup
      (single base (.handing []) [7] [(7, 0)] ioHanded) := by
    have h : Step onePool (single base (.waking 0 []) [7] [(7, 0)] ioPushed) .wakeup
        { (single base (.waking 0 []) [7] [(7, 0)] ioPushed).setIo 0 ioHanded with
          phase := .handing [] } := .wakeup rfl hwake
    rwa [single_setIo] at h
  exact ⟨_, (Run.single ⟨hhand, trivial⟩).snoc ⟨hwakeup, trivial⟩⟩

theorem single_joined (hidle : base.wakingThreads = ∅) :
    ∃ labels, Run (restrict (Step onePool) NoneInFlight)
      (single base (.destroying [0]) [7] [(7, 0)] ioHanded) labels
      (single base (.destroying [0]) [7] [(7, 0)] ioJoined) := by
  have hnot : Thread.io 0 ∉ base.wakingThreads := hidle ▸ Finset.notMem_empty _
  have hquit : Run (restrict (EventLoopThread.Step .base) fun t inner =>
      (single base (.destroying [0]) [7] [(7, 0)] t).MayIo 0 inner) ioHanded _
      { ioHanded with
        eventLoop := { ioHanded.eventLoop with quit := true, wakeupFd := 2 }
        owner := .joining
        asked := true } :=
    ((Run.single ⟨.destroy rfl (Finset.notMem_empty _), ⟨[], rfl⟩⟩).snoc
      ⟨.eventLoop (.quitFrom .base) (fun hthread => ThreadPhase.noConfusion hthread)
        (.quitFrom _ (Finset.notMem_empty _)), fun _ => .inr rfl⟩).snoc
      ⟨.eventLoop (.wakeupFrom Thread.base)
        (by exact fun hthread => ThreadPhase.noConfusion hthread) (.wakeupFrom _ (by decide)),
        by exact fun _ _ hphase => DestructorPhase.noConfusion hphase⟩
  have hbatch : Run (restrict (EventLoopThread.Step .base) fun t inner =>
      (single base (.destroying [0]) [7] [(7, 0)] t).MayIo 0 inner)
      { ioHanded with
        eventLoop := { ioHanded.eventLoop with quit := true, wakeupFd := 2 }
        owner := .joining
        asked := true } _
      { ioJoined with
        eventLoop := { ioJoined.eventLoop with looping := true, phase := .testing }
        loopSet := true
        thread := .looping
        owner := .joining } :=
    ((((Run.single ⟨.eventLoop .handleEvent rfl (.handleEvent rfl rfl rfl), hnot⟩).snoc
      ⟨.eventLoop .doPendingFunctors rfl (.doPendingFunctors rfl rfl rfl), hnot⟩).snoc
      ⟨.eventLoop .swap rfl (.swap rfl), hnot⟩).snoc
      ⟨.eventLoop .run rfl (.run rfl rfl rfl), hnot⟩).snoc
      ⟨.eventLoop .finish (by exact rfl) (.finish rfl rfl rfl), by exact hnot⟩
  have hend : Run (restrict (EventLoopThread.Step .base) fun t inner =>
      (single base (.destroying [0]) [7] [(7, 0)] t).MayIo 0 inner)
      { ioJoined with
        eventLoop := { ioJoined.eventLoop with looping := true, phase := .testing }
        loopSet := true
        thread := .looping
        owner := .joining } _ ioJoined :=
    ((Run.single ⟨.eventLoop .testQuit rfl (.testQuit rfl), hnot⟩).snoc
      ⟨.clear rfl, trivial⟩).snoc
      ⟨.join rfl (Finset.notMem_empty _) rfl, by exact ⟨[], rfl⟩⟩
  exact ⟨_, single_run ((hquit.append hbatch).append hend)⟩

/-- The destructor, from its first connection on. -/
theorem single_destroyed (hidle : base.wakingThreads = ∅) :
    ∃ labels, Run (restrict (Step onePool) NoneInFlight)
      (single base (.handing [7]) [7] [] ioHandling) labels
      (single base .destroyed [7] [(7, 0)] ioJoined) := by
  obtain ⟨handed, hhanded⟩ := single_handed base
  obtain ⟨joined, hjoined⟩ := single_joined base hidle
  have hpool : Step onePool (single base (.handing []) [7] [(7, 0)] ioHanded) .destroyPool
      (single base (.destroying [0]) [7] [(7, 0)] ioHanded) := .destroyPool rfl
  have hend : Run (restrict (Step onePool) NoneInFlight)
      (single base (.destroying [0]) [7] [(7, 0)] ioJoined) _
      (single base .destroyed [7] [(7, 0)] ioJoined) :=
    (Run.single ⟨.next rfl (.inl rfl), trivial⟩).snoc ⟨.finish rfl, by exact trivial⟩
  exact ⟨_, ((hhanded.snoc ⟨hpool, trivial⟩).append hjoined).append hend⟩

end Destructor

/-- A functor waits in the queue of the base loop. -/
def baseWaiting (functor : BaseFunctor) (wakeups : ℕ) : EventLoop BaseFunctor Thread :=
  { baseHandling with
    functors := { pending := [functor] }
    queued := [functor]
    wakeupFd := wakeups }

/-- The base loop has taken its batch. -/
def baseCalling (functor : BaseFunctor) (wakeups : ℕ) : EventLoop BaseFunctor Thread :=
  { baseWaiting functor wakeups with
    callingPendingFunctors := true
    activeChannels := []
    functors := { todo := [functor] }
    phase := .calling }

/-- The base loop goes on after the destructor. -/
theorem single_calling (functor : BaseFunctor) (wakeups : ℕ) :
    ∃ labels, Run (restrict (Step onePool) NoneInFlight)
      (single (baseWaiting functor wakeups) .destroyed [7] [(7, 0)] ioJoined) labels
      (single (baseCalling functor wakeups) .destroyed [7] [(7, 0)] ioJoined) :=
  ⟨_, ((Run.single ⟨.base .handleEvent (.inr rfl) (.handleEvent rfl rfl rfl), trivial⟩).snoc
    ⟨.base .doPendingFunctors (.inr rfl) (.doPendingFunctors rfl rfl rfl), trivial⟩).snoc
    ⟨.base .swap (.inr rfl) (.swap rfl), by exact trivial⟩⟩

/-- Another functor is executed on the destroyed server. -/
theorem no_message_to_destroyed_user : ∃ s t : Teardown, s.phase = .destroyed ∧
    s.connections = [7] ∧ ∃ functor, t.base.executed = s.base.executed ++ [functor] ∧
      functor.isRemove = false := by
  obtain ⟨started, hstarted⟩ := single_handling
  obtain ⟨destroyed, hdestroyed⟩ := single_destroyed (baseWaiting (.user 3) 0) rfl
  obtain ⟨batch, hbatch⟩ := single_calling (.user 3) 0
  have hqueue : Step onePool (single baseHandling .notStarted [] [] ioHandling)
      (.base (.queueInLoop (.user 3)))
      (single (baseWaiting (.user 3) 0) .notStarted [] [] ioHandling) :=
    .base _ ⟨.inl rfl, rfl⟩ (.queueInLoop _ (.inr (.inl rfl)) rfl)
  have hnone : NoneWaits (single (baseWaiting (.user 3) 0) .notStarted [] [] ioHandling) := by
    intro functor hmem
    rw [List.mem_singleton.1 hmem]
    rfl
  have hrun := (((hstarted.snoc ⟨hqueue, trivial⟩).snoc
    ⟨single_destroy rfl rfl, hnone⟩).append hdestroyed).append hbatch
  exact ⟨_, _, rfl, rfl, (no_message_to_destroyed onePool).1 _ _ hrun rfl _
    (.base .run (.inr rfl) (.run rfl rfl rfl))⟩

/-- Connection 7 closes while the server is destroyed in a callback of the base loop: the
functor that it queues is executed afterwards. -/
theorem message_to_destroyed :
    ¬ ∀ (labels : List Label) (s t : Teardown), Run (Step onePool) {} labels s →
      s.phase = .destroyed → Step onePool s (.base .run) t →
        ∃ functor, t.base.executed = s.base.executed ++ [functor] ∧ functor.isRemove = false := by
  intro hclaim
  obtain ⟨started, hstarted⟩ := single_handling
  let baseSent := baseWaiting (.removeConnectionInLoop 7) 1
  have hclose : Step onePool (single baseHandling (.handing [7]) [7] [] ioHandling) (.close 7)
      (single { baseSent with wakeupFd := 0, wakingThreads := insert (.io 0) ∅ } (.handing [7]) [7]
        [] ioHandling) :=
    .close 7 rfl rfl (.queueInLoopFrom _ _ (Finset.notMem_empty _))
  have hsent : Step onePool
      (single { baseSent with wakeupFd := 0, wakingThreads := insert (.io 0) ∅ } (.handing [7]) [7]
        [] ioHandling) (.base (.wakeupFrom (.io 0)))
      (single baseSent (.handing [7]) [7] [] ioHandling) :=
    .base (.wakeupFrom (.io 0)) trivial (.wakeupFrom _ (by decide))
  obtain ⟨destroyed, hdestroyed⟩ := single_destroyed baseSent rfl
  obtain ⟨batch, hbatch⟩ := single_calling (.removeConnectionInLoop 7) 1
  have hstep (s : Teardown) (label : Label) (t : Teardown)
      (h : restrict (Step onePool) NoneInFlight s label t) : Step onePool s label t := h.1
  have hrun := ((((hstarted.mono hstep).snoc (single_destroy rfl rfl)).snoc hclose).snoc
    hsent).append ((hdestroyed.append hbatch).mono hstep)
  obtain ⟨functor, hexecuted, hremove⟩ :=
    hclaim _ _ _ hrun rfl (.base .run (.inr rfl) (.run rfl rfl rfl))
  obtain rfl : .removeConnectionInLoop 7 = functor := List.singleton_inj.1 hexecuted
  cases hremove

end Server.Teardown

end MuduoLite
