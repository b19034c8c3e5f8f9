import MuduoLite.Loop.QuitDrain
import MuduoLite.Server.Destructor

/-!
# The destructor tears down every connection

A `connectDestroyed` that the destructor hands to a loop is executed unless the loop is
past the swap of its last batch when the destructor quits it: then the functor stays in
`pendingFunctors_`, and the thread is joined without it.

The I/O loops run when the destructor starts, and nobody else quits them (`LoopsRun`).
-/

namespace MuduoLite

open Transition
open Function (update)

namespace Server.Teardown

open EventLoop (Fifo BeforeTest Missed)

variable {pool : IoPool} {s t : Teardown} {label : Label}

/-! ## What a step does to one I/O loop -/

/-- An I/O loop takes a step of its own, or the destructor queues a functor to it or wakes
it up. -/
theorem io_step (hstep : Step pool s label t) (loop : ℕ) : t.io loop = s.io loop ∨
    ∃ inner, EventLoopThread.Step .base (s.io loop) inner (t.io loop) ∧
      (label = .io loop inner ∧ s.MayIo loop inner ∨
        (label = .hand ∨ label = .wakeup) ∧ ∃ call, inner = .eventLoop call ∧
          call.isCall = true ∧ call.isQuit = false) := by
  cases hstep with
  | io other inner hmay hstep =>
      by_cases hother : loop = other
      · subst hother
        exact .inr ⟨inner, (s.setIo_io_self loop _).symm ▸ hstep, .inl ⟨rfl, hmay⟩⟩
      · exact .inl (s.setIo_io_of_ne hother _)
  | @hand c rest u hphase hstep =>
      by_cases hother : loop = pool.loopOf c
      · subst hother
        refine .inr ⟨_, ?_, .inr ⟨.inl rfl, .queueInLoopFrom .base (.connectDestroyed c), rfl, rfl,
          rfl⟩⟩
        show EventLoopThread.Step .base _ _ ((s.setIo (pool.loopOf c) u).io (pool.loopOf c))
        rw [setIo_io_self]
        exact hstep
      · exact .inl (s.setIo_io_of_ne hother _)
  | @wakeup other rest u hphase hstep =>
      by_cases hother : loop = other
      · subst hother
        refine .inr ⟨_, ?_, .inr ⟨.inr rfl, .wakeupFrom .base, rfl, rfl, rfl⟩⟩
        show EventLoopThread.Step .base _ _ ((s.setIo loop u).io loop)
        rw [setIo_io_self]
        exact hstep
      · exact .inl (s.setIo_io_of_ne hother _)
  | _ => exact .inl rfl

theorem eventLoop_step (hstep : Step pool s label t) (loop : ℕ) :
    (∃ inner, (s.io loop).Turn inner ∧ (s.io loop).eventLoop.Step inner (t.io loop).eventLoop) ∨
      (t.io loop).eventLoop = (s.io loop).eventLoop := by
  rcases io_step hstep loop with heq | ⟨inner, hinner, _⟩
  · exact .inr (by rw [heq])
  · rcases EventLoopThread.eventLoop_step hinner with ⟨call, _, hturn, hcall⟩ | ⟨_, heq⟩
    · exact .inl ⟨call, hturn, hcall⟩
    · exact .inr heq

/-- The owner of an `EventLoopThread` moves at the steps of that thread object only. -/
theorem owner_step (hstep : Step pool s label t) (loop : ℕ) :
    (t.io loop).owner = (s.io loop).owner ∨ ∃ inner, label = .io loop inner ∧
      s.MayIo loop inner ∧ EventLoopThread.Step .base (s.io loop) inner (t.io loop) := by
  rcases io_step hstep loop with heq | ⟨inner, hinner, ⟨hlabel, hmay⟩ | ⟨_, call, rfl, _, hquit⟩⟩
  · exact .inl (by rw [heq])
  · exact .inr ⟨inner, hlabel, hmay, hinner⟩
  · left
    rcases EventLoopThread.owner_step hinner with heq | h | h | h | ⟨_, hcall, _⟩ | h
    · exact heq
    · simp at h
    · simp at h
    · simp at h
    · obtain rfl := EventLoopThread.Label.eventLoop.inj hcall
      cases hquit
    · simp at h

/-- A loop that its owner has quit is joined next. -/
theorem joining_step (hstep : Step pool s label t) {loop : ℕ}
    (h : (s.io loop).owner = .joining ∨ (s.io loop).owner = .joined) :
    (t.io loop).owner = .joining ∨ (t.io loop).owner = .joined := by
  rcases owner_step hstep loop with heq | ⟨inner, _, _, hinner⟩
  · exact heq ▸ h
  · rcases EventLoopThread.owner_step hinner with heq | ⟨_, heq, _⟩ | ⟨_, heq, _⟩ |
      ⟨_, heq, _⟩ | ⟨heq, _⟩ | ⟨_, _, _, heq⟩
    · exact heq ▸ h
    · simp [heq] at h
    · simp [heq] at h
    · simp [heq] at h
    · simp [heq] at h
    · exact .inr heq

/-! ## Handing over -/

/-- Is the destructor not yet at the pool? -/
def Early (phase : DestructorPhase) : Prop :=
  phase = .notStarted ∨ (∃ rest, phase = .handing rest) ∨ ∃ loop rest, phase = .waking loop rest

/-- The connections that the destructor has still to come to. -/
def remaining : DestructorPhase → List ℕ
  | .handing rest => rest
  | .waking _ rest => rest
  | _ => []

/-- The threads of the pool that are not destroyed yet. -/
def left (pool : IoPool) : DestructorPhase → List ℕ
  | .destroying rest => rest
  | .destroyed => []
  | _ => pool.threads

/-- Is the `EventLoopThread` in its destructor or past it? -/
def InDestructor (owner : OwnerPhase) : Prop :=
  owner = .destroying ∨ owner = .joining ∨ owner = .joined ∨ owner = .detached

structure Handing (pool : IoPool) (s : Teardown) : Prop where
  fifo : ∀ loop, Fifo (s.io loop).eventLoop
  synced : ∀ loop, (s.io loop).Synced
  queued : ∀ entry ∈ s.handed, (s.io (pool.loopOf entry.1)).eventLoop.queued[entry.2]? =
    some (.connectDestroyed entry.1)
  handed : ∀ c ∈ s.connections, c ∈ remaining s.phase ∨ ∃ i, (c, i) ∈ s.handed
  early : Early s.phase → ∀ loop, ¬ InDestructor (s.io loop).owner
  gone : ∀ loop ∈ pool.threads, loop ∉ left pool s.phase →
    (s.io loop).owner = .joined ∨ (s.io loop).owner = .detached

theorem start_handing : Handing pool {} where
  fifo := fun loop => ⟨rfl, fun _ => rfl⟩
  synced := fun loop => EventLoopThread.start_synced
  queued := fun entry hentry => absurd hentry List.not_mem_nil
  handed := fun c hc => absurd hc List.not_mem_nil
  early := fun _ loop => by simp [InDestructor]
  gone := fun loop hloop hleft => absurd hloop hleft

/-- What stands in a queue stays there, and the functor that is handed over stands at the end. -/
theorem Handing.queued_step (h : Handing pool s) (hstep : Step pool s label t) :
    ∀ entry ∈ t.handed, (t.io (pool.loopOf entry.1)).eventLoop.queued[entry.2]? =
      some (.connectDestroyed entry.1) := by
  have hold (entry : ℕ × ℕ) (hentry : entry ∈ s.handed) :
      (t.io (pool.loopOf entry.1)).eventLoop.queued[entry.2]? =
        some (.connectDestroyed entry.1) := by
    rcases eventLoop_step hstep (pool.loopOf entry.1) with ⟨inner, _, hinner⟩ | heq
    · exact EventLoop.getElem?_queued_step hinner (h.queued entry hentry)
    · exact heq ▸ h.queued entry hentry
  cases hstep with
  | @hand c rest u hphase hstep =>
      intro entry hentry
      rcases List.mem_cons.1 hentry with rfl | hentry
      · show ((s.setIo (pool.loopOf c) u).io (pool.loopOf c)).eventLoop.queued[_]? = _
        rw [setIo_io_self]
        cases hstep with
        | eventLoop inner hturn hstep =>
            cases hstep
            simp [EventLoop.push]
      · exact hold entry hentry
  | _ => exact hold

/-- A connection leaves `remaining` when its functor is handed over. -/
theorem Handing.handed_step (h : Handing pool s) (hstep : Step pool s label t) :
    ∀ c ∈ t.connections, c ∈ remaining t.phase ∨ ∃ i, (c, i) ∈ t.handed := by
  have hremaining : ∀ c, c ∈ s.connections → remaining s.phase = [] → ∃ i, (c, i) ∈ s.handed :=
    fun c hc hnone => (h.handed c hc).resolve_left (by simp [hnone])
  cases hstep with
  | destroy connections hphase => exact fun c hc => .inl hc
  | @hand first rest u hphase hstep =>
      intro c hc
      rcases h.handed c hc with hrest | ⟨i, hi⟩
      · rw [hphase] at hrest
        rcases List.mem_cons.1 hrest with rfl | hrest
        · exact .inr ⟨_, List.mem_cons_self⟩
        · exact .inl hrest
      · exact .inr ⟨i, List.mem_cons_of_mem _ hi⟩
  | wakeup hphase =>
      intro c hc
      have := h.handed c hc
      rwa [hphase] at this
  | destroyPool hphase => exact fun c hc => .inr (hremaining c hc (by rw [hphase]; rfl))
  | next hphase => exact fun c hc => .inr (hremaining c hc (by rw [hphase]; rfl))
  | finish hphase => exact fun c hc => .inr (hremaining c hc (by rw [hphase]; rfl))
  | _ => exact h.handed

theorem early_of_step (hstep : Step pool s label t) (hearly : Early t.phase) : Early s.phase := by
  cases hstep with
  | destroy connections hphase => exact .inl hphase
  | hand hphase => exact .inr (.inl ⟨_, hphase⟩)
  | wakeup hphase => exact .inr (.inr ⟨_, _, hphase⟩)
  | destroyPool => simp [Early] at hearly
  | next => simp [Early] at hearly
  | finish => simp [Early] at hearly
  | _ => exact hearly

/-- No `~EventLoopThread` runs until the pool is destroyed. -/
theorem Handing.early_step (h : Handing pool s) (hstep : Step pool s label t)
    (hearly : Early t.phase) (loop : ℕ) : ¬ InDestructor (t.io loop).owner := by
  have hbefore := early_of_step hstep hearly
  have howner := h.early hbefore loop
  rcases owner_step hstep loop with heq | ⟨inner, rfl, hmay, hinner⟩
  · rwa [heq]
  · rcases EventLoopThread.owner_step hinner with heq | ⟨_, _, heq⟩ | ⟨_, _, heq⟩ | ⟨rfl, _⟩ |
      ⟨hjoining, _⟩ | ⟨_, hjoining, _⟩
    · rwa [heq]
    · simp [heq, InDestructor]
    · simp [heq, InDestructor]
    · obtain ⟨rest, hphase⟩ := hmay
      simp [hphase, Early] at hbefore
    · exact absurd (.inl hjoining) howner
    · exact absurd (.inr (.inl hjoining)) howner

/-- The destructor of a thread that is gone has come to its end. -/
theorem gone_step (hstep : Step pool s label t) {loop : ℕ}
    (hgone : (s.io loop).owner = .joined ∨ (s.io loop).owner = .detached) :
    (t.io loop).owner = .joined ∨ (t.io loop).owner = .detached := by
  rcases owner_step hstep loop with heq | ⟨inner, _, _, hinner⟩
  · rwa [heq]
  · rcases EventLoopThread.owner_step hinner with heq | ⟨_, howner, _⟩ | ⟨_, howner, _⟩ |
      ⟨_, howner, _⟩ | ⟨howner, _⟩ | ⟨_, howner, _⟩
    · rwa [heq]
    all_goals simp [howner] at hgone

/-- `~EventLoopThreadPool` goes on to the next thread when one is gone. -/
theorem Handing.gone_step (h : Handing pool s) (hstep : Step pool s label t) :
    ∀ loop ∈ pool.threads, loop ∉ left pool t.phase →
      (t.io loop).owner = .joined ∨ (t.io loop).owner = .detached := by
  intro loop hloop hleft
  have hstays := @Teardown.gone_step _ _ _ _ hstep loop
  cases hstep with
  | destroy connections hphase => exact absurd hloop hleft
  | hand hphase => exact absurd hloop hleft
  | wakeup hphase => exact absurd hloop hleft
  | destroyPool hphase => exact absurd hloop hleft
  | @next first rest hphase hgone =>
      by_cases hfirst : loop = first
      · exact hstays (hfirst ▸ hgone)
      · refine hstays (h.gone loop hloop ?_)
        rw [hphase]
        exact fun hmem => (List.mem_cons.1 hmem).elim hfirst hleft
  | finish hphase => exact hstays (h.gone loop hloop (by rw [hphase]; exact List.not_mem_nil))
  | _ => exact hstays (h.gone loop hloop hleft)

theorem Handing.step (h : Handing pool s) (hstep : Step pool s label t) : Handing pool t where
  fifo := by
    intro loop
    rcases eventLoop_step hstep loop with ⟨inner, _, hinner⟩ | heq
    · exact (h.fifo loop).step hinner
    · exact heq ▸ h.fifo loop
  synced := by
    intro loop
    rcases io_step hstep loop with heq | ⟨inner, hinner, _⟩
    · exact heq ▸ h.synced loop
    · exact (h.synced loop).step hinner
  queued := h.queued_step hstep
  handed := h.handed_step hstep
  early := h.early_step hstep
  gone := h.gone_step hstep

/-! ## Quitting in time -/

/-- The I/O loops run when the destructor starts, and nobody else quits them. -/
def LoopsRun (pool : IoPool) (s : Teardown) : Label → Prop
  | .destroy _ => ∀ loop ∈ pool.threads, (s.io loop).thread = .looping
  | .io _ (.eventLoop call) =>
      call.isQuit = true → call = .quitFrom .base ∧ s.phase ≠ .notStarted
  | _ => True

/-- The destructor of an `EventLoopThread` quits the loop while no `connectDestroyed` that it
was handed waits in `pendingFunctors_`, or before the swap that takes it. -/
def InTime (pool : IoPool) (s : Teardown) : Label → Prop
  | .io loop (.eventLoop call) => call = .quitFrom .base → (s.io loop).owner = .destroying →
      ∀ entry ∈ s.handed, pool.loopOf entry.1 = loop → (s.io loop).eventLoop.BeforeTest entry.2
  | _ => True

/-- What a loop was handed before its quit comes before its last test of the flag. -/
structure OnTime (pool : IoPool) (s : Teardown) : Prop extends Handing pool s where
  inTime : ∀ loop, (s.io loop).owner = .joining ∨ (s.io loop).owner = .joined →
    ∀ entry ∈ s.handed, pool.loopOf entry.1 = loop → (s.io loop).eventLoop.BeforeTest entry.2

theorem handed_step (hstep : Step pool s label t) :
    t.handed = s.handed ∨ label = .hand ∧ Early s.phase := by
  cases hstep with
  | hand hphase => exact .inr ⟨rfl, .inr (.inl ⟨_, hphase⟩)⟩
  | _ => exact .inl rfl

theorem OnTime.step (h : OnTime pool s) (hstep : Step pool s label t)
    (htime : InTime pool s label) : OnTime pool t where
  toHanding := h.toHanding.step hstep
  inTime := by
    intro loop howner entry hentry hloop
    have hbefore : entry ∈ s.handed ∧ (s.io loop).eventLoop.BeforeTest entry.2 := by
      rcases handed_step hstep with heq | ⟨rfl, hearly⟩
      · rw [heq] at hentry
        refine ⟨hentry, ?_⟩
        rcases owner_step hstep loop with heq | ⟨inner, rfl, _, hinner⟩
        · exact h.inTime loop (heq ▸ howner) entry hentry hloop
        · rcases EventLoopThread.owner_step hinner with heq | ⟨_, _, heq⟩ | ⟨_, _, heq⟩ |
            ⟨_, _, heq⟩ | ⟨hdestroying, rfl, _⟩ | ⟨_, hjoining, _⟩
          · exact h.inTime loop (heq ▸ howner) entry hentry hloop
          · simp [heq] at howner
          · simp [heq] at howner
          · rw [heq] at howner
            split_ifs at howner <;> simp at howner
          · exact htime rfl hdestroying entry hentry hloop
          · exact h.inTime loop (.inl hjoining) entry hentry hloop
      · -- nothing is handed over once a loop has been quit
        rcases owner_step hstep loop with heq | ⟨inner, hlabel, _⟩
        · have hgone : InDestructor (s.io loop).owner :=
            .inr ((heq ▸ howner).imp_right .inl)
          exact absurd hgone (h.early hearly loop)
        · cases hlabel
    rcases eventLoop_step hstep loop with ⟨inner, _, hinner⟩ | heq
    · exact hbefore.2.step (h.fifo loop) hinner
    · exact heq ▸ hbefore.2

/-- The loops of the pool run until the destructor quits them. -/
structure Running (pool : IoPool) (s : Teardown) : Prop where
  calm : ∀ loop, (s.io loop).owner ≠ .joining → (s.io loop).owner ≠ .joined →
    (s.io loop).eventLoop.quit = false
  running : s.phase ≠ .notStarted → ∀ loop ∈ pool.threads,
    ((s.io loop).owner = .returned ∨ (s.io loop).owner = .destroying) ∧
        (s.io loop).thread = .looping ∨
      (s.io loop).owner = .joining ∨ (s.io loop).owner = .joined

theorem start_running : Running pool {} where
  calm := fun _ _ _ => rfl
  running := fun hphase => absurd rfl hphase

theorem Running.calm_step (h : Running pool s) (hstep : Step pool s label t)
    (hruns : LoopsRun pool s label) {loop : ℕ} (hjoining : (t.io loop).owner ≠ .joining)
    (hjoined : (t.io loop).owner ≠ .joined) : (t.io loop).eventLoop.quit = false := by
  have hbefore : (s.io loop).eventLoop.quit = false := by
    apply h.calm
    · exact fun heq => (joining_step hstep (.inl heq)).elim hjoining hjoined
    · exact fun heq => (joining_step hstep (.inr heq)).elim hjoining hjoined
  rcases io_step hstep loop with heq | ⟨inner, hinner, hcause⟩
  · rwa [heq]
  · rcases EventLoopThread.eventLoop_step hinner with ⟨call, rfl, _, hcall⟩ | ⟨_, heq⟩
    · refine EventLoop.quit_step hcall ?_ hbefore
      -- only the destructor of the thread quits the loop, and then it is joining
      rcases hcause with ⟨rfl, hmay⟩ | ⟨_, call', heq, _, hquit⟩
      · by_contra hquit
        obtain ⟨rfl, hstarted⟩ := hruns (Bool.eq_true_of_not_eq_false hquit)
        have hdestroying : (s.io loop).owner = .destroying := (hmay rfl).resolve_left hstarted
        exact hjoining (EventLoopThread.owner_of_quit hinner hdestroying)
      · rwa [EventLoopThread.Label.eventLoop.inj heq]
    · rwa [heq]

theorem Running.step (h : Running pool s) (hhanding : Handing pool s)
    (hstep : Step pool s label t) (hruns : LoopsRun pool s label) : Running pool t where
  calm := fun loop hjoining hjoined => h.calm_step hstep hruns hjoining hjoined
  running := by
    intro hphase loop hloop
    by_cases hstarted : s.phase = .notStarted
    · -- the destructor starts
      cases hstep with
      | destroy connections _ _ _ howner _ =>
          exact .inl ⟨.inl (howner loop hloop), hruns loop hloop⟩
      | hand hbefore => simp [hstarted] at hbefore
      | wakeup hbefore => simp [hstarted] at hbefore
      | destroyPool hbefore => simp [hstarted] at hbefore
      | next hbefore => simp [hstarted] at hbefore
      | finish hbefore => simp [hstarted] at hbefore
      | _ => exact absurd hstarted hphase
    · rcases h.running hstarted loop hloop with ⟨howner, hlooping⟩ | hquit
      · have hcalm : (s.io loop).eventLoop.quit = false := by
          apply h.calm
          · rcases howner with heq | heq <;> simp [heq]
          · rcases howner with heq | heq <;> simp [heq]
        rcases io_step hstep loop with heq | ⟨inner, hinner, _⟩
        · exact .inl (by rw [heq]; exact ⟨howner, hlooping⟩)
        · have hsynced := hhanding.synced loop
          have hthread := hsynced.looping_step hinner hlooping hcalm
          -- where the owner of the thread may go from here
          rcases EventLoopThread.owner_step hinner with heq | ⟨_, heq, _⟩ | ⟨_, heq, _⟩ |
            ⟨_, hreturned, heq⟩ | ⟨_, _, heq⟩ | ⟨_, heq, _⟩
          · exact .inl ⟨heq ▸ howner, hthread⟩
          · simp [heq] at howner
          · simp [heq] at howner
          · have hset : (s.io loop).loopSet = true := by
              refine (hsynced.hasLoop_set (by rw [hreturned]; rfl)).resolve_right ?_
              rw [hlooping]
              decide
            exact .inl ⟨.inr (by rw [heq, if_pos hset]), hthread⟩
          · exact .inr (.inl heq)
          · simp [heq] at howner
      · exact .inr (joining_step hstep hquit)

/-! ## The theorem -/

/-- The loop of `c` has executed the `connectDestroyed` that it was handed. -/
def TornDown (pool : IoPool) (s : Teardown) (c : ℕ) : Prop :=
  ∃ i, (c, i) ∈ s.handed ∧
    (s.io (pool.loopOf c)).eventLoop.executed[i]? = some (.connectDestroyed c)

theorem Handing.executed (h : Handing pool s) {entry : ℕ × ℕ} (hentry : entry ∈ s.handed)
    (hbefore : (s.io (pool.loopOf entry.1)).eventLoop.BeforeTest entry.2)
    (hstopped : (s.io (pool.loopOf entry.1)).eventLoop.phase = .stopped) :
    (s.io (pool.loopOf entry.1)).eventLoop.executed[entry.2]? =
      some (.connectDestroyed entry.1) := by
  have hfifo := h.fifo (pool.loopOf entry.1)
  rw [hfifo.getElem?_executed (hbefore.executed_of_stopped hfifo hstopped)]
  exact h.queued entry hentry

/-- What is joined has torn its connections down. -/
theorem OnTime.tornDown (h : OnTime pool s) {c : ℕ} (hc : c ∈ s.connections)
    (hphase : remaining s.phase = [])
    (howner : (s.io (pool.loopOf c)).owner = .joining ∨ (s.io (pool.loopOf c)).owner = .joined)
    (hthread : (s.io (pool.loopOf c)).thread = .finished) : TornDown pool s c := by
  obtain ⟨i, hi⟩ := (h.handed c hc).resolve_left (by simp [hphase])
  have hstopped : (s.io (pool.loopOf c)).eventLoop.phase = .stopped := by
    rw [(h.synced _).stopped_iff, hthread]
    decide
  exact ⟨i, hi, h.toHanding.executed hi (h.inTime _ howner (c, i) hi rfl) hstopped⟩

theorem OnTime.run {labels : List Label}
    (hrun : Run (restrict (Step pool) (InTime pool)) {} labels s) : OnTime pool s :=
  hrun.invariant ⟨start_handing, fun loop howner => by simp at howner⟩
    fun _ _ _ h hstep => h.step hstep.1 hstep.2

/-- The thread of a loop is joined after the loop has executed what it was handed. -/
theorem OnTime.join (h : OnTime pool s) {loop : ℕ} (hstep : Step pool s (.io loop .join) t) {c : ℕ}
    (hc : c ∈ s.connections) (hloop : pool.loopOf c = loop) : TornDown pool s c := by
  cases hstep with
  | io _ _ hmay hinner =>
      obtain ⟨rest, hphase⟩ := hmay
      cases hinner with
      | join howner hidle hthread =>
          subst hloop
          exact h.tornDown hc (by rw [hphase]; rfl) (.inl howner) hthread

/-- At its end the destructor has joined the threads of all connections. -/
theorem Running.destroyed (h : Running pool s) (hontime : OnTime pool s)
    (hphase : s.phase = .destroyed) {c : ℕ} (hc : c ∈ s.connections) : TornDown pool s c := by
  have hgone := hontime.gone _ (pool.loopOf_mem c) (by rw [hphase]; exact List.not_mem_nil)
  have hjoined : (s.io (pool.loopOf c)).owner = .joined := by
    refine hgone.resolve_right fun hdetached => ?_
    rcases h.running (by rw [hphase]; decide) _ (pool.loopOf_mem c) with ⟨howner, _⟩ | howner
    · simp [hdetached] at howner
    · simp [hdetached] at howner
  exact hontime.tornDown hc (by rw [hphase]; rfl) (.inr hjoined)
    ((hontime.synced _).gone (.inl hjoined))

/-- No step of another party makes up for a quit that came too late. -/
theorem missed_step (hstep : Step pool s label t) {loop i : ℕ}
    (htest : label ≠ .io loop (.eventLoop .testQuit)) (h : Missed (s.io loop).eventLoop i) :
    Missed (t.io loop).eventLoop i := by
  rcases io_step hstep loop with heq | ⟨inner, hinner, hcause⟩
  · exact heq ▸ h
  · rcases EventLoopThread.eventLoop_step hinner with ⟨call, rfl, _, hcall⟩ | ⟨_, heq⟩
    · refine h.step hcall ?_
      rintro rfl
      rcases hcause with ⟨rfl, _⟩ | ⟨_, call', heq, hiscall, _⟩
      · exact htest rfl
      · rw [← EventLoopThread.Label.eventLoop.inj heq] at hiscall
        cases hiscall
    · exact heq ▸ h

/-- A loop that is quit too late leaves at its next test of the flag, without a functor that
it was handed. -/
theorem Running.missed (h : Running pool s) (hontime : OnTime pool s) {loop : ℕ}
    (hstep : Step pool s (.io loop (.eventLoop (.quitFrom .base))) t)
    (hruns : LoopsRun pool s (.io loop (.eventLoop (.quitFrom .base))))
    (hlate : ¬ InTime pool s (.io loop (.eventLoop (.quitFrom .base)))) :
    ∃ c i, pool.loopOf c = loop ∧ (c, i) ∈ s.handed ∧ ∀ labels u v,
      Run (restrict (Step pool) fun _ other => other ≠ .io loop (.eventLoop .testQuit)) t labels u →
      Step pool u (.io loop (.eventLoop .testQuit)) v →
        (v.io loop).eventLoop.phase = .stopped ∧ (v.io loop).eventLoop.executed[i]? = none := by
  simp only [InTime, not_forall] at hlate
  obtain ⟨_, hdestroying, ⟨c, i⟩, hentry, rfl, hlate⟩ := hlate
  obtain ⟨_, hstarted⟩ := hruns rfl
  have hqueued : i < (s.io (pool.loopOf c)).eventLoop.queued.length :=
    (List.getElem?_eq_some_iff.1 (hontime.queued (c, i) hentry)).1
  have hphase : (s.io (pool.loopOf c)).eventLoop.phase ≠ .stopped := by
    rcases h.running hstarted _ (pool.loopOf_mem c) with ⟨_, hlooping⟩ | howner
    · exact fun hphase => ((hontime.synced _).stopped_iff.1 hphase) hlooping
    · simp [hdestroying] at howner
  have hmissed : Missed (t.io (pool.loopOf c)).eventLoop i := by
    cases hstep with
    | io _ _ hmay hinner =>
        rw [setIo_io_self]
        cases hinner with
        | eventLoop _ hturn hinner => exact .of_quit hinner rfl hphase hqueued hlate
  refine ⟨c, i, rfl, hentry, fun labels u v hrun hlast => ?_⟩
  have hmissed' : Missed (u.io (pool.loopOf c)).eventLoop i :=
    hrun.invariant (P := fun u => Missed (u.io (pool.loopOf c)).eventLoop i) hmissed
      fun _ _ _ ha hother => missed_step hother.1 hother.2 ha
  cases hlast with
  | io _ _ hmay hinner =>
      rw [setIo_io_self]
      cases hinner with
      | eventLoop _ hturn hinner => exact hmissed'.testQuit hinner

/-- A loop executes what was queued before it was asked to quit, unless it is past the swap
of its last batch by then.  So the destructor of the server tears all connections down if
it quits every loop in time, and if it quits one too late, a connection of that loop is
left. -/
theorem shutdown_tears_down {F T : Type*} [DecidableEq T] (pool : IoPool) :
    (∀ labels (l : TrackedLoop F T),
      Run (restrict TrackedLoop.Step TrackedLoop.QuitsDrained) {} labels l →
      (l.loop.phase = .stopped → ∀ i ∈ l.due,
        ∃ functor, l.loop.queued[i]? = some functor ∧ l.loop.executed[i]? = some functor) ∧
      ∀ label m, l.Step label m → ¬ l.QuitsDrained label → ∃ i ∈ m.due,
        ∀ labels' u v,
          Run (restrict TrackedLoop.Step fun _ other => other ≠ .testQuit) m labels' u →
          u.Step .testQuit v → v.loop.phase = .stopped ∧ v.loop.executed[i]? = none) ∧
    (∀ labels s, Run (restrict (Step pool) (InTime pool)) {} labels s →
      ∀ loop t, Step pool s (.io loop .join) t →
        ∀ c ∈ s.connections, pool.loopOf c = loop → TornDown pool s c) ∧
    ∀ labels s,
      Run (restrict (Step pool) fun s label => LoopsRun pool s label ∧ InTime pool s label) {}
        labels s →
      (s.phase = .destroyed → ∀ c ∈ s.connections, TornDown pool s c) ∧
      ∀ loop t, Step pool s (.io loop (.eventLoop (.quitFrom .base))) t →
        LoopsRun pool s (.io loop (.eventLoop (.quitFrom .base))) →
        ¬ InTime pool s (.io loop (.eventLoop (.quitFrom .base))) →
        ∃ c i, pool.loopOf c = loop ∧ (c, i) ∈ s.handed ∧ ∀ labels' u v,
          Run (restrict (Step pool) fun _ other => other ≠ .io loop (.eventLoop .testQuit)) t
            labels' u →
          Step pool u (.io loop (.eventLoop .testQuit)) v →
            (v.io loop).eventLoop.phase = .stopped ∧
              (v.io loop).eventLoop.executed[i]? = none := by
  refine ⟨TrackedLoop.executed_before_return, fun labels s hrun loop t hstep c hc hloop => ?_,
    fun labels s hrun => ?_⟩
  · exact (OnTime.run hrun).join hstep hc hloop
  -- the loops run and are quit in time, so both invariants hold
  · have hontime : OnTime pool s :=
      .run (hrun.mono fun _ _ _ hstep => ⟨hstep.1, hstep.2.2⟩)
    have hrunning : Running pool s :=
      (hrun.invariant (P := fun s => Handing pool s ∧ Running pool s)
        ⟨start_handing, start_running⟩ fun _ _ _ h hstep =>
          ⟨h.1.step hstep.1, h.2.step h.1 hstep.1 hstep.2.1⟩).2
    exact ⟨fun hphase c hc => hrunning.destroyed hontime hphase hc,
      fun loop t hstep hruns hlate => hrunning.missed hontime hstep hruns hlate⟩

/-- One I/O loop, the loop of all connections. -/
def onePool : IoPool where
  threads := [0]
  loopOf := fun _ => 0
  nodup := List.nodup_singleton 0
  loopOf_mem := fun _ => List.mem_singleton.2 rfl

/-- A step of a loop that does not quit it. -/
theorem quietly {loop : ℕ} {call : EventLoop.Label IoFunctor Thread} (hcall : call.isQuit = false) :
    LoopsRun pool s (.io loop (.eventLoop call)) ∧ InTime pool s (.io loop (.eventLoop call)) := by
  refine ⟨fun hquit => absurd hquit (by simp [hcall]), ?_⟩
  rintro rfl
  cases hcall

/-- The destructor hands connection 7 over and quits the loop while it polls; the loop tears
the connection down and returns, and its thread is joined. -/
theorem run_destroyed : ∃ labels s,
    Run (restrict (Step onePool) fun s label => LoopsRun onePool s label ∧ InTime onePool s label)
      {} labels s ∧ s.phase = .destroyed ∧ s.connections = [7] := by
  have hloop : Run (restrict (Step onePool)
      fun s label => LoopsRun onePool s label ∧ InTime onePool s label) {} _ _ :=
    (((Run.single ⟨.io 0 .start rfl (.start rfl), trivial, trivial⟩).snoc
      ⟨.io 0 .publish trivial (.publish rfl), trivial, trivial⟩).snoc
      ⟨.io 0 (.eventLoop .loop) (Finset.notMem_empty _) (.eventLoop .loop rfl (.loop rfl)),
        quietly rfl⟩).snoc
      ⟨.io 0 .returnLoop (by exact rfl) (.returnLoop rfl rfl), trivial, trivial⟩
  -- the loop runs and polls
  have hpolling := hloop.snoc
    ⟨.io 0 (.eventLoop .testQuit) (Finset.notMem_empty _) (.eventLoop _ rfl (.testQuit rfl)),
      quietly rfl⟩
  -- `~TcpServer` hands connection 7 over
  have hhanded :=
    ((hpolling.snoc
      ⟨.destroy [7] rfl (.inl rfl) rfl
        (fun loop hloop => by
          obtain rfl := List.mem_singleton.1 hloop
          rfl)
        (fun loop => by cases loop <;> exact Finset.notMem_empty _),
        fun loop hloop => by
          obtain rfl := List.mem_singleton.1 hloop
          rfl, trivial⟩).snoc
      ⟨.hand rfl (.eventLoop _ (fun hthread => ThreadPhase.noConfusion hthread)
        (.queueInLoopFrom _ _ (Finset.notMem_empty _))), trivial, trivial⟩).snoc
      ⟨.wakeup rfl (.eventLoop _ (fun hthread => ThreadPhase.noConfusion hthread)
        (.wakeupFrom _ (Finset.mem_union_left _ (Finset.mem_insert_self _ _)))), trivial, trivial⟩
  -- `~EventLoopThread` quits the loop, which still polls
  have hquit :=
    (((hhanded.snoc ⟨.destroyPool rfl, trivial, trivial⟩).snoc
      ⟨.io 0 .destroy ⟨_, rfl⟩ (.destroy rfl (by decide)), trivial, trivial⟩).snoc
      ⟨.io 0 (.eventLoop (.quitFrom .base)) (fun _ => .inr rfl)
        (.eventLoop _ (fun hthread => ThreadPhase.noConfusion hthread) (.quitFrom _ (by decide))),
        fun _ => ⟨rfl, fun hphase => DestructorPhase.noConfusion hphase⟩,
        fun _ _ entry hentry _ => by
          rw [List.mem_singleton.1 hentry]
          exact ⟨Nat.zero_lt_one, .inl (.inl rfl)⟩⟩).snoc
      ⟨.io 0 (.eventLoop (.wakeupFrom .base)) (fun _ _ hphase => DestructorPhase.noConfusion hphase)
        (.eventLoop _ (fun hthread => ThreadPhase.noConfusion hthread) (.wakeupFrom _ (by decide))),
        quietly rfl⟩
  -- the batch with `connectDestroyed`
  have hexecuted :=
    (((hquit.snoc
      ⟨.io 0 (.eventLoop (.poll [])) (Finset.notMem_empty _) (.eventLoop _ rfl (.poll [] rfl)),
        quietly rfl⟩).snoc
      ⟨.io 0 (.eventLoop .doPendingFunctors) (Finset.notMem_empty _)
        (.eventLoop _ rfl (.doPendingFunctors rfl rfl rfl)), quietly rfl⟩).snoc
      ⟨.io 0 (.eventLoop .swap) (Finset.notMem_empty _) (.eventLoop _ rfl (.swap rfl)),
        quietly rfl⟩).snoc
      ⟨.io 0 (.eventLoop .run) (Finset.notMem_empty _) (.eventLoop _ rfl (.run rfl rfl rfl)),
        quietly rfl⟩
  -- the loop returns, and the thread can be joined
  have hfinished :=
    ((hexecuted.snoc
      ⟨.io 0 (.eventLoop .finish) (Finset.notMem_empty _) (.eventLoop _ rfl (.finish rfl rfl rfl)),
        quietly rfl⟩).snoc
      ⟨.io 0 (.eventLoop .testQuit) (Finset.notMem_empty _) (.eventLoop _ rfl (.testQuit rfl)),
        quietly rfl⟩).snoc
      ⟨.io 0 .clear trivial (.clear rfl), trivial, trivial⟩
  have hdestroyed :=
    ((hfinished.snoc ⟨.io 0 .join ⟨_, rfl⟩ (.join rfl (by decide) rfl), trivial, trivial⟩).snoc
      ⟨.next rfl (.inl rfl), trivial, trivial⟩).snoc ⟨.finish rfl, trivial, trivial⟩
  exact ⟨_, _, hdestroyed, rfl, rfl⟩

/-- That run of the destructor, and a loop that is quit by another thread while it polls. -/
theorem shutdown_tears_down_polling :
    (∃ s : Teardown, s.phase = .destroyed ∧ s.connections = [7] ∧ TornDown onePool s 7) ∧
    ∃ l : TrackedLoop ℕ ℕ, l.loop.phase = .stopped ∧ l.due = {0} ∧
      ∃ functor, l.loop.queued[0]? = some functor ∧ l.loop.executed[0]? = some functor := by
  obtain ⟨labels, s, hdestroyed, hphase, hconnections⟩ := run_destroyed
  have hseven : 7 ∈ s.connections := by
    rw [hconnections]
    exact List.mem_singleton_self 7
  have hquit :
      Run (restrict (TrackedLoop.Step (F := ℕ) (T := ℕ)) TrackedLoop.QuitsDrained) {} _ _ :=
    ((((Run.single ⟨⟨_, .loop rfl, rfl⟩, nofun⟩).snoc ⟨⟨_, .testQuit rfl, rfl⟩, nofun⟩).snoc
      ⟨⟨_, .queueInLoopFrom 1 7 (by decide), rfl⟩, nofun⟩).snoc
      ⟨⟨_, .wakeupFrom 1 (by decide), rfl⟩, nofun⟩).snoc
      ⟨⟨_, .quitFrom 2 (by decide), rfl⟩, fun _ _ i hi => ⟨by revert i; decide, .inl (.inl rfl)⟩⟩
  have hreturned : Run (restrict (TrackedLoop.Step (F := ℕ) (T := ℕ)) TrackedLoop.QuitsDrained) {}
      _ _ :=
    (((((hquit.snoc ⟨⟨_, .poll [] rfl, rfl⟩, nofun⟩).snoc
      ⟨⟨_, .doPendingFunctors rfl rfl rfl, rfl⟩, nofun⟩).snoc ⟨⟨_, .swap rfl, rfl⟩, nofun⟩).snoc
      ⟨⟨_, .run rfl rfl rfl, rfl⟩, nofun⟩).snoc ⟨⟨_, .finish rfl rfl rfl, rfl⟩, nofun⟩).snoc
      ⟨⟨_, .testQuit rfl, rfl⟩, nofun⟩
  obtain ⟨hloops, -, hdestructor⟩ := shutdown_tears_down (F := ℕ) (T := ℕ) onePool
  exact ⟨⟨s, hphase, hconnections, (hdestructor _ _ hdestroyed).1 hphase 7 hseven⟩,
    _, rfl, by decide, (hloops _ _ hreturned).1 rfl 0 (by decide)⟩

/-- The destructor hands connection 7 over and quits the loop, before the loop makes its first
test of the flag: the thread is joined, and the connection was not torn down. -/
theorem connection_left :
    ¬ ∀ (labels : List Label) (s t : Teardown) (loop : ℕ),
      Run (restrict (Step onePool) (LoopsRun onePool)) {} labels s →
      Step onePool s (.io loop .join) t →
        ∀ c ∈ s.connections, onePool.loopOf c = loop → TornDown onePool s c := by
  intro hclaim
  have hloop : Run (restrict (Step onePool) (LoopsRun onePool)) {} _ _ :=
    (((Run.single ⟨.io 0 .start rfl (.start rfl), trivial⟩).snoc
      ⟨.io 0 .publish trivial (.publish rfl), trivial⟩).snoc
      ⟨.io 0 (.eventLoop .loop) (Finset.notMem_empty _) (.eventLoop .loop rfl (.loop rfl)),
        fun hquit => Bool.noConfusion hquit⟩).snoc
      ⟨.io 0 .returnLoop (by exact rfl) (.returnLoop rfl rfl), trivial⟩
  have hhanded : Run (restrict (Step onePool) (LoopsRun onePool)) {} _ _ :=
    ((hloop.snoc
      ⟨.destroy [7] rfl (.inl rfl) rfl
        (fun loop hloop => by
          obtain rfl := List.mem_singleton.1 hloop
          rfl)
        (fun loop => by cases loop <;> exact Finset.notMem_empty _),
        fun loop hloop => by
          obtain rfl := List.mem_singleton.1 hloop
          rfl⟩).snoc
      ⟨.hand rfl (.eventLoop _ (fun hthread => ThreadPhase.noConfusion hthread)
        (.queueInLoopFrom _ _ (Finset.notMem_empty _))), trivial⟩).snoc
      ⟨.wakeup rfl (.eventLoop _ (fun hthread => ThreadPhase.noConfusion hthread)
        (.wakeupFrom _ (Finset.mem_union_left _ (Finset.mem_insert_self _ _)))), trivial⟩
  have hquit : Run (restrict (Step onePool) (LoopsRun onePool)) {} _ _ :=
    (((hhanded.snoc ⟨.destroyPool rfl, trivial⟩).snoc
      ⟨.io 0 .destroy ⟨_, rfl⟩ (.destroy rfl (by decide)), trivial⟩).snoc
      ⟨.io 0 (.eventLoop (.quitFrom .base)) (fun _ => .inr rfl)
        (.eventLoop _ (fun hthread => ThreadPhase.noConfusion hthread) (.quitFrom _ (by decide))),
        fun _ => ⟨rfl, fun hphase => DestructorPhase.noConfusion hphase⟩⟩).snoc
      ⟨.io 0 (.eventLoop (.wakeupFrom .base)) (fun _ _ hphase => DestructorPhase.noConfusion hphase)
        (.eventLoop _ (fun hthread => ThreadPhase.noConfusion hthread) (.wakeupFrom _ (by decide))),
        fun hquit => Bool.noConfusion hquit⟩
  -- the first test of the flag comes after the quit
  have hfinished : Run (restrict (Step onePool) (LoopsRun onePool)) {} _ _ :=
    (hquit.snoc
      ⟨.io 0 (.eventLoop .testQuit) (Finset.notMem_empty _) (.eventLoop _ rfl (.testQuit rfl)),
        fun hquit => Bool.noConfusion hquit⟩).snoc
      ⟨.io 0 .clear trivial (.clear rfl), trivial⟩
  obtain ⟨i, hi, hexecuted⟩ := hclaim _ _ _ 0 hfinished
    (.io 0 .join ⟨_, rfl⟩ (.join rfl (by decide) rfl)) 7 (List.mem_singleton.2 rfl) rfl
  cases hexecuted

end Server.Teardown

end MuduoLite
