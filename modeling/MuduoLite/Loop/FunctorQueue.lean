import MuduoLite.Loop.EventLoop

/-!
# No functor is lost, and none waits unannounced

Two statements about `queueInLoop` and `doPendingFunctors`, for any number of
threads and any interleaving.

* `functors_fifo`: what was executed, then what waits, is what was queued, in order
  (`Fifo`).  A batch is what was queued before its swap (`RunsBatch`), whatever its
  functors queue themselves, so it ends.
* `no_lost_wakeup`: the loop never waits in its poll for a functor that nobody has
  announced (`Announced`).  The only pushes that no write to the eventfd follows are
  those of the loop thread while it handles channels, and `handleRead` resets the
  counter then too; but the swap is still to come.
-/

namespace MuduoLite

open Transition

namespace EventLoop

variable {F T : Type*} {l m : EventLoop F T} {label : Label F T}

/-! ## First in, first out -/

/-- What was executed and what still waits is what was queued. -/
structure Fifo (l : EventLoop F T) : Prop where
  eq : l.executed ++ l.functors.waiting = l.queued
  idle : l.phase ≠ .calling → l.functors.todo = []

theorem Fifo.push (h : Fifo l) (functor : F) : Fifo (l.push functor) where
  eq := by
    rw [EventLoop.push, ← h.eq]
    simp
  idle := h.idle

variable [DecidableEq T]

theorem Fifo.step (h : Fifo l) (hstep : Step l label m) : Fifo m := by
  cases hstep with
  | loop hphase => exact ⟨h.eq, fun _ => h.idle (by simp [hphase])⟩
  | testQuit hphase =>
      split_ifs
      · exact ⟨h.eq, fun _ => h.idle (by simp [hphase])⟩
      · exact ⟨h.eq, fun _ => h.idle (by simp [hphase])⟩
  | poll active hphase => exact ⟨h.eq, fun _ => h.idle (by simp [hphase])⟩
  | @handleEvent channel rest hphase hwaking hactive =>
      cases channel with
      | wakeupChannel => exact ⟨h.eq, h.idle⟩
      | channel fd => exact ⟨h.eq, h.idle⟩
  | doPendingFunctors hphase hwaking hactive =>
      exact ⟨h.eq, fun _ => h.idle (by simp [hphase])⟩
  | swap hphase =>
      have hidle := h.idle (by simp [hphase])
      exact ⟨by rw [l.functors.waiting_swap hidle, h.eq], fun hother => absurd rfl hother⟩
  | @run functor rest hphase hwaking htodo =>
      refine ⟨?_, fun hother => absurd hphase hother⟩
      rw [← h.eq, l.functors.waiting_advance htodo, List.append_assoc]
      rfl
  | finish hphase hwaking htodo => exact ⟨h.eq, fun _ => htodo⟩
  | queueInLoop functor hphase hwaking => exact ⟨(h.push functor).eq, h.idle⟩
  | wakeup hwaking => exact ⟨h.eq, h.idle⟩
  | quit hphase hwaking => exact ⟨h.eq, h.idle⟩
  | queueInLoopFrom thread functor hthread => exact ⟨(h.push functor).eq, h.idle⟩
  | quitFrom thread hthread => exact ⟨h.eq, h.idle⟩
  | wakeupFrom thread hthread => exact ⟨h.eq, h.idle⟩

theorem run_fifo {labels : List (Label F T)} (hrun : Run Step {} labels l) : Fifo l :=
  hrun.invariant ⟨rfl, fun _ => rfl⟩ fun _ _ _ => Fifo.step

/-- The functor that a step pushes. -/
def Label.pushes : Label F T → Option F
  | .queueInLoop functor => some functor
  | .queueInLoopFrom _ functor => some functor
  | _ => none

theorem queued_step (hstep : Step l label m) : m.queued = l.queued ++ label.pushes.toList := by
  cases hstep with
  | testQuit hphase =>
      split_ifs
      · exact (List.append_nil _).symm
      · exact (List.append_nil _).symm
  | @handleEvent channel rest hphase hwaking hactive =>
      cases channel <;> exact (List.append_nil _).symm
  | queueInLoop functor hphase hwaking => rfl
  | queueInLoopFrom thread functor hthread => rfl
  | _ => exact (List.append_nil _).symm

/-- The history of the pushes is that of the labels. -/
theorem run_queued {labels : List (Label F T)} (hrun : Run Step {} labels l) :
    l.queued = labels.filterMap Label.pushes := by
  induction hrun with
  | nil => rfl
  | snoc _ hlast ih =>
      rw [queued_step hlast, ih, List.filterMap_append, filterMap_singleton]

/-! ## Batches -/

def Label.isRun : Label F T → Bool
  | .run => true
  | _ => false

/-- The label does not end a batch. -/
def WithinBatch (_ : EventLoop F T) : Label F T → Prop
  | .finish => False
  | _ => True

/-- A call of `doPendingFunctors` whose swap was made in `l`, after the steps `inner`. -/
structure RunsBatch (l : EventLoop F T) (inner : List (Label F T)) (m : EventLoop F T) : Prop where
  phase_eq : m.phase = .calling
  executed_eq : m.executed ++ m.functors.todo = l.executed ++ l.functors.pending
  runs_eq : (inner.filter Label.isRun).length + m.functors.todo.length = l.functors.pending.length

namespace RunsBatch

variable {inner : List (Label F T)}

theorem of_swap (hstep : Step l .swap m) : RunsBatch l [] m := by
  cases hstep with
  | swap hphase => exact ⟨rfl, rfl, Nat.zero_add _⟩

omit [DecidableEq T] in
/-- A step that runs no functor. -/
theorem quiet {n : EventLoop F T} (h : RunsBatch l inner m) (hrun : label.isRun = false)
    (hphase : n.phase = m.phase) (hexecuted : n.executed = m.executed)
    (htodo : n.functors.todo = m.functors.todo) : RunsBatch l (inner ++ [label]) n where
  phase_eq := hphase.trans h.phase_eq
  executed_eq := by rw [hexecuted, htodo, h.executed_eq]
  runs_eq := by
    rw [htodo, ← h.runs_eq]
    simp [hrun]

theorem step {n : EventLoop F T} (h : RunsBatch l inner m)
    (hstep : restrict Step WithinBatch m label n) : RunsBatch l (inner ++ [label]) n := by
  obtain ⟨hstep, hwithin⟩ := hstep
  have hcalling := h.phase_eq
  cases hstep with
  | loop hphase => simp [hcalling] at hphase
  | testQuit hphase => simp [hcalling] at hphase
  | poll active hphase => simp [hcalling] at hphase
  | handleEvent hphase hwaking hactive => simp [hcalling] at hphase
  | doPendingFunctors hphase hwaking hactive => simp [hcalling] at hphase
  | swap hphase => simp [hcalling] at hphase
  | @run functor rest hphase hwaking htodo =>
      have hrest : m.functors.advance.todo = rest := by simp [BatchQueue.advance, htodo]
      refine ⟨hcalling, ?_, ?_⟩
      · rw [← h.executed_eq, htodo, hrest, List.append_assoc]
        rfl
      · have hruns := h.runs_eq
        rw [htodo, List.length_cons] at hruns
        rw [hrest, ← hruns, List.filter_append, List.length_append]
        exact Nat.add_right_comm _ _ _
  | finish hphase hwaking htodo => exact hwithin.elim
  | queueInLoop functor hphase hwaking => exact h.quiet rfl rfl rfl rfl
  | wakeup hwaking => exact h.quiet rfl rfl rfl rfl
  | quit hphase hwaking => exact h.quiet rfl rfl rfl rfl
  | queueInLoopFrom thread functor hthread => exact h.quiet rfl rfl rfl rfl
  | quitFrom thread hthread => exact h.quiet rfl rfl rfl rfl
  | wakeupFrom thread hthread => exact h.quiet rfl rfl rfl rfl

theorem run {start : EventLoop F T} (h : RunsBatch l [] start)
    (hrun : Run (restrict Step WithinBatch) start inner m) : RunsBatch l inner m := by
  induction hrun with
  | nil => exact h
  | snoc _ hlast ih => exact ih.step hlast

/-- The loop thread can go on: with the next functor, or past the last one. -/
theorem progress (h : RunsBatch l inner m) (hwaking : m.waking = false) :
    if m.functors.todo = [] then ∃ n, Step m .finish n else ∃ n, Step m .run n := by
  split_ifs with htodo
  · exact ⟨_, .finish h.phase_eq hwaking htodo⟩
  · obtain ⟨functor, rest, hcons⟩ := List.exists_cons_of_ne_nil htodo
    exact ⟨_, .run h.phase_eq hwaking hcons⟩

theorem finished {n : EventLoop F T} (h : RunsBatch l inner m) (hstep : Step m .finish n) :
    n.executed = l.executed ++ l.functors.pending := by
  cases hstep with
  | finish hphase hwaking htodo => rw [← h.executed_eq, htodo, List.append_nil]

end RunsBatch

/-- What was executed, then the rest of the batch, then `pendingFunctors_`, is what
was queued, in the order of the pushes of the run.  A call of `doPendingFunctors` that swaps in
`l` executes the functors of `pendingFunctors_` and no others: that many are run or
left at any time, the loop thread can always go on, and at the end all are executed. -/
theorem functors_fifo (labels : List (Label F T)) (l : EventLoop F T)
    (hrun : Run Step {} labels l) :
    l.executed ++ l.functors.todo ++ l.functors.pending = l.queued ∧
      l.queued = labels.filterMap Label.pushes ∧
      ∀ swapped inner m, Step l .swap swapped →
        Run (restrict Step WithinBatch) swapped inner m →
          RunsBatch l inner m ∧
            (m.waking = false →
              if m.functors.todo = [] then ∃ n, Step m .finish n else ∃ n, Step m .run n) ∧
            ∀ n, Step m .finish n → n.executed = l.executed ++ l.functors.pending := by
  refine ⟨?_, run_queued hrun, fun swapped inner m hswap hinner => ?_⟩
  · rw [List.append_assoc]
    exact (run_fifo hrun).eq
  · have h := (RunsBatch.of_swap hswap).run hinner
    exact ⟨h, h.progress, fun n => h.finished⟩

/-- A functor queues itself again while it runs: the batch ends after it. -/
theorem functors_fifo_requeued :
    ∃ l m : EventLoop ℕ ℕ, l.functors.pending = [1] ∧ m.functors.pending = [1] ∧
      m.functors.todo = [] ∧ RunsBatch l [.run, .queueInLoop 1] m := by
  have hcalled : Run (Step (F := ℕ) (T := ℕ)) {} _ _ :=
    ((((Run.single (.loop rfl)).snoc (.testQuit rfl)).snoc (.poll [] rfl)).snoc
      (.queueInLoop 1 (.inr (.inl rfl)) rfl)).snoc (.doPendingFunctors rfl rfl rfl)
  have hbatch := (functors_fifo _ _ hcalled).2.2 _ [.run, .queueInLoop 1] _ (.swap rfl)
    ((Run.single ⟨.run rfl rfl rfl, trivial⟩).snoc ⟨.queueInLoop 1 (.inr (.inr rfl)) rfl, trivial⟩)
  exact ⟨_, _, rfl, rfl, rfl, hbatch.1⟩

/-! ## Wakeups -/

/-- User code of the loop thread queues functors from callbacks and functors. -/
def FromCallbacks (l : EventLoop F T) : Label F T → Prop
  | .queueInLoop _ => l.phase = .handling ∨ l.phase = .calling
  | _ => True

/-- Pending functors have been announced, or somebody is about to do it. -/
def Announced (l : EventLoop F T) : Prop :=
  l.functors.pending = [] ∨ 0 < l.wakeupFd ∨ l.waking = true ∨ l.wakingThreads.Nonempty

/-- Unless the swap is still to come, pending functors are announced. -/
structure Wakes (l : EventLoop F T) : Prop where
  announced : l.phase ≠ .handling → l.phase ≠ .swapping → Announced l
  calling : l.callingPendingFunctors = decide (l.phase = .swapping ∨ l.phase = .calling)
  waking : l.waking = true → l.phase = .calling

theorem Wakes.step (h : Wakes l) (hstep : restrict Step FromCallbacks l label m) : Wakes m := by
  obtain ⟨hstep, hfrom⟩ := hstep
  have hcalling := h.calling
  cases hstep with
  | loop hphase =>
      refine ⟨fun _ _ => h.announced (by simp [hphase]) (by simp [hphase]), ?_, fun hwaking => ?_⟩
      · simpa [hphase] using hcalling
      · simp [h.waking hwaking] at hphase
  | testQuit hphase =>
      have hannounced := h.announced (by simp [hphase]) (by simp [hphase])
      have hquiet : l.waking ≠ true := fun hwaking => by simp [h.waking hwaking] at hphase
      split_ifs
      · exact ⟨fun _ _ => hannounced, by simpa [hphase] using hcalling,
          fun hwaking => absurd hwaking hquiet⟩
      · exact ⟨fun _ _ => hannounced, by simpa [hphase] using hcalling,
          fun hwaking => absurd hwaking hquiet⟩
  | poll active hphase =>
      refine ⟨fun hother => absurd rfl hother, by simpa [hphase] using hcalling, fun hwaking => ?_⟩
      simp [h.waking hwaking] at hphase
  | @handleEvent channel rest hphase hwaking hactive =>
      cases channel with
      | wakeupChannel => exact ⟨fun hother => absurd hphase hother, hcalling, h.waking⟩
      | channel fd => exact ⟨h.announced, hcalling, h.waking⟩
  | doPendingFunctors hphase hwaking hactive =>
      refine ⟨fun _ hother => absurd rfl hother, by simp, fun htrue => ?_⟩
      simp [hwaking] at htrue
  | swap hphase =>
      -- the swap takes all pending functors
      exact ⟨fun _ _ => .inl rfl, by simpa [hphase] using hcalling, fun _ => rfl⟩
  | run hphase hwaking htodo => exact ⟨h.announced, hcalling, h.waking⟩
  | finish hphase hwaking htodo =>
      have hannounced := h.announced (by simp [hphase]) (by simp [hphase])
      refine ⟨fun _ _ => hannounced, by simp, fun htrue => ?_⟩
      simp [hwaking] at htrue
  | queueInLoop functor hphase hwaking =>
      refine ⟨fun hhandling _ => ?_, hcalling, fun htrue => ?_⟩
      · have hrunning : l.phase = .calling := hfrom.resolve_left hhandling
        exact .inr (.inr (.inl (by simp [hcalling, hrunning])))
      · have hbatch : l.phase = .swapping ∨ l.phase = .calling := by simpa [hcalling] using htrue
        exact hbatch.resolve_left fun hswapping => by simp [hswapping] at hphase
  | wakeup hwaking =>
      exact ⟨fun _ _ => .inr (.inl (Nat.succ_pos _)), hcalling, fun _ => h.waking hwaking⟩
  | quit hphase hwaking => exact ⟨h.announced, hcalling, h.waking⟩
  | queueInLoopFrom thread functor hthread =>
      exact ⟨fun _ _ => .inr (.inr (.inr ⟨thread, Finset.mem_insert_self _ _⟩)), hcalling, h.waking⟩
  | quitFrom thread hthread => exact ⟨h.announced, hcalling, h.waking⟩
  | wakeupFrom thread hthread =>
      exact ⟨fun _ _ => .inr (.inl (Nat.succ_pos _)), hcalling, h.waking⟩

/-- When the loop thread is in its poll and functors are pending, the counter of the
eventfd is positive, or another thread is between its push and its write. -/
theorem no_lost_wakeup (labels : List (Label F T)) (l : EventLoop F T)
    (hrun : Run (restrict Step FromCallbacks) {} labels l) (hphase : l.phase = .polling)
    (hpending : l.functors.pending ≠ []) : 0 < l.wakeupFd ∨ l.wakingThreads.Nonempty := by
  have h : Wakes l :=
    hrun.invariant ⟨fun _ _ => .inl rfl, rfl, by simp⟩ fun _ _ _ => Wakes.step
  rcases h.announced (by simp [hphase]) (by simp [hphase]) with hnone | hwakeup | hwaking | hthread
  · exact absurd hnone hpending
  · exact .inl hwakeup
  · simp [h.waking hwaking] at hphase
  · exact .inr hthread

/-- Another thread pushes a functor while the loop polls. -/
theorem no_lost_wakeup_pushed :
    ∃ l : EventLoop ℕ ℕ, l.phase = .polling ∧ l.functors.pending = [1] ∧
      (0 < l.wakeupFd ∨ l.wakingThreads.Nonempty) := by
  have hpushed : Run (restrict (Step (F := ℕ) (T := ℕ)) FromCallbacks) {} _ _ :=
    ((Run.single ⟨.loop rfl, trivial⟩).snoc ⟨.testQuit rfl, trivial⟩).snoc
      ⟨.queueInLoopFrom 0 1 (by simp), trivial⟩
  exact ⟨_, rfl, rfl, no_lost_wakeup _ _ hpushed rfl (List.cons_ne_nil _ _)⟩

end EventLoop

end MuduoLite
