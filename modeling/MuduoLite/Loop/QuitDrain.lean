import Mathlib.Data.Finset.Option
import MuduoLite.Loop.FunctorQueue
import MuduoLite.Loop.Quit

/-!
# Functors that were queued before a quit

`loop` tests `quit_` right after a batch.  A functor that is queued before the quit is
executed only if it is in that batch or an earlier one: if it has left `pendingFunctors_`,
or the swap is still to come when the flag is stored (`BeforeTest`).  A functor that
arrives after the swap finds the flag set at the next test, and the loop returns without
it (`Missed`).

A functor is named by its position in `queued`, so that equal functors are told apart.
`Tracked` adds history to a loop: which calls of `queueInLoop` have returned, and which
of them had returned when `quit` was called while the loop was running.
-/

namespace MuduoLite

open Transition
open Function (update)

namespace EventLoop

variable {F T : Type*} {l m : EventLoop F T} {label : Label F T} {i : ℕ}

/-! ## One functor -/

/-- Is the loop on its way from its test of the flag to its next swap? -/
def BeforeSwap (l : EventLoop F T) : Prop :=
  l.phase = .polling ∨ l.phase = .handling ∨ l.phase = .swapping

/-- The functor at position `i` is executed before the flag is tested again. -/
def BeforeTest (l : EventLoop F T) (i : ℕ) : Prop :=
  i < l.queued.length ∧ (l.BeforeSwap ∨ i < l.executed.length + l.functors.todo.length)

/-- The functor at position `i` is left over when the loop tests its flag. -/
structure Missed (l : EventLoop F T) (i : ℕ) : Prop where
  quit_eq : l.quit = true
  phase_eq : l.phase = .calling ∨ l.phase = .testing
  pending : l.executed.length + l.functors.todo.length ≤ i

theorem Fifo.length_eq (h : Fifo l) :
    l.executed.length + l.functors.todo.length + l.functors.pending.length = l.queued.length := by
  rw [← h.eq, BatchQueue.waiting, List.length_append, List.length_append]
  omega

/-- An executed functor is the one that was queued at its position. -/
theorem Fifo.getElem?_executed (h : Fifo l) (hi : i < l.executed.length) :
    l.executed[i]? = l.queued[i]? := by
  rw [← h.eq, List.getElem?_append_left hi]

variable [DecidableEq T]

theorem BeforeTest.step (h : BeforeTest l i) (hfifo : Fifo l) (hstep : Step l label m) :
    BeforeTest m i := by
  obtain ⟨hqueued, hcovered⟩ := h
  have hbatch (hphase : l.phase = .stopped ∨ l.phase = .testing ∨ l.phase = .calling) :
      i < l.executed.length + l.functors.todo.length := by
    refine hcovered.resolve_left ?_
    rintro (hbefore | hbefore | hbefore) <;> simp [hbefore] at hphase
  cases hstep with
  | loop hphase => exact ⟨hqueued, .inr (hbatch (.inl hphase))⟩
  | testQuit hphase =>
      have hrun := hbatch (.inr (.inl hphase))
      split_ifs
      · exact ⟨hqueued, .inr hrun⟩
      · exact ⟨hqueued, .inr hrun⟩
  | poll active hphase => exact ⟨hqueued, .inl (.inr (.inl rfl))⟩
  | @handleEvent channel rest hphase hwaking hactive =>
      cases channel with
      | wakeupChannel => exact ⟨hqueued, .inl (.inr (.inl hphase))⟩
      | channel fd => exact ⟨hqueued, .inl (.inr (.inl hphase))⟩
  | doPendingFunctors hphase hwaking hactive => exact ⟨hqueued, .inl (.inr (.inr rfl))⟩
  | swap hphase =>
      -- the batch is everything that was pending
      refine ⟨hqueued, .inr ?_⟩
      have hlength := hfifo.length_eq
      rw [hfifo.idle (by simp [hphase])] at hlength
      show i < l.executed.length + l.functors.pending.length
      rw [List.length_nil] at hlength
      omega
  | @run functor rest hphase hwaking htodo =>
      refine ⟨hqueued, .inr ?_⟩
      have hrun := hbatch (.inr (.inr hphase))
      rw [htodo, List.length_cons] at hrun
      show i < (l.executed ++ [functor]).length + l.functors.todo.tail.length
      rw [htodo, List.tail_cons, List.length_append, List.length_singleton]
      omega
  | finish hphase hwaking htodo => exact ⟨hqueued, .inr (hbatch (.inr (.inr hphase)))⟩
  | queueInLoop functor hphase hwaking => exact ⟨by simp [push]; omega, hcovered⟩
  | wakeup hwaking => exact ⟨hqueued, hcovered⟩
  | quit hphase hwaking => exact ⟨hqueued, hcovered⟩
  | queueInLoopFrom thread functor hthread => exact ⟨by simp [push]; omega, hcovered⟩
  | quitFrom thread hthread => exact ⟨hqueued, hcovered⟩
  | wakeupFrom thread hthread => exact ⟨hqueued, hcovered⟩

omit [DecidableEq T] in
/-- When the loop has returned, the functor was executed. -/
theorem BeforeTest.executed_of_stopped (h : BeforeTest l i) (hfifo : Fifo l)
    (hstopped : l.phase = .stopped) : i < l.executed.length := by
  obtain ⟨_, hbefore | hrun⟩ := h
  · rcases hbefore with hphase | hphase | hphase <;> simp [hstopped] at hphase
  · simpa [hfifo.idle (by simp [hstopped])] using hrun

theorem queued_length_le (hstep : Step l label m) : l.queued.length ≤ m.queued.length := by
  rw [queued_step hstep, List.length_append]
  exact Nat.le_add_right _ _

theorem getElem?_queued_step (hstep : Step l label m) {functor : F}
    (hi : l.queued[i]? = some functor) : m.queued[i]? = some functor := by
  rw [queued_step hstep, List.getElem?_append_left (List.getElem?_eq_some_iff.1 hi).1, hi]

/-- A quit that the functor does not come before. -/
theorem Missed.of_quit (hstep : Step l label m) (hquit : label.isQuit = true)
    (hrunning : l.phase ≠ .stopped) (hqueued : i < l.queued.length) (hlate : ¬ BeforeTest l i) :
    Missed m i := by
  have hphase : l.phase = .calling ∨ l.phase = .testing := by
    cases hphase : l.phase with
    | stopped => exact absurd hphase hrunning
    | testing => exact .inr rfl
    | polling => exact absurd ⟨hqueued, .inl (.inl hphase)⟩ hlate
    | handling => exact absurd ⟨hqueued, .inl (.inr (.inl hphase))⟩ hlate
    | swapping => exact absurd ⟨hqueued, .inl (.inr (.inr hphase))⟩ hlate
    | calling => exact .inl rfl
  have hpending : l.executed.length + l.functors.todo.length ≤ i :=
    not_lt.1 fun hrun => hlate ⟨hqueued, .inr hrun⟩
  cases hstep with
  | quit => exact ⟨rfl, hphase, hpending⟩
  | quitFrom => exact ⟨rfl, hphase, hpending⟩
  | _ => cases hquit

/-- Nothing but the test of the flag follows a batch that has missed the functor. -/
theorem Missed.step (h : Missed l i) (hstep : Step l label m) (htest : label ≠ .testQuit) :
    Missed m i := by
  obtain ⟨hquit, hphase, hpending⟩ := h
  cases hstep with
  | loop hstopped => simp [hstopped] at hphase
  | testQuit => exact absurd rfl htest
  | poll active hpolling => simp [hpolling] at hphase
  | handleEvent hhandling => simp [hhandling] at hphase
  | doPendingFunctors hhandling => simp [hhandling] at hphase
  | swap hswapping => simp [hswapping] at hphase
  | @run functor rest hcalling hwaking htodo =>
      refine ⟨hquit, .inl hcalling, ?_⟩
      rw [htodo, List.length_cons] at hpending
      show (l.executed ++ [functor]).length + l.functors.todo.tail.length ≤ i
      rw [htodo, List.tail_cons, List.length_append, List.length_singleton]
      omega
  | finish hcalling hwaking htodo => exact ⟨hquit, .inr rfl, hpending⟩
  | queueInLoop functor _ hwaking => exact ⟨hquit, hphase, hpending⟩
  | wakeup hwaking => exact ⟨hquit, hphase, hpending⟩
  | quit _ hwaking => exact ⟨rfl, hphase, hpending⟩
  | queueInLoopFrom thread functor hthread => exact ⟨hquit, hphase, hpending⟩
  | quitFrom thread hthread => exact ⟨rfl, hphase, hpending⟩
  | wakeupFrom thread hthread => exact ⟨hquit, hphase, hpending⟩

/-- The loop returns, and the functor was not executed. -/
theorem Missed.testQuit (h : Missed l i) (hstep : Step l .testQuit m) :
    m.phase = .stopped ∧ m.executed[i]? = none := by
  obtain ⟨hquit, _, hpending⟩ := h
  cases hstep with
  | testQuit hphase =>
      rw [if_pos hquit]
      exact ⟨rfl, List.getElem?_eq_none (by show l.executed.length ≤ i; omega)⟩

end EventLoop

/-! ## Any number of functors -/

/-- A loop with its history; functors are positions in `queued`. -/
structure TrackedLoop (F T : Type*) where
  loop : EventLoop F T := {}
  /-- what the other threads have pushed in the `queueInLoop` they are in -/
  pushing : T → Option ℕ := fun _ => none
  /-- what the loop thread has pushed in the `queueInLoop` it is in -/
  pushingOwn : Option ℕ := none
  /-- the functors whose `queueInLoop` has returned -/
  returned : Finset ℕ := ∅
  /-- those of them whose call returned before a `quit` of the running loop -/
  due : Finset ℕ := ∅

namespace TrackedLoop

open EventLoop (Fifo BeforeTest Missed)

variable {F T : Type*} [DecidableEq T] {s t : TrackedLoop F T} {label : EventLoop.Label F T}

/-- The history after a step; `queueInLoop` returns after its push or after its write. -/
def track (s : TrackedLoop F T) : EventLoop.Label F T → TrackedLoop F T
  | .queueInLoop _ =>
      if s.loop.callingPendingFunctors then { s with pushingOwn := some s.loop.queued.length }
      else { s with returned := insert s.loop.queued.length s.returned }
  | .wakeup => { s with pushingOwn := none, returned := s.returned ∪ s.pushingOwn.toFinset }
  | .queueInLoopFrom thread _ =>
      { s with pushing := update s.pushing thread (some s.loop.queued.length) }
  | .wakeupFrom thread =>
      { s with
        pushing := update s.pushing thread none
        returned := s.returned ∪ (s.pushing thread).toFinset }
  | .quit => { s with due := if s.loop.phase = .stopped then s.due else s.due ∪ s.returned }
  | .quitFrom _ => { s with due := if s.loop.phase = .stopped then s.due else s.due ∪ s.returned }
  | _ => s

def Step (s : TrackedLoop F T) (label : EventLoop.Label F T) (t : TrackedLoop F T) : Prop :=
  ∃ l, s.loop.Step label l ∧ t = { s.track label with loop := l }

/-- A quit of the running loop finds no functor in `pendingFunctors_` whose `queueInLoop` has
returned, unless the swap is still to come. -/
def QuitsDrained (s : TrackedLoop F T) (label : EventLoop.Label F T) : Prop :=
  label.isQuit = true → s.loop.phase ≠ .stopped → ∀ i ∈ s.returned, s.loop.BeforeTest i

structure Drained (s : TrackedLoop F T) : Prop where
  fifo : Fifo s.loop
  due : ∀ i ∈ s.due, s.loop.BeforeTest i
  returned_lt : ∀ i ∈ s.returned, i < s.loop.queued.length
  pushing_lt : ∀ thread i, s.pushing thread = some i → i < s.loop.queued.length
  pushingOwn_lt : ∀ i, s.pushingOwn = some i → i < s.loop.queued.length

omit [DecidableEq T] in
theorem start_drained : Drained ({} : TrackedLoop F T) where
  fifo := ⟨rfl, fun _ => rfl⟩
  due := fun i hi => absurd hi (Finset.notMem_empty i)
  returned_lt := fun i hi => absurd hi (Finset.notMem_empty i)
  pushing_lt := fun _ i hi => absurd hi.symm (Option.some_ne_none i)
  pushingOwn_lt := fun i hi => absurd hi.symm (Option.some_ne_none i)

/-- What becomes due is what was due, and at a quit of the running loop what had returned. -/
theorem mem_track_due {i : ℕ} (hi : i ∈ (s.track label).due) :
    i ∈ s.due ∨ label.isQuit = true ∧ s.loop.phase ≠ .stopped ∧ i ∈ s.returned := by
  cases label with
  | queueInLoop functor =>
      rw [track] at hi
      split_ifs at hi
      · exact .inl hi
      · exact .inl hi
  | quit =>
      simp only [track] at hi
      split_ifs at hi with hphase
      · exact .inl hi
      · exact (Finset.mem_union.1 hi).imp_right fun hreturned => ⟨rfl, hphase, hreturned⟩
  | quitFrom thread =>
      simp only [track] at hi
      split_ifs at hi with hphase
      · exact .inl hi
      · exact (Finset.mem_union.1 hi).imp_right fun hreturned => ⟨rfl, hphase, hreturned⟩
  | _ => exact .inl hi

/-- What has returned was in a call of `queueInLoop` before, or is pushed by the loop thread
outside of its batches. -/
theorem mem_track_returned {i : ℕ} (hi : i ∈ (s.track label).returned) :
    i ∈ s.returned ∨ s.pushingOwn = some i ∨ (∃ thread, s.pushing thread = some i) ∨
      ∃ functor, label = .queueInLoop functor ∧ i = s.loop.queued.length := by
  cases label with
  | queueInLoop functor =>
      rw [track] at hi
      split_ifs at hi
      · exact .inl hi
      · rcases Finset.mem_insert.1 hi with heq | hold
        · exact .inr (.inr (.inr ⟨functor, rfl, heq⟩))
        · exact .inl hold
  | wakeup =>
      rcases Finset.mem_union.1 hi with hold | hown
      · exact .inl hold
      · exact .inr (.inl (Option.mem_toFinset.1 hown))
  | wakeupFrom thread =>
      rcases Finset.mem_union.1 hi with hold | hother
      · exact .inl hold
      · exact .inr (.inr (.inl ⟨thread, Option.mem_toFinset.1 hother⟩))
  | _ => exact .inl hi

theorem Drained.step (h : Drained s) (hstep : restrict Step QuitsDrained s label t) :
    Drained t := by
  obtain ⟨⟨l, hstep, rfl⟩, hdrained⟩ := hstep
  have hle : s.loop.queued.length ≤ l.queued.length := EventLoop.queued_length_le hstep
  have hpush (functor : F)
      (hlabel : label = .queueInLoop functor ∨ ∃ thread, label = .queueInLoopFrom thread functor) :
      s.loop.queued.length < l.queued.length := by
    rcases hlabel with rfl | ⟨thread, rfl⟩ <;> cases hstep <;> simp [EventLoop.push]
  refine ⟨h.fifo.step hstep, fun i hi => ?_, fun i hi => ?_, fun thread i hi => ?_, fun i hi => ?_⟩
  -- what is due was due, or the quit has just found it in time
  · have hbefore : s.loop.BeforeTest i := by
      rcases mem_track_due hi with hold | ⟨hquit, hrunning, hreturned⟩
      · exact h.due i hold
      · exact hdrained hquit hrunning i hreturned
    exact hbefore.step h.fifo hstep
  · show i < l.queued.length
    -- a call that has returned had pushed its functor
    rcases mem_track_returned hi with hold | hown | ⟨thread, hother⟩ | ⟨functor, hlabel, rfl⟩
    · exact (h.returned_lt i hold).trans_le hle
    · exact (h.pushingOwn_lt i hown).trans_le hle
    · exact (h.pushing_lt thread i hother).trans_le hle
    · exact hpush functor (.inl hlabel)
  · show i < l.queued.length
    cases label with
    | queueInLoopFrom other functor =>
        by_cases hthread : thread = other
        · subst hthread
          have hi : some s.loop.queued.length = some i := by
            simpa only [track, Function.update_self] using hi
          rw [← Option.some.inj hi]
          exact hpush functor (.inr ⟨_, rfl⟩)
        · have hi : s.pushing thread = some i := by
            simpa only [track, Function.update_of_ne hthread] using hi
          exact (h.pushing_lt thread i hi).trans_le hle
    | wakeupFrom other =>
        by_cases hthread : thread = other
        · subst hthread
          simp [track] at hi
        · have hi : s.pushing thread = some i := by
            simpa only [track, Function.update_of_ne hthread] using hi
          exact (h.pushing_lt thread i hi).trans_le hle
    | queueInLoop functor =>
        have hi : s.pushing thread = some i := by
          simp only [track] at hi
          split_ifs at hi <;> exact hi
        exact (h.pushing_lt thread i hi).trans_le hle
    | _ => exact (h.pushing_lt thread i hi).trans_le hle
  · show i < l.queued.length
    cases label with
    | queueInLoop functor =>
        simp only [track] at hi
        split_ifs at hi
        · rw [← Option.some.inj hi]
          exact hpush functor (.inl rfl)
        · exact (h.pushingOwn_lt i hi).trans_le hle
    | wakeup => exact absurd hi.symm (Option.some_ne_none i)
    | _ => exact (h.pushingOwn_lt i hi).trans_le hle

/-- If no quit of the running loop overtakes a functor whose `queueInLoop` has returned, every
such functor is executed before `loop` returns.  A functor that is overtaken is not: the
next test of the flag leaves the loop without it. -/
theorem executed_before_return (labels : List (EventLoop.Label F T)) (s : TrackedLoop F T)
    (hrun : Run (restrict Step QuitsDrained) {} labels s) :
    (s.loop.phase = .stopped → ∀ i ∈ s.due,
      ∃ functor, s.loop.queued[i]? = some functor ∧ s.loop.executed[i]? = some functor) ∧
    ∀ label t, Step s label t → ¬ QuitsDrained s label → ∃ i ∈ t.due,
      ∀ labels' u v, Run (restrict Step fun _ other => other ≠ .testQuit) t labels' u →
        Step u .testQuit v → v.loop.phase = .stopped ∧ v.loop.executed[i]? = none := by
  have h : Drained s := hrun.invariant start_drained fun _ _ _ => Drained.step
  refine ⟨fun hstopped i hi => ?_, fun label t hstep hlate => ?_⟩
  · have hexecuted : i < s.loop.executed.length :=
      (h.due i hi).executed_of_stopped h.fifo hstopped
    refine ⟨s.loop.executed[i], ?_, List.getElem?_eq_getElem hexecuted⟩
    rw [← h.fifo.getElem?_executed hexecuted, List.getElem?_eq_getElem hexecuted]
  · obtain ⟨l, hstep, rfl⟩ := hstep
    simp only [QuitsDrained, not_forall] at hlate
    obtain ⟨hquit, hrunning, i, hi, hlate⟩ := hlate
    have hdue : i ∈ (s.track label).due := by
      cases label with
      | quit => simp [track, hrunning, hi]
      | quitFrom thread => simp [track, hrunning, hi]
      | _ => cases hquit
    have hmissed : Missed l i := .of_quit hstep hquit hrunning (h.returned_lt i hi) hlate
    refine ⟨i, hdue, fun labels' u v hrun' hlast => ?_⟩
    have hmissed' : Missed u.loop i := by
      refine hrun'.invariant (P := fun u => Missed u.loop i) hmissed fun a other b ha hstep' => ?_
      obtain ⟨⟨m, hstep', rfl⟩, htest⟩ := hstep'
      exact ha.step hstep' htest
    obtain ⟨m, hlast, rfl⟩ := hlast
    exact hmissed'.testQuit hlast

end TrackedLoop

end MuduoLite
