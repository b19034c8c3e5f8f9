import MuduoLite.Loop.EventLoopThread

/-!
# Functors that are queued before the loop starts

The owner of a loop may queue functors before it calls `loop`, as the callback that
`threadFunc` runs does.  `queueInLoop` writes to the eventfd when it is called on another
thread or while functors run.  Neither holds here, so the first poll waits for something
else, unless another thread has made a call before.

`Started` says what the steps before the first poll amount to.
-/

namespace MuduoLite

open Transition

namespace EventLoop

variable {F T : Type*} {l m : EventLoop F T} {label : Label F T} {labels : List (Label F T)}

def Label.isPoll : Label F T → Bool
  | .poll _ => true
  | _ => false

/-- The functor that the step puts into the queue. -/
def Label.pushed : Label F T → Option F
  | .queueInLoop functor => some functor
  | .queueInLoopFrom _ functor => some functor
  | _ => none

variable [DecidableEq T]

/-- The eventfd is readable, or another thread is about to write to it. -/
def Signalled (l : EventLoop F T) : Prop :=
  0 < l.wakeupFd ∨ (l.wakingThreads ∪ l.quittingThreads).Nonempty

/-- The loop has not come back from a poll, and `labels` are the steps so far. -/
structure Started (labels : List (Label F T)) (l : EventLoop F T) : Prop where
  phase : l.phase = .stopped ∨ l.phase = .testing ∨ l.phase = .polling
  calling : l.callingPendingFunctors = false
  waking : l.waking = false
  pending_eq : l.functors.pending = labels.filterMap Label.pushed
  signalled_iff : Signalled l ↔ ∃ label ∈ labels, label.isFrom = true

theorem started_nil : Started [] ({} : EventLoop F T) where
  phase := .inl rfl
  calling := rfl
  waking := rfl
  pending_eq := rfl
  signalled_iff := by simp [Signalled]

namespace Started

/-- A step of the loop thread signals nothing. -/
theorem own (h : Started labels l) (hown : label.isFrom = false)
    (hphase : m.phase = .stopped ∨ m.phase = .testing ∨ m.phase = .polling)
    (hflags : m.callingPendingFunctors = false ∧ m.waking = false)
    (hpending : m.functors.pending = l.functors.pending ++ label.pushed.toList)
    (hsignalled : Signalled m ↔ Signalled l) : Started (labels ++ [label]) m where
  phase := hphase
  calling := hflags.1
  waking := hflags.2
  pending_eq := by
    rw [hpending, h.pending_eq, List.filterMap_append]
    cases hpushed : label.pushed <;> simp [hpushed]
  signalled_iff := by
    rw [hsignalled, h.signalled_iff]
    simp [hown]

/-- A step of another thread signals the loop, or leaves the signal to its next step. -/
theorem other (h : Started labels l) (hother : label.isFrom = true) (hphase : m.phase = l.phase)
    (hflags : m.callingPendingFunctors = l.callingPendingFunctors ∧ m.waking = l.waking)
    (hpending : m.functors.pending = l.functors.pending ++ label.pushed.toList)
    (hsignalled : Signalled m) : Started (labels ++ [label]) m where
  phase := by
    rw [hphase]
    exact h.phase
  calling := hflags.1.trans h.calling
  waking := hflags.2.trans h.waking
  pending_eq := by
    rw [hpending, h.pending_eq, List.filterMap_append]
    cases hpushed : label.pushed <;> simp [hpushed]
  signalled_iff :=
    iff_of_true hsignalled ⟨label, List.mem_append_right _ (List.mem_singleton.2 rfl), hother⟩

theorem step (h : Started labels l) (hstep : Step l label m) (hpoll : label.isPoll = false) :
    Started (labels ++ [label]) m := by
  have hnot {phase : LoopPhase} (heq : l.phase = phase)
      (hlater : phase ≠ .stopped ∧ phase ≠ .testing ∧ phase ≠ .polling) : False := by
    rcases h.phase with hphase | hphase | hphase
    · exact hlater.1 (heq.symm.trans hphase)
    · exact hlater.2.1 (heq.symm.trans hphase)
    · exact hlater.2.2 (heq.symm.trans hphase)
  have hflags := And.intro h.calling h.waking
  have hsame : l.functors.pending = l.functors.pending ++ [] := (List.append_nil _).symm
  cases hstep with
  | loop hphase => exact h.own rfl (.inr (.inl rfl)) hflags hsame Iff.rfl
  | testQuit hphase =>
      split_ifs
      · exact h.own rfl (.inl rfl) hflags hsame Iff.rfl
      · exact h.own rfl (.inr (.inr rfl)) hflags hsame Iff.rfl
  | poll active hphase => cases hpoll
  | handleEvent hphase hwaking hactive => exact (hnot hphase (by decide)).elim
  | doPendingFunctors hphase hwaking hactive => exact (hnot hphase (by decide)).elim
  | swap hphase => exact (hnot hphase (by decide)).elim
  | run hphase hwaking htodo => exact (hnot hphase (by decide)).elim
  | finish hphase hwaking htodo => exact (hnot hphase (by decide)).elim
  | queueInLoop functor hphase hwaking =>
      exact h.own rfl h.phase ⟨h.calling, h.calling⟩ rfl Iff.rfl
  | wakeup hwaking => exact absurd (h.waking.symm.trans hwaking) Bool.false_ne_true
  | quit hphase hwaking => exact h.own rfl h.phase hflags hsame Iff.rfl
  | queueInLoopFrom thread functor hthread =>
      exact h.other rfl rfl ⟨rfl, rfl⟩ rfl (.inr ⟨thread, by simp⟩)
  | quitFrom thread hthread => exact h.other rfl rfl ⟨rfl, rfl⟩ hsame (.inr ⟨thread, by simp⟩)
  | wakeupFrom thread hthread =>
      exact h.other rfl rfl ⟨rfl, rfl⟩ hsame (.inl (Nat.succ_pos _))

theorem run (hrun : Run Step {} labels l) (hfirst : ∀ label ∈ labels, label.isPoll = false) :
    Started labels l := by
  induction hrun with
  | nil => exact started_nil
  | snoc _ hlast ih =>
      have hlabels := List.forall_mem_append.1 hfirst
      exact (ih hlabels.1).step hlast (hlabels.2 _ (List.mem_singleton.2 rfl))

/-- Without a step of another thread, what waits was queued by the loop thread. -/
theorem pending_eq_nil_iff (h : Started labels l)
    (hown : ∀ label ∈ labels, label.isFrom = false) :
    l.functors.pending = [] ↔ ∀ functor, .queueInLoop functor ∉ labels := by
  rw [h.pending_eq, List.filterMap_eq_nil_iff]
  constructor
  · intro hnone functor hmem
    cases hnone _ hmem
  · intro hnone label hmem
    cases label with
    | queueInLoop functor => exact absurd hmem (hnone functor)
    | queueInLoopFrom thread functor => cases hown _ hmem
    | _ => rfl

end Started

/-- The loop waits in its poll while functors wait for it, and nothing will wake it for
them. -/
def Blocked (l : EventLoop F T) : Prop :=
  l.phase = .polling ∧ l.functors.pending ≠ [] ∧ ¬ Signalled l

theorem Started.not_blocked_iff (h : Started labels l) (hphase : l.phase = .polling) :
    ¬ Blocked l ↔
      (∀ functor, .queueInLoop functor ∉ labels) ∨ ∃ label ∈ labels, label.isFrom = true := by
  by_cases hother : ∃ label ∈ labels, label.isFrom = true
  · exact iff_of_true (fun hblocked => hblocked.2.2 (h.signalled_iff.2 hother)) (.inr hother)
  · have hsilent : ¬ Signalled l := mt h.signalled_iff.1 hother
    have hown : ∀ label ∈ labels, label.isFrom = false := by simpa using hother
    rw [or_iff_left hother, ← h.pending_eq_nil_iff hown]
    constructor
    · exact fun hblocked => by_contra fun hpending => hblocked ⟨hphase, hpending, hsilent⟩
    · exact fun hnone hblocked => hblocked.2.1 hnone

/-- The first poll of a loop does not block with functors pending, whatever other threads
do, if and only if the thread of the loop has queued none before, or another thread has
made a step of a call. -/
theorem first_poll_prompt_iff (labels : List (Label F T)) (l : EventLoop F T)
    (hrun : Run Step {} labels l) (hfirst : ∀ label ∈ labels, label.isPoll = false)
    (hphase : l.phase = .polling) :
    ¬ Blocked l ↔
      (∀ functor, .queueInLoop functor ∉ labels) ∨ ∃ label ∈ labels, label.isFrom = true :=
  (Started.run hrun hfirst).not_blocked_iff hphase

/-- The loop thread has queued a functor, and another thread one more before the poll. -/
theorem first_poll_prompt_signalled :
    ∃ l : EventLoop ℕ ℕ, l.phase = .polling ∧ l.functors.pending = [1, 2] ∧ ¬ Blocked l := by
  have hrun : Run (Step (F := ℕ) (T := ℕ)) {} _ _ :=
    (((Run.single (.queueInLoop 1 (.inl rfl) rfl)).snoc (.loop rfl)).snoc
      (.queueInLoopFrom 0 2 (by simp [push]))).snoc (.testQuit rfl)
  exact ⟨_, rfl, rfl, (first_poll_prompt_iff _ _ hrun (by simp [Label.isPoll]) rfl).2
    (.inr ⟨.queueInLoopFrom 0 2, by simp, rfl⟩)⟩

/-- The loop thread queues a functor and enters `loop`. -/
theorem first_poll_blocks :
    ¬ ∀ (labels : List (Label ℕ ℕ)) (l : EventLoop ℕ ℕ), Run Step {} labels l →
      (∀ label ∈ labels, label.isPoll = false) → l.phase = .polling → ¬ Blocked l := by
  intro hclaim
  have hrun : Run (Step (F := ℕ) (T := ℕ)) {} _ _ :=
    ((Run.single (.queueInLoop 1 (.inl rfl) rfl)).snoc (.loop rfl)).snoc (.testQuit rfl)
  exact hclaim _ _ hrun (by simp [Label.isPoll]) rfl
    ⟨rfl, List.cons_ne_nil _ _, by simp [Signalled, push]⟩

end EventLoop

namespace EventLoopThread

variable {F T : Type*} {owner : T} {s : EventLoopThread F T} {labels : List (Label F T)}

/-- The step of the loop that a step of the thread is. -/
def Label.inLoop : Label F T → Option (EventLoop.Label F T)
  | .eventLoop label => some label
  | _ => none

theorem mem_filterMap_inLoop {label : EventLoop.Label F T} :
    label ∈ labels.filterMap Label.inLoop ↔ .eventLoop label ∈ labels := by
  rw [List.mem_filterMap]
  constructor
  · rintro ⟨outer, hmem, heq⟩
    cases outer with
    | eventLoop inner =>
        cases heq
        exact hmem
    | _ => cases heq
  · exact fun hmem => ⟨_, hmem, rfl⟩

variable [DecidableEq T]

/-- A run of the thread is a run of its loop. -/
theorem run_eventLoop (hrun : Run (Step owner) {} labels s) :
    Run EventLoop.Step {} (labels.filterMap Label.inLoop) s.eventLoop := by
  induction hrun with
  | nil => exact .nil
  | @snoc labels label _ _ _ hlast ih =>
      rw [List.filterMap_append]
      rcases eventLoop_step hlast with ⟨inner, rfl, -, hinner⟩ | ⟨hother, heq⟩
      · exact ih.snoc hinner
      · have hnone : [label].filterMap Label.inLoop = [] := by
          cases label with
          | eventLoop inner => exact absurd rfl (hother inner)
          | _ => rfl
        rw [hnone, List.append_nil, heq]
        exact ih

/-- The loop of an `EventLoopThread`, whose `callback_` may queue functors. -/
theorem first_poll_iff (hrun : Run (Step owner) {} labels s)
    (hfirst : ∀ active, .eventLoop (.poll active) ∉ labels)
    (hphase : s.eventLoop.phase = .polling) :
    ¬ s.eventLoop.Blocked ↔ (∀ functor, .eventLoop (.queueInLoop functor) ∉ labels) ∨
      ∃ label, .eventLoop label ∈ labels ∧ label.isFrom = true := by
  have hstarted : EventLoop.Started (labels.filterMap Label.inLoop) s.eventLoop := by
    refine .run (run_eventLoop hrun) fun label hmem => ?_
    cases label with
    | poll active => exact absurd (mem_filterMap_inLoop.1 hmem) (hfirst active)
    | _ => rfl
  simpa only [mem_filterMap_inLoop] using hstarted.not_blocked_iff hphase

end EventLoopThread

end MuduoLite
