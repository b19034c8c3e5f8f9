import MuduoLite.Loop.EventLoop

/-!
# The quit flag

`quit` stores the flag and, from another thread, writes to the eventfd afterwards.  Only
`loop` itself clears the flag, when it starts.  As long as it does not start again, a loop
that has been asked to quit keeps the flag, and its poll does not wait: it was entered
before the store, and the write to the eventfd was made or is still to be made
(`Quitting`).
-/

namespace MuduoLite

namespace EventLoop

variable {F T : Type*} {l m : EventLoop F T} {label : Label F T}

def Label.isQuit : Label F T → Bool
  | .quit => true
  | .quitFrom _ => true
  | _ => false

/-- A call of a method of the loop, by its own thread or another one. -/
def Label.isCall : Label F T → Bool
  | .queueInLoop _ => true
  | .wakeup => true
  | .quit => true
  | .queueInLoopFrom _ _ => true
  | .quitFrom _ => true
  | .wakeupFrom _ => true
  | _ => false

/-- A step of another thread. -/
def Label.isFrom : Label F T → Bool
  | .queueInLoopFrom _ _ => true
  | .quitFrom _ => true
  | .wakeupFrom _ => true
  | _ => false

/-- The flag is set, and if the loop polls, somebody wakes it. -/
structure Quitting (l : EventLoop F T) : Prop where
  quit_eq : l.quit = true
  awake : l.phase = .polling → 0 < l.wakeupFd ∨ l.quittingThreads.Nonempty

variable [DecidableEq T]

theorem Quitting.of_quit (hstep : Step l label m) (hquit : label.isQuit = true) : Quitting m := by
  cases hstep with
  | quit hphase hwaking =>
      refine ⟨rfl, fun hpolling => ?_⟩
      have hpolling : l.phase = .polling := hpolling
      simp [hpolling] at hphase
  | quitFrom thread hthread => exact ⟨rfl, fun _ => .inr ⟨thread, Finset.mem_insert_self _ _⟩⟩
  | _ => cases hquit

/-- A loop that is asked to quit takes its next test of the flag to leave. -/
theorem Quitting.testQuit (h : Quitting l) (hstep : Step l .testQuit m) : m.phase = .stopped := by
  cases hstep with
  | testQuit hphase => rw [if_pos h.quit_eq]

/-- What is asked of a loop is kept until it starts again. -/
theorem Quitting.step (h : Quitting l) (hstep : Step l label m) (hloop : label ≠ .loop) :
    Quitting m := by
  cases hstep with
  | loop hphase => exact absurd rfl hloop
  | testQuit hphase =>
      rw [if_pos h.quit_eq]
      exact ⟨h.quit_eq, fun hpolling => LoopPhase.noConfusion hpolling⟩
  | poll active hphase => exact ⟨h.quit_eq, fun hpolling => LoopPhase.noConfusion hpolling⟩
  | @handleEvent channel rest hphase hwaking hactive =>
      -- `handleRead` clears the counter, but the loop is past its poll
      cases channel with
      | wakeupChannel =>
          exact ⟨h.quit_eq, fun hpolling => LoopPhase.noConfusion (hphase.symm.trans hpolling)⟩
      | channel fd => exact ⟨h.quit_eq, h.awake⟩
  | doPendingFunctors hphase hwaking hactive =>
      exact ⟨h.quit_eq, fun hpolling => LoopPhase.noConfusion hpolling⟩
  | swap hphase => exact ⟨h.quit_eq, fun hpolling => LoopPhase.noConfusion hpolling⟩
  | run hphase hwaking htodo => exact ⟨h.quit_eq, h.awake⟩
  | finish hphase hwaking htodo => exact ⟨h.quit_eq, fun hpolling => LoopPhase.noConfusion hpolling⟩
  | queueInLoop functor hphase hwaking => exact ⟨h.quit_eq, h.awake⟩
  | wakeup hwaking => exact ⟨h.quit_eq, fun _ => .inl (Nat.succ_pos _)⟩
  | quit hphase hwaking => exact ⟨rfl, h.awake⟩
  | queueInLoopFrom thread functor hthread => exact ⟨h.quit_eq, h.awake⟩
  | quitFrom thread hthread => exact ⟨rfl, fun _ => .inr ⟨thread, Finset.mem_insert_self _ _⟩⟩
  | wakeupFrom thread hthread => exact ⟨h.quit_eq, fun _ => .inl (Nat.succ_pos _)⟩

/-- Only a quit sets the flag. -/
theorem quit_step (hstep : Step l label m) (hquit : label.isQuit = false)
    (hclear : l.quit = false) : m.quit = false := by
  cases hstep with
  | loop => rfl
  | testQuit => split_ifs <;> exact hclear
  | @handleEvent channel => cases channel <;> exact hclear
  | quit => cases hquit
  | quitFrom => cases hquit
  | _ => exact hclear

theorem phase_of_isCall (hstep : Step l label m) (hcall : label.isCall = true) :
    m.phase = l.phase := by
  cases hstep with
  | queueInLoop => rfl
  | wakeup => rfl
  | quit => rfl
  | queueInLoopFrom => rfl
  | quitFrom => rfl
  | wakeupFrom => rfl
  | _ => cases hcall

/-- The loop stops only at a test of the flag. -/
theorem stopped_of_step (hstep : Step l label m) (hrunning : l.phase ≠ .stopped)
    (hstopped : m.phase = .stopped) : label = .testQuit ∧ l.quit = true := by
  cases hstep with
  | loop hphase => exact absurd hphase hrunning
  | testQuit hphase =>
      refine ⟨rfl, ?_⟩
      by_contra hquit
      rw [if_neg hquit] at hstopped
      cases hstopped
  | @handleEvent channel rest hphase hwaking hactive =>
      cases channel <;> exact absurd hstopped hrunning
  | poll => cases hstopped
  | doPendingFunctors => cases hstopped
  | swap => cases hstopped
  | finish => cases hstopped
  | _ => exact absurd hstopped hrunning

end EventLoop

end MuduoLite
