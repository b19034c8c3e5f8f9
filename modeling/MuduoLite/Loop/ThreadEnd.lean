import MuduoLite.Loop.EventLoopThread

/-!
# The end of a thread and its destructor

The destructor of `EventLoopThread` tests `loop_`, reads it again to call `quit` through
it, and joins the thread, all without the mutex.  `threadFunc` clears `loop_` when its loop
has ended, which may be at any time.  Then it unlocks the mutex and destroys the loop, in
this order, because its local variables are destroyed in the reverse of their order.

This refines the model of the thread by these accesses.  The thread's own steps are those
of `EventLoopThread`; the `quit` of the destructor now needs the pointer that it has
loaded, and its `join` waits for the end of `threadFunc`.
-/

namespace MuduoLite

open Transition

/-- Where the new thread is in the last lines of `threadFunc`. -/
inductive ExitPhase
  /-- `loop_` has not been cleared -/
  | running
  /-- it has been, and the mutex is locked -/
  | cleared
  | unlocked
  /-- the `EventLoop` has been destroyed, and `threadFunc` has returned -/
  | destroyed
  deriving DecidableEq, Repr

/-- Has the owner tested `loop_` in the destructor? -/
def OwnerPhase.inDestructor : OwnerPhase → Bool
  | .destroying => true
  | .joining => true
  | .joined => true
  | .detached => true
  | _ => false

structure ThreadEnd (F T : Type*) where
  inner : EventLoopThread F T := {}
  exit : ExitPhase := .running
  /-- the pointer through which the destructor calls `quit`, once it is loaded: is it set? -/
  loaded : Option Bool := none

namespace ThreadEnd

variable {F T : Type*}

/-! ## Steps -/

inductive Label (F T : Type*)
  | inner (label : EventLoopThread.Label F T)
  | load
  | unlock
  | destroyLoop
  | leave

/-- What the thread `owner` does in its destructor is not a call of the user, its `quit`
comes after the load of `loop_`, and its `join` waits for the end of `threadFunc`. -/
def Turn (owner : T) (s : ThreadEnd F T) : EventLoopThread.Label F T → Prop
  | .eventLoop (.queueInLoopFrom thread _) => thread = owner →
      s.inner.owner.inDestructor = false
  | .eventLoop (.quitFrom thread) => thread = owner → s.inner.owner.inDestructor = true →
      s.inner.owner = .destroying ∧ s.loaded ≠ none
  | .join => s.exit = .destroyed
  | _ => True

/-- Clearing `loop_` is the first of the last lines. -/
def exitAfter (s : ThreadEnd F T) : EventLoopThread.Label F T → ExitPhase
  | .clear => .cleared
  | _ => s.exit

variable [DecidableEq T]

inductive Step (owner : T) (s : ThreadEnd F T) : Label F T → ThreadEnd F T → Prop
  | inner (label : EventLoopThread.Label F T) {inner : EventLoopThread F T}
      (hturn : Turn owner s label) (hstep : EventLoopThread.Step owner s.inner label inner) :
      Step owner s (.inner label) { s with inner := inner, exit := s.exitAfter label }
  | load (howner : s.inner.owner = .destroying) (hloaded : s.loaded = none) :
      Step owner s .load { s with loaded := some s.inner.loopSet }
  | unlock (hexit : s.exit = .cleared) : Step owner s .unlock { s with exit := .unlocked }
  | destroyLoop (hexit : s.exit = .unlocked) :
      Step owner s .destroyLoop { s with exit := .destroyed }
  /-- The destructor returns. -/
  | leave (howner : s.inner.owner = .joined ∨ s.inner.owner = .detached) : Step owner s .leave s

/-- The destructor calls `quit` through a pointer that is set, on a loop that has not been
destroyed, and this is so until the call ends.  It returns when `threadFunc` has made its
last access to a member. -/
def Safe (owner : T) (s : ThreadEnd F T) : Label F T → Prop
  | .inner (.eventLoop (.quitFrom thread)) => thread = owner → s.inner.owner = .destroying →
      s.loaded = some true ∧ s.exit ≠ .destroyed
  | .inner (.eventLoop (.wakeupFrom thread)) => thread = owner → s.inner.owner = .joining →
      s.exit ≠ .destroyed
  | .leave => s.exit = .unlocked ∨ s.exit = .destroyed
  | _ => True

/-- Between the load of `loop_` and the end of `quit`. -/
def Quits (owner : T) (s : ThreadEnd F T) : Prop :=
  s.inner.owner = .destroying ∧ s.loaded ≠ none ∨
    s.inner.owner = .joining ∧ owner ∈ s.inner.eventLoop.quittingThreads

/-- The thread does not clear `loop_` between the test and the load of the destructor, it
does not destroy the loop between the load and the end of `quit`, and the destructor does
not test `loop_` while the thread holds the mutex for the last time. -/
def InTime (owner : T) (s : ThreadEnd F T) : Label F T → Prop
  | .inner .clear => ¬ (s.inner.owner = .destroying ∧ s.loaded = none)
  | .inner .destroy => s.exit ≠ .cleared
  | .destroyLoop => ¬ Quits owner s
  | _ => True

/-! ## The invariant -/

/-- Where the destructor and the thread are, in any run. -/
structure Placed (owner : T) (s : ThreadEnd F T) : Prop where
  synced : s.inner.Synced
  exit_iff : s.exit = .running ↔ s.inner.thread ≠ .finished
  finished : s.inner.thread = .finished → s.inner.loopSet = false
  unloaded : s.inner.owner.inDestructor = false → s.loaded = none
  unwaking : s.inner.owner.inDestructor = true → owner ∉ s.inner.eventLoop.wakingThreads
  unquitting : s.inner.owner = .destroying → owner ∉ s.inner.eventLoop.quittingThreads

/-- What the destructor has found is still there. -/
structure Held (owner : T) (s : ThreadEnd F T) : Prop extends Placed owner s where
  tested : s.inner.owner = .destroying → s.loaded = none → s.inner.loopSet = true
  quits : Quits owner s → s.exit ≠ .destroyed
  loaded : s.inner.owner = .destroying → s.loaded ≠ some false
  joined : s.inner.owner = .joined → s.exit = .destroyed
  detached : s.inner.owner = .detached → s.exit = .unlocked ∨ s.exit = .destroyed

section Inner

variable {s : ThreadEnd F T} {owner : T} {label : EventLoopThread.Label F T}
  {next : EventLoopThread F T}

/-- Only the owner's own calls put it among the threads that are in a call. -/
theorem calls_after {label : EventLoop.Label F T} {l : EventLoop F T}
    (hturn : Turn owner s (.eventLoop label)) (hstep : s.inner.eventLoop.Step label l)
    (hdestructor : s.inner.owner.inDestructor = true) :
    (owner ∈ l.wakingThreads → owner ∈ s.inner.eventLoop.wakingThreads) ∧
      (owner ∈ l.quittingThreads → owner ∈ s.inner.eventLoop.quittingThreads ∨
        s.inner.ownerAfter owner label = .joining ∧ s.inner.owner = .destroying ∧
          s.loaded ≠ none) := by
  cases hstep with
  | queueInLoopFrom thread functor hthread =>
      refine ⟨fun hmem => ?_, .inl⟩
      rcases Finset.mem_insert.1 hmem with heq | hold
      · exact absurd (hdestructor.symm.trans (hturn heq.symm)) Bool.noConfusion
      · exact hold
  | quitFrom thread hthread =>
      refine ⟨id, fun hmem => ?_⟩
      rcases Finset.mem_insert.1 hmem with rfl | hold
      · obtain ⟨hdestroying, hloaded⟩ := hturn rfl hdestructor
        exact .inr ⟨if_pos ⟨rfl, hdestroying⟩, hdestroying, hloaded⟩
      · exact .inl hold
  | wakeupFrom thread hthread =>
      exact ⟨Finset.mem_of_mem_erase, fun hmem => .inl (Finset.mem_of_mem_erase hmem)⟩
  | @handleEvent channel rest hphase hwaking hactive =>
      cases channel <;> exact ⟨id, .inl⟩
  | testQuit hphase => split_ifs <;> exact ⟨id, .inl⟩
  | _ => exact ⟨id, .inl⟩

/-- The owner is in no call when its destructor is about to call `quit`. -/
theorem Placed.notMem_calls (h : Placed owner s)
    (hdestroying : s.inner.owner = .destroying) :
    owner ∉ s.inner.eventLoop.wakingThreads ∪ s.inner.eventLoop.quittingThreads := by
  have hwaking := h.unwaking (by rw [hdestroying]; rfl)
  exact Finset.notMem_union.2 ⟨hwaking, h.unquitting hdestroying⟩

theorem Placed.inner (h : Placed owner s) (hturn : Turn owner s label)
    (hstep : EventLoopThread.Step owner s.inner label next) :
    Placed owner { s with inner := next, exit := s.exitAfter label } := by
  have hsynced := h.synced.step hstep
  have hrunning {thread : ThreadPhase} (hbefore : s.inner.thread = thread)
      (hthread : thread ≠ .finished) : s.exit = .running :=
    h.exit_iff.2 (hbefore ▸ hthread)
  cases hstep with
  | start howner =>
      refine ⟨hsynced, ?_, fun hfinished => ThreadPhase.noConfusion hfinished, fun _ => ?_,
        fun hdestructor => Bool.noConfusion hdestructor,
        fun hdestroying => OwnerPhase.noConfusion hdestroying⟩
      · exact iff_of_true (hrunning (h.synced.idle howner).1 (by decide))
          fun heq => ThreadPhase.noConfusion heq
      · exact h.unloaded (by rw [howner]; rfl)
  | publish hthread =>
      refine ⟨hsynced, ?_, fun hfinished => ThreadPhase.noConfusion hfinished, h.unloaded,
        h.unwaking, h.unquitting⟩
      exact iff_of_true (hrunning hthread (by decide)) fun heq => ThreadPhase.noConfusion heq
  | returnLoop howner hset =>
      exact ⟨hsynced, h.exit_iff, h.finished, fun _ => h.unloaded (by rw [howner]; rfl),
        fun hdestructor => Bool.noConfusion hdestructor,
        fun hdestroying => OwnerPhase.noConfusion hdestroying⟩
  | @eventLoop label l hinner hstep =>
      have howner := s.inner.ownerAfter_cases owner label
      have hdestructor : (s.inner.ownerAfter owner label).inDestructor =
          s.inner.owner.inDestructor := by
        rcases howner with heq | ⟨heq, hdestroying, -⟩
        · rw [heq]
        · rw [heq, hdestroying]
          rfl
      have hthread : s.inner.threadAfter l label = .finished ↔ s.inner.thread = .finished := by
        refine ⟨fun hfinished => ?_, EventLoopThread.threadAfter_finished hinner⟩
        rcases s.inner.threadAfter_cases l label with heq | heq | heq
        · exact heq.symm.trans hfinished
        · exact ThreadPhase.noConfusion (heq.symm.trans hfinished)
        · exact ThreadPhase.noConfusion (heq.symm.trans hfinished)
      refine ⟨hsynced, h.exit_iff.trans (not_congr hthread).symm,
        fun hfinished => h.finished (hthread.1 hfinished),
        fun houtside => h.unloaded (hdestructor ▸ houtside), fun hinside => ?_,
        fun hdestroying => ?_⟩
      · have hinside : s.inner.owner.inDestructor = true := hdestructor ▸ hinside
        exact mt (calls_after hturn hstep hinside).1 (h.unwaking hinside)
      · have hbefore : s.inner.owner = .destroying := by
          rcases howner with heq | ⟨heq, -⟩
          · exact heq.symm.trans hdestroying
          · exact OwnerPhase.noConfusion (heq.symm.trans hdestroying)
        intro hmem
        rcases (calls_after hturn hstep (by rw [hbefore]; rfl)).2 hmem with hold | ⟨heq, -⟩
        · exact h.unquitting hbefore hold
        · exact OwnerPhase.noConfusion (heq.symm.trans hdestroying)
  | clear hthread =>
      exact ⟨hsynced, iff_of_false (fun hexit => ExitPhase.noConfusion hexit) fun hne => hne rfl,
        fun _ => rfl, h.unloaded, h.unwaking, h.unquitting⟩
  | destroy howner hidle =>
      obtain ⟨hwaking, hquitting⟩ := Finset.notMem_union.1 hidle
      refine ⟨hsynced, h.exit_iff, h.finished, fun _ => ?_, fun _ => hwaking, fun _ => hquitting⟩
      exact h.unloaded (by rw [howner]; rfl)
  | join howner hidle hthread =>
      exact ⟨hsynced, h.exit_iff, h.finished, fun hdestructor => Bool.noConfusion hdestructor,
        fun _ => h.unwaking (by rw [howner]; rfl),
        fun hdestroying => OwnerPhase.noConfusion hdestroying⟩

/-- The destructor does not begin to quit by a step of the loop other than its own call. -/
theorem Placed.quits_eventLoop (h : Placed owner s) {label : EventLoop.Label F T}
    {l : EventLoop F T} (hturn : Turn owner s (.eventLoop label))
    (hstep : s.inner.eventLoop.Step label l)
    (hquits : Quits owner { s with inner := s.inner.afterEventLoop owner label l }) :
    Quits owner s := by
  rcases hquits with ⟨hdestroying, hloaded⟩ | ⟨hjoining, hmem⟩
  · rcases s.inner.ownerAfter_cases owner label with heq | ⟨heq, -⟩
    · exact .inl ⟨heq.symm.trans hdestroying, hloaded⟩
    · exact OwnerPhase.noConfusion (heq.symm.trans hdestroying)
  · have hinside : s.inner.owner.inDestructor = true := by
      rcases s.inner.ownerAfter_cases owner label with heq | ⟨-, hdestroying, -⟩
      · rw [heq.symm.trans hjoining]
        rfl
      · rw [hdestroying]
        rfl
    rcases (calls_after hturn hstep hinside).2 hmem with hold | ⟨-, hcall⟩
    · rcases s.inner.ownerAfter_cases owner label with heq | ⟨-, hdestroying, -⟩
      · exact .inr ⟨heq.symm.trans hjoining, hold⟩
      · exact absurd hold (h.unquitting hdestroying)
    · exact .inl hcall

omit [DecidableEq T] in
/-- Before the destructor has tested `loop_` there is nothing to hold. -/
theorem Placed.held (h : Placed owner s) (houtside : s.inner.owner.inDestructor = false) :
    Held owner s := by
  have hnot {phase : OwnerPhase} (hinside : phase.inDestructor = true)
      (howner : s.inner.owner = phase) : False := by
    rw [← howner, houtside] at hinside
    cases hinside
  refine ⟨h, fun hdestroying => (hnot rfl hdestroying).elim, ?_,
    fun hdestroying => (hnot rfl hdestroying).elim, fun hjoined => (hnot rfl hjoined).elim,
    fun hdetached => (hnot rfl hdetached).elim⟩
  rintro (⟨hdestroying, -⟩ | ⟨hjoining, -⟩)
  · exact (hnot rfl hdestroying).elim
  · exact (hnot rfl hjoining).elim

theorem Held.inner (h : Held owner s) (hturn : Turn owner s label)
    (hstep : EventLoopThread.Step owner s.inner label next)
    (htime : InTime owner s (.inner label)) :
    Held owner { s with inner := next, exit := s.exitAfter label } := by
  have hplaced := h.toPlaced.inner hturn hstep
  cases hstep with
  | start howner => exact hplaced.held rfl
  | publish hthread => exact ⟨hplaced, fun _ _ => rfl, h.quits, h.loaded, h.joined, h.detached⟩
  | returnLoop howner hset => exact hplaced.held rfl
  | @eventLoop label l hinner hstep =>
      have hkept {phase : OwnerPhase} (hphase : phase ≠ .joining)
          (hafter : s.inner.ownerAfter owner label = phase) : s.inner.owner = phase := by
        rcases s.inner.ownerAfter_cases owner label with heq | ⟨heq, -⟩
        · exact heq.symm.trans hafter
        · exact absurd (hafter.symm.trans heq) hphase
      exact ⟨hplaced, fun hdestroying => h.tested (hkept (by decide) hdestroying),
        fun hquits => h.quits (h.quits_eventLoop hturn hstep hquits),
        fun hdestroying => h.loaded (hkept (by decide) hdestroying),
        fun hjoined => h.joined (hkept (by decide) hjoined),
        fun hdetached => h.detached (hkept (by decide) hdetached)⟩
  | clear hthread =>
      have hgone (howner : s.inner.owner = .joined ∨ s.inner.owner = .detached) : False :=
        ThreadPhase.noConfusion (hthread.symm.trans (h.synced.gone howner))
      exact ⟨hplaced, fun hdestroying hloaded => (htime ⟨hdestroying, hloaded⟩).elim,
        fun _ hexit => ExitPhase.noConfusion hexit, h.loaded,
        fun hjoined => (hgone (.inl hjoined)).elim, fun hdetached => (hgone (.inr hdetached)).elim⟩
  | destroy howner hidle =>
      have hloaded : s.loaded = none := h.unloaded (by rw [howner]; rfl)
      refine ⟨hplaced, fun hdestroying _ => ?_, fun hquits => ?_,
        fun _ hsome => (by cases hloaded.symm.trans hsome), fun hjoined => ?_,
        fun hdetached => ?_⟩
      · by_contra hset
        simp [hset] at hdestroying
      · rcases hquits with ⟨-, hsome⟩ | ⟨hjoining, -⟩
        · exact absurd hloaded hsome
        · dsimp only at hjoining
          split_ifs at hjoining
      · dsimp only at hjoined
        split_ifs at hjoined
      · -- the thread has cleared `loop_` and is past its lock
        have hset : s.inner.loopSet ≠ true := fun hset => by simp [hset] at hdetached
        have hfinished : s.inner.thread = .finished :=
          (h.synced.hasLoop_set (by rw [howner]; rfl)).resolve_left hset
        have hcleared : s.exit ≠ .cleared := htime
        have hrunning : s.exit ≠ .running := fun hexit => h.exit_iff.1 hexit hfinished
        change s.exit = .unlocked ∨ s.exit = .destroyed
        cases hexit : s.exit with
        | running => exact absurd hexit hrunning
        | cleared => exact absurd hexit hcleared
        | unlocked => exact .inl rfl
        | destroyed => exact .inr rfl
  | join howner hidle hthread =>
      exact ⟨hplaced, fun hdestroying => OwnerPhase.noConfusion hdestroying,
        fun hquits => by simp [Quits] at hquits,
        fun hdestroying => OwnerPhase.noConfusion hdestroying, fun _ => hturn,
        fun hdetached => OwnerPhase.noConfusion hdetached⟩

end Inner

section

variable {s t : ThreadEnd F T} {owner : T} {label : Label F T}

omit [DecidableEq T] in
theorem start_held (owner : T) : Held owner ({} : ThreadEnd F T) :=
  Placed.held ⟨EventLoopThread.start_synced, iff_of_true rfl fun heq => ThreadPhase.noConfusion heq,
    fun _ => rfl, fun _ => rfl, fun hinside => Bool.noConfusion hinside,
    fun hdestroying => OwnerPhase.noConfusion hdestroying⟩ rfl

theorem Held.step (h : Held owner s) (hstep : restrict (Step owner) (InTime owner) s label t) :
    Held owner t := by
  obtain ⟨hstep, htime⟩ := hstep
  have hfinished {exit : ExitPhase} (hbefore : s.exit = exit) (hexit : exit ≠ .running) :
      ¬ s.inner.thread ≠ .finished := mt h.exit_iff.2 (hbefore ▸ hexit)
  cases hstep with
  | inner label hturn hstep => exact h.inner hturn hstep htime
  | load howner hloaded =>
      have hset : s.inner.loopSet = true := h.tested howner hloaded
      have hrunning : s.exit = .running := by
        refine h.exit_iff.2 fun hdone => ?_
        exact Bool.false_ne_true ((h.finished hdone).symm.trans hset)
      refine ⟨⟨h.synced, h.exit_iff, h.finished, fun houtside => ?_, h.unwaking, h.unquitting⟩,
        fun _ hnone => (by cases hnone), fun _ hexit => ?_, fun _ => (by simp [hset]), h.joined,
        h.detached⟩
      · rw [howner] at houtside
        cases houtside
      · exact ExitPhase.noConfusion (hrunning.symm.trans hexit)
  | unlock hexit =>
      refine ⟨⟨h.synced, iff_of_false (fun heq => ExitPhase.noConfusion heq)
        (hfinished hexit (by decide)), h.finished, h.unloaded, h.unwaking, h.unquitting⟩, h.tested,
        fun _ heq => ExitPhase.noConfusion heq, h.loaded, fun hjoined => ?_, fun _ => .inl rfl⟩
      exact ExitPhase.noConfusion (hexit.symm.trans (h.joined hjoined))
  | destroyLoop hexit =>
      exact ⟨⟨h.synced, iff_of_false (fun heq => ExitPhase.noConfusion heq)
        (hfinished hexit (by decide)), h.finished, h.unloaded, h.unwaking, h.unquitting⟩, h.tested,
        fun hquits => (htime hquits).elim, h.loaded, fun _ => rfl, fun _ => .inr rfl⟩
  | leave howner => exact h

theorem Held.safe (h : Held owner s) (hstep : Step owner s label t) : Safe owner s label := by
  cases hstep with
  | inner label hturn hstep =>
      cases label with
      | eventLoop label =>
          cases label with
          | quitFrom thread =>
              intro hthread hdestroying
              have hloaded : s.loaded ≠ none := (hturn hthread (by rw [hdestroying]; rfl)).2
              refine ⟨?_, h.quits (.inl ⟨hdestroying, hloaded⟩)⟩
              obtain ⟨set, hset⟩ := Option.ne_none_iff_exists'.1 hloaded
              cases set with
              | false => exact absurd hset (h.loaded hdestroying)
              | true => exact hset
          | wakeupFrom thread =>
              intro hthread hjoining
              subst hthread
              cases hstep with
              | eventLoop _ _ hstep =>
                  cases hstep with
                  | wakeupFrom _ hmem =>
                      have hwaking := h.unwaking (by rw [hjoining]; rfl)
                      refine h.quits (.inr ⟨hjoining, ?_⟩)
                      exact (Finset.mem_union.1 hmem).resolve_left hwaking
          | _ => trivial
      | _ => trivial
  | leave howner =>
      exact howner.elim (fun hjoined => .inr (h.joined hjoined)) h.detached
  | _ => trivial

/-- A step that comes at the wrong time leads to an access that is not safe. -/
theorem Held.exists_not_safe (h : Held owner s) (hstep : Step owner s label t)
    (hlate : ¬ InTime owner s label) : ∃ labels u next v, Run (Step owner) t labels u ∧
      Step owner u next v ∧ ¬ Safe owner u next := by
  have hfinished (hexit : s.exit ≠ .running) : s.inner.thread = .finished :=
    by_contra fun hthread => hexit (h.exit_iff.2 hthread)
  cases hstep with
  | inner label hturn hstep =>
      cases hstep with
      | clear hthread =>
          -- the second read of `loop_` gives null
          obtain ⟨hdestroying, hloaded⟩ := not_not.1 hlate
          have hidle := h.notMem_calls hdestroying
          refine ⟨_, _, .inner (.eventLoop (.quitFrom owner)), _,
            .single (.load hdestroying hloaded), .inner _ (fun _ _ => ⟨hdestroying, by simp⟩)
              (.eventLoop _ (fun heq => ThreadPhase.noConfusion heq) (.quitFrom owner hidle)), ?_⟩
          intro hsafe
          cases (hsafe rfl hdestroying).1
      | destroy howner hidle =>
          -- the destructor does not join the thread
          have hexit : s.exit = .cleared := not_not.1 hlate
          have hset : s.inner.loopSet = false := h.finished (hfinished (by simp [hexit]))
          refine ⟨[], _, .leave, _, .nil, .leave (.inr (by simp [hset])), ?_⟩
          rintro (hunlocked | hdestroyed)
          · exact ExitPhase.noConfusion (hexit.symm.trans hunlocked)
          · exact ExitPhase.noConfusion (hexit.symm.trans hdestroyed)
      | _ => exact absurd trivial hlate
  | destroyLoop hexit =>
      have hthread : s.inner.thread ≠ .unstarted := by
        rw [hfinished (by simp [hexit])]
        exact fun heq => ThreadPhase.noConfusion heq
      rcases not_not.1 hlate with ⟨hdestroying, hloaded⟩ | ⟨hjoining, hmem⟩
      · have hidle := h.notMem_calls hdestroying
        exact ⟨[], _, .inner (.eventLoop (.quitFrom owner)), _, .nil,
          .inner _ (fun _ _ => ⟨hdestroying, hloaded⟩)
            (.eventLoop _ hthread (.quitFrom owner hidle)),
          fun hsafe => (hsafe rfl hdestroying).2 rfl⟩
      · exact ⟨[], _, .inner (.eventLoop (.wakeupFrom owner)), _, .nil,
          .inner _ trivial (.eventLoop _ hthread
            (.wakeupFrom owner (Finset.mem_union_right _ hmem))),
          fun hsafe => hsafe rfl hjoining rfl⟩
  | load => exact absurd trivial hlate
  | unlock => exact absurd trivial hlate
  | leave => exact absurd trivial hlate

end

/-- In the runs whose steps come in time, the destructor calls `quit` through a pointer
that is set, on a loop that has not been destroyed and is not destroyed before the call
ends, and it does not return while `threadFunc` can access a member.  A step that does not
come in time can be followed by one that breaks this. -/
theorem destructor_safe (owner : T) (labels : List (Label F T)) (s : ThreadEnd F T)
    (hrun : Run (restrict (Step owner) (InTime owner)) {} labels s) :
    (∀ label t, Step owner s label t → Safe owner s label) ∧
      ∀ label t, Step owner s label t → ¬ InTime owner s label →
        ∃ labels u next v, Run (Step owner) t labels u ∧ Step owner u next v ∧
          ¬ Safe owner u next := by
  have h : Held owner s := hrun.invariant (start_held owner) fun _ _ _ => Held.step
  exact ⟨fun label t => h.safe, fun label t => h.exists_not_safe⟩

/-- The loop runs when the destructor starts. -/
theorem destructor_safe_running : ∃ s : ThreadEnd ℕ ℕ, s.inner.thread = .looping ∧
    s.loaded = some true ∧ Safe 0 s (.inner (.eventLoop (.quitFrom 0))) := by
  have hrun : Run (restrict (Step (F := ℕ) (T := ℕ) 0) (InTime 0)) {} _ _ :=
    (((((Run.single ⟨.inner .start trivial (.start rfl), trivial⟩).snoc
      ⟨.inner .publish trivial (.publish rfl), trivial⟩).snoc
      ⟨.inner .returnLoop trivial (.returnLoop rfl rfl), trivial⟩).snoc
      ⟨.inner (.eventLoop .loop) trivial (.eventLoop .loop rfl (.loop rfl)), trivial⟩).snoc
      ⟨.inner .destroy trivial (.destroy rfl (by simp)),
        fun hexit => ExitPhase.noConfusion hexit⟩).snoc ⟨.load rfl rfl, trivial⟩
  exact ⟨_, rfl, rfl, (destructor_safe 0 _ _ hrun).1 _ _
    (.inner _ (fun _ _ => ⟨rfl, Option.some_ne_none _⟩)
      (.eventLoop (.quitFrom 0) (fun hthread => ThreadPhase.noConfusion hthread)
        (.quitFrom 0 (by simp))))⟩

/-- A user ends the loop.  The thread clears `loop_` between the test and the call of the
destructor. -/
theorem destructor_calls_null :
    ¬ ∀ (labels : List (Label ℕ ℕ)) (s t : ThreadEnd ℕ ℕ) (label : Label ℕ ℕ),
      Run (Step 0) {} labels s → Step 0 s label t → Safe 0 s label := by
  intro hclaim
  let looping : ThreadEnd ℕ ℕ :=
    { inner := {
        eventLoop := { looping := true, phase := .testing }
        loopSet := true
        thread := .looping
        owner := .returned } }
  let quitting : ThreadEnd ℕ ℕ :=
    { inner := { looping.inner with
        eventLoop := { looping.inner.eventLoop with quit := true, quittingThreads := insert 1 ∅ }
        asked := true } }
  have hstarted : Run (Step (F := ℕ) (T := ℕ) 0) {} _ _ :=
    ((Run.single (.inner .start trivial (.start rfl))).snoc
      (.inner .publish trivial (.publish rfl))).snoc
      (.inner .returnLoop trivial (.returnLoop rfl rfl))
  have hlooping : Run (Step 0) {} _ looping :=
    hstarted.snoc (.inner (.eventLoop .loop) trivial (.eventLoop .loop rfl (.loop rfl)))
  have hquit : Step 0 looping (.inner (.eventLoop (.quitFrom 1))) quitting :=
    .inner _ (fun heq => absurd heq (by decide))
      (.eventLoop _ (fun hthread => ThreadPhase.noConfusion hthread) (.quitFrom 1 (by decide)))
  have hended := (hlooping.snoc hquit).snoc
    (.inner (.eventLoop .testQuit) trivial (.eventLoop .testQuit rfl (.testQuit rfl)))
  have hrun := ((hended.snoc (.inner .destroy trivial (.destroy rfl (by decide)))).snoc
    (.inner .clear trivial (.clear rfl))).snoc (.load rfl rfl)
  have hsafe := hclaim _ _ _ (.inner (.eventLoop (.quitFrom 0))) hrun
    (.inner _ (fun _ _ => ⟨rfl, Option.some_ne_none _⟩)
      (.eventLoop (.quitFrom 0) (fun hthread => ThreadPhase.noConfusion hthread)
        (.quitFrom 0 (by decide))))
  cases (hsafe rfl rfl).1

end ThreadEnd

end MuduoLite
