import MuduoLite.Library.Dispatch
import MuduoLite.Timer.Expiry

/-!
# Adding and cancelling timers from any thread

`addTimer` creates the timer and passes `addTimerInLoop` to `runInLoop`; `cancel` passes
`cancelInLoop`.  On the loop thread both run at once, on another thread as functors, and
`addTimer` returns its `TimerId` when the functor is in the queue.

`cancelInLoop` of a timer that has not been inserted leaves nothing behind.  A `cancel` on
another thread is queued behind the insertion, so it finds the timer inserted.  A `cancel`
on the loop thread does so only if the insertion has been executed (`InTurn`); otherwise
it is lost.

The run of the timer queue is that of `TimerSystem`.  The loop thread runs functors
outside `handleRead` only, while its callbacks may call `addTimer` and `cancel` there too.
-/

namespace MuduoLite

open Transition
open scoped List

namespace TimerRequests

open TimerQueue TimerSystem

inductive Request
  | addTimer (id : TimerId)
  | cancel (id : TimerId)
  deriving DecidableEq, Repr

/-- A call of `addTimerInLoop` or `cancelInLoop`. -/
structure Call where
  number : ℕ
  request : Request
  deriving DecidableEq, Repr

/-- The timer a call adds. -/
def Call.added (c : Call) : Option TimerId :=
  match c.request with
  | .addTimer id => some id
  | .cancel _ => none

structure System where
  timers : TimerSystem.System := {}
  calls : Dispatch Call := {}
  /-- the calls on other threads that have not queued their functor yet -/
  starting : List Call := []
  begun : ℕ := 0

/-- `addTimer` and `cancel` are calls on the loop thread, `addTimerFrom` and `cancelFrom`
calls on another thread. -/
inductive Label
  | addTimer (timer : ℕ) (when : ℤ) (interval : ℕ) (repeats : Bool) (clock : ℤ)
  | addTimerFrom (timer : ℕ) (when : ℤ) (interval : ℕ) (repeats : Bool)
  | cancel (id : TimerId)
  | cancelFrom (id : TimerId)
  | queueInLoop (c : Call)
  | runFunctor (clock : ℤ)
  | handleRead (now : ℤ)
  | runTimer
  | reset (clock : ℤ)
  deriving DecidableEq, Repr

/-- The `TimerId` of the next timer. -/
def System.nextId (p : System) (timer : ℕ) : TimerId := ⟨timer, p.timers.queue.numCreated + 1⟩

def System.next (p : System) (request : Request) : Call := ⟨p.begun, request⟩

/-- What the functor of a call does to the timer queue. -/
def Call.functor (c : Call) (clock : ℤ) : TimerSystem.Label :=
  match c.request with
  | .addTimer id => .addTimerInLoop id.timer clock
  | .cancel id => .cancelInLoop id

/-- `addTimer` has returned `id`. -/
def Returned (p : System) (id : TimerId) : Prop :=
  ∃ c ∈ p.calls.line, c.request = .addTimer id

/-- The loop thread has executed the request. -/
def Executed (p : System) (request : Request) : Prop :=
  ∃ c ∈ p.calls.executed, c.request = request

def Step (p : System) (label : Label) (q : System) : Prop :=
  match label with
  | .addTimer timer when interval repeats clock => ∃ timers,
      TimerSystem.Step p.timers (.addTimer timer when interval repeats clock) timers ∧
        q = { p with
          timers := timers
          calls := p.calls.runNow (p.next (.addTimer (p.nextId timer)))
          begun := p.begun + 1 }
  | .addTimerFrom timer when interval repeats => ∃ timers,
      TimerSystem.Step p.timers (.newTimer timer when interval repeats) timers ∧
        q = { p with
          timers := timers
          starting := p.next (.addTimer (p.nextId timer)) :: p.starting
          begun := p.begun + 1 }
  | .cancel id => Returned p id ∧ ∃ timers,
      TimerSystem.Step p.timers (.cancelInLoop id) timers ∧
        q = { p with
          timers := timers
          calls := p.calls.runNow (p.next (.cancel id))
          begun := p.begun + 1 }
  | .cancelFrom id => Returned p id ∧
      q = { p with starting := p.next (.cancel id) :: p.starting, begun := p.begun + 1 }
  | .queueInLoop c => c ∈ p.starting ∧
      q = { p with starting := p.starting.erase c, calls := p.calls.queue c }
  | .runFunctor clock => p.timers.batch = none ∧ ∃ c rest timers, p.calls.pending = c :: rest ∧
      TimerSystem.Step p.timers (c.functor clock) timers ∧
        q = { p with timers := timers, calls := p.calls.runNext }
  | .handleRead now => ∃ timers, TimerSystem.Step p.timers (.handleRead now) timers ∧
      q = { p with timers := timers }
  | .runTimer => ∃ timers, TimerSystem.Step p.timers .runTimer timers ∧
      q = { p with timers := timers }
  | .reset clock => ∃ timers, TimerSystem.Step p.timers (.reset clock) timers ∧
      q = { p with timers := timers }

/-- A `cancel` on the loop thread comes when the insertion has been executed. -/
def InTurn (p : System) : Label → Prop
  | .cancel id => Executed p (.addTimer id)
  | _ => True

section Waiting

variable {s t : TimerSystem.System} {label : TimerSystem.Label} {timer : ℕ}

theorem heap_resetMembers_of_ne {q : TimerQueue} {now : ℤ} {held : List (ℕ × Timer)}
    (hne : ∀ member ∈ held, member.1 ≠ timer) :
    (q.resetMembers now held).heap timer = q.heap timer := by
  induction held generalizing q with
  | nil => rfl
  | cons member rest ih =>
      obtain ⟨hmember, hrest⟩ := List.forall_mem_cons.1 hne
      rw [resetMembers_cons, ih hrest, heap_resetMember, Function.update_of_ne hmember.symm]

/-- Until its functor runs nothing happens to a timer. -/
theorem outcome_waiting_heap (hs : Sound s) (houtcome : Outcome s label t)
    (hwaiting : timer ∈ s.waiting) : t.queue.heap timer = s.queue.heap timer := by
  obtain ⟨object, hlive⟩ := hs.intact.owned.waiting_live timer hwaiting
  have hnew {other : ℕ} (hfree : s.queue.heap other = none) (value : Option Timer) :
      Function.update s.queue.heap other value timer = s.queue.heap timer := by
    refine Function.update_of_ne ?_ _ _
    rintro rfl
    simp [hfree] at hlive
  cases houtcome with
  | newTimer other when interval repeats hfree hrange => exact hnew hfree _
  | addTimerInLoop other clock added hidle hother hheap => rw [timerAdded_heap]
  | addTimer other when interval repeats clock hfree hrange =>
      rw [timerAdded_heap]
      exact hnew hfree _
  | cancelActive id old hpending hsequence =>
      refine Function.update_of_ne ?_ _ _
      rintro rfl
      exact hs.intact.owned.waiting_loose _ hwaiting _ hpending.2 rfl
  | reset clock b hbatch htodo =>
      rw [rearmed_heap]
      refine heap_resetMembers_of_ne fun member hmember hsame => ?_
      exact hs.intact.owned.disjoint member (System.held_eq hbatch ▸ hmember) (hsame ▸ hwaiting)
  | _ => rfl

end Waiting

/-! ## The invariant -/

def System.begunCalls (p : System) : List Call := p.calls.line ++ p.starting

/-- The timers whose insertion has not been executed. -/
def System.adding (p : System) : List TimerId :=
  (p.calls.pending ++ p.starting).filterMap Call.added

structure Tracked (p : System) : Prop where
  sound : Sound p.timers
  numbered : Dispatch.Numbered Call.number p.begun p.begunCalls
  waiting : (p.adding.map TimerId.timer).Perm p.timers.waiting
  adding : ∀ id ∈ p.adding, ∃ object, p.timers.queue.heap id.timer = some object ∧
    object.sequence = id.sequence
  inserted : ∀ id, Executed p (.addTimer id) → Inserted id p.timers

/-- Every `cancel` comes behind the insertion of its timer. -/
def Ordered (p : System) : Prop :=
  ∀ c ∈ p.begunCalls, ∀ id, c.request = .cancel id →
    ∃ insertion, insertion.request = .addTimer id ∧ p.calls.Behind insertion c

section Steps

variable {p q : System} {label : Label}

theorem Tracked.timer_mem_waiting (h : Tracked p) {id : TimerId} (hmem : id ∈ p.adding) :
    id.timer ∈ p.timers.waiting := h.waiting.subset (List.mem_map_of_mem hmem)

/-- A step of the timer queue. -/
theorem Tracked.outcome (h : Tracked p) {timerLabel : TimerSystem.Label}
    (houtcome : Outcome p.timers timerLabel q.timers)
    (hnumbered : Dispatch.Numbered Call.number q.begun q.begunCalls)
    (hwaiting : (q.adding.map TimerId.timer).Perm q.timers.waiting)
    (hadding : ∀ id ∈ q.adding, id ∈ p.adding ∨
      ∃ object, q.timers.queue.heap id.timer = some object ∧ object.sequence = id.sequence)
    (hinserted : ∀ id, Executed q (.addTimer id) →
      Executed p (.addTimer id) ∨ Inserted id q.timers) : Tracked q where
  sound := sound_outcome h.sound houtcome
  numbered := hnumbered
  waiting := hwaiting
  adding := fun id hmem => by
    rcases hadding id hmem with hold | hnew
    · rw [outcome_waiting_heap h.sound houtcome (h.timer_mem_waiting hold)]
      exact h.adding id hold
    · exact hnew
  inserted := fun id hexecuted => by
    rcases hinserted id hexecuted with hold | hnew
    · exact (h.inserted id hold).outcome h.sound houtcome
    · exact hnew

/-- A step of a thread that leaves the timer queue alone. -/
theorem Tracked.congr (h : Tracked p) (htimers : q.timers = p.timers)
    (hnumbered : Dispatch.Numbered Call.number q.begun q.begunCalls)
    (hadding : q.adding.Perm p.adding) (hexecuted : q.calls.executed = p.calls.executed) :
    Tracked q where
  sound := htimers ▸ h.sound
  numbered := hnumbered
  waiting := by
    rw [htimers]
    exact (hadding.map _).trans h.waiting
  adding := fun id hmem => by
    rw [htimers]
    exact h.adding id (hadding.subset hmem)
  inserted := fun id => by
    rw [htimers, Executed, hexecuted]
    exact h.inserted id

/-- A call begins on the loop thread. -/
theorem numbered_runNow (h : Tracked p) (request : Request) (timers : TimerSystem.System) :
    Dispatch.Numbered Call.number (p.begun + 1) { p with
      timers := timers
      calls := p.calls.runNow (p.next request)
      begun := p.begun + 1 : System }.begunCalls :=
  h.numbered.begin (c := p.next request) rfl ((p.calls.line_runNow_perm _).append_right _)

/-- A call begins on another thread. -/
theorem numbered_starting (h : Tracked p) (request : Request) (timers : TimerSystem.System) :
    Dispatch.Numbered Call.number (p.begun + 1) { p with
      timers := timers
      starting := p.next request :: p.starting
      begun := p.begun + 1 : System }.begunCalls :=
  h.numbered.begin (c := p.next request) rfl List.perm_middle

theorem executed_runNow {request other : Request} {timers : TimerSystem.System}
    (h : Executed { p with
      timers := timers
      calls := p.calls.runNow (p.next request)
      begun := p.begun + 1 } other) : Executed p other ∨ request = other := by
  obtain ⟨c, hmem, hrequest⟩ := h
  rcases List.mem_append.1 hmem with hold | hnew
  · exact .inl ⟨c, hold, hrequest⟩
  · rw [List.mem_singleton.1 hnew] at hrequest
    exact .inr hrequest

theorem executed_runNext {c : Call} {rest : List Call} (hpending : p.calls.pending = c :: rest)
    {other : Request} {timers : TimerSystem.System}
    (h : Executed { p with timers := timers, calls := p.calls.runNext } other) :
    Executed p other ∨ c.request = other := by
  obtain ⟨last, hmem, hrequest⟩ := h
  rw [p.calls.runNext_of_pending hpending] at hmem
  rcases List.mem_append.1 hmem with hold | hnew
  · exact .inl ⟨last, hold, hrequest⟩
  · rw [List.mem_singleton.1 hnew] at hrequest
    exact .inr hrequest

theorem Tracked.addTimer (h : Tracked p) {timer : ℕ} {when clock : ℤ} {interval : ℕ}
    {repeats : Bool} (hstep : Step p (.addTimer timer when interval repeats clock) q) :
    Tracked q := by
  obtain ⟨timers, hstep, rfl⟩ := hstep
  have houtcome := outcome_of_step h.sound hstep
  have hs := sound_outcome h.sound houtcome
  refine h.outcome houtcome (numbered_runNow h _ timers) ?_ (fun _ hmem => .inl hmem)
    fun id hexecuted => ?_
  · cases houtcome
    exact h.waiting
  · rcases executed_runNow hexecuted with hold | hnew
    · exact .inl hold
    · obtain rfl : p.nextId timer = id := Request.addTimer.inj hnew
      have hpending : timers.queue.Pending timer
          ⟨when, interval, repeats, p.timers.queue.numCreated + 1⟩ := by
        cases houtcome
        exact (pending_timerAdded (Function.update_self _ _ _)).2 (.inr ⟨rfl, rfl⟩)
      exact .inr (inserted_of_pending hs hpending rfl)

theorem Tracked.addTimerFrom (h : Tracked p) {timer : ℕ} {when : ℤ} {interval : ℕ}
    {repeats : Bool} (hstep : Step p (.addTimerFrom timer when interval repeats) q) :
    Tracked q := by
  obtain ⟨timers, hstep, rfl⟩ := hstep
  have houtcome := outcome_of_step h.sound hstep
  -- the new timer is the only one that joins
  have hadding : ({ p with
      timers := timers
      starting := p.next (.addTimer (p.nextId timer)) :: p.starting
      begun := p.begun + 1 } : System).adding.Perm (p.nextId timer :: p.adding) :=
    (List.perm_middle.filterMap Call.added).trans (.of_eq (List.filterMap_cons_some rfl))
  refine h.outcome houtcome (numbered_starting h _ timers) ?_ (fun id hmem => ?_)
    fun id hexecuted => .inl hexecuted
  · cases houtcome
    exact (hadding.map _).trans (h.waiting.cons timer)
  · rcases List.mem_cons.1 (hadding.subset hmem) with rfl | hold
    · refine .inr ⟨⟨when, interval, repeats, _⟩, ?_, rfl⟩
      cases houtcome
      exact Function.update_self _ _ _
    · exact .inl hold

theorem Tracked.cancel (h : Tracked p) {id : TimerId} (hstep : Step p (.cancel id) q) :
    Tracked q := by
  obtain ⟨_, timers, hstep, rfl⟩ := hstep
  have houtcome := outcome_of_step h.sound hstep
  refine h.outcome houtcome (numbered_runNow h _ timers) ?_ (fun _ hmem => .inl hmem)
    fun other hexecuted => .inl ((executed_runNow hexecuted).resolve_right (by simp))
  cases houtcome <;> exact h.waiting

theorem Tracked.cancelFrom (h : Tracked p) {id : TimerId} (hstep : Step p (.cancelFrom id) q) :
    Tracked q := by
  obtain ⟨_, rfl⟩ := hstep
  refine h.congr rfl (numbered_starting h _ p.timers) ?_ rfl
  exact (List.perm_middle.filterMap Call.added).trans (.of_eq (List.filterMap_cons_none rfl))

theorem Tracked.queueInLoop (h : Tracked p) {c : Call} (hstep : Step p (.queueInLoop c) q) :
    Tracked q := by
  obtain ⟨hmem, rfl⟩ := hstep
  have hmoved : (c :: p.starting.erase c).Perm p.starting := (List.perm_cons_erase hmem).symm
  refine h.congr rfl (h.numbered.of_perm ?_) ?_ rfl
  · simp only [System.begunCalls, Dispatch.line_queue, List.append_assoc, List.singleton_append]
    exact hmoved.append_left _
  · simp only [System.adding, Dispatch.queue, List.append_assoc, List.singleton_append]
    exact (hmoved.append_left _).filterMap _

theorem Tracked.runFunctor (h : Tracked p) {clock : ℤ} (hstep : Step p (.runFunctor clock) q) :
    Tracked q := by
  obtain ⟨_, c, rest, timers, hpending, hstep, rfl⟩ := hstep
  have houtcome := outcome_of_step h.sound hstep
  have hnumbered : Dispatch.Numbered Call.number p.begun
      ({ p with timers := timers, calls := p.calls.runNext } : System).begunCalls := by
    refine h.numbered.of_perm (.of_eq ?_)
    simp only [System.begunCalls, Dispatch.line_runNext]
  have hqueue : ({ p with timers := timers, calls := p.calls.runNext } : System).adding =
      (rest ++ p.starting).filterMap Call.added := by
    rw [System.adding, p.calls.runNext_of_pending hpending]
  cases hrequest : c.request with
  | addTimer id =>
      have hadding : p.adding = id :: (rest ++ p.starting).filterMap Call.added := by
        rw [System.adding, hpending, List.cons_append]
        exact List.filterMap_cons_some (by simp [Call.added, hrequest])
      have hlive := h.adding id (hadding ▸ List.mem_cons_self)
      simp only [Call.functor, hrequest] at houtcome
      have hs := sound_outcome h.sound houtcome
      refine h.outcome houtcome hnumbered ?_ (fun other hmem => .inl ?_) fun other hother => ?_
      · have hperm := hadding ▸ h.waiting
        rw [hqueue]
        cases houtcome
        exact (List.cons_perm_iff_perm_erase.1 hperm).2
      · rw [hadding]
        exact List.mem_cons_of_mem _ (hqueue ▸ hmem)
      · rcases executed_runNext hpending hother with hold | hnew
        · exact .inl hold
        · obtain rfl : id = other := Request.addTimer.inj (hrequest.symm.trans hnew)
          obtain ⟨object, hheap, hsequence⟩ := hlive
          have hpending : timers.queue.Pending id.timer object := by
            cases houtcome with
            | addTimerInLoop _ _ added hidle hwaiting hadded =>
                obtain rfl : object = added := Option.some.inj (hheap.symm.trans hadded)
                exact (pending_timerAdded hadded).2 (.inr ⟨rfl, rfl⟩)
          exact .inr (inserted_of_pending hs hpending hsequence)
  | cancel id =>
      have hadding : p.adding = (rest ++ p.starting).filterMap Call.added := by
        rw [System.adding, hpending, List.cons_append]
        exact List.filterMap_cons_none (by simp [Call.added, hrequest])
      simp only [Call.functor, hrequest] at houtcome
      refine h.outcome houtcome hnumbered ?_ (fun other hmem => .inl ?_)
        fun other hother => .inl ((executed_runNext hpending hother).resolve_right
          (by simp [hrequest]))
      · rw [hqueue, ← hadding]
        cases houtcome <;> exact h.waiting
      · rw [hadding]
        exact hqueue ▸ hmem

/-- A step of the loop of the timers. -/
theorem Tracked.expiry (h : Tracked p) {timerLabel : TimerSystem.Label}
    {timers : TimerSystem.System} (hstep : TimerSystem.Step p.timers timerLabel timers)
    (hwaiting : timers.waiting = p.timers.waiting) : Tracked { p with timers := timers } :=
  h.outcome (outcome_of_step h.sound hstep) h.numbered (hwaiting ▸ h.waiting)
    (fun _ hmem => .inl hmem) fun _ hexecuted => .inl hexecuted

theorem tracked_step (h : Tracked p) (hstep : Step p label q) : Tracked q := by
  cases label with
  | addTimer timer when interval repeats clock => exact h.addTimer hstep
  | addTimerFrom timer when interval repeats => exact h.addTimerFrom hstep
  | cancel id => exact h.cancel hstep
  | cancelFrom id => exact h.cancelFrom hstep
  | queueInLoop c => exact h.queueInLoop hstep
  | runFunctor clock => exact h.runFunctor hstep
  | handleRead now =>
      obtain ⟨timers, hstep, rfl⟩ := hstep
      refine h.expiry hstep ?_
      cases outcome_of_step h.sound hstep
      rfl
  | runTimer =>
      obtain ⟨timers, hstep, rfl⟩ := hstep
      refine h.expiry hstep ?_
      cases outcome_of_step h.sound hstep
      rfl
  | reset clock =>
      obtain ⟨timers, hstep, rfl⟩ := hstep
      refine h.expiry hstep ?_
      cases outcome_of_step h.sound hstep
      rfl

end Steps

/-! ## The order of the calls -/

section Order

variable {p q : System} {label : Label}

/-- A call begins on the loop thread. -/
theorem Ordered.runNow (h : Ordered p) (ht : Tracked p) {request : Request}
    {timers : TimerSystem.System}
    (hturn : ∀ id, request = .cancel id → Executed p (.addTimer id)) :
    Ordered { p with
      timers := timers
      calls := p.calls.runNow (p.next request)
      begun := p.begun + 1 } := by
  intro c hmem id hrequest
  have hperm := (p.calls.line_runNow_perm (p.next request)).append_right p.starting
  rcases List.mem_cons.1 (hperm.subset hmem) with rfl | hold
  · obtain ⟨insertion, hexecuted, hinsertion⟩ := hturn id hrequest
    exact ⟨insertion, hinsertion, .runNow_self hexecuted⟩
  · obtain ⟨insertion, hinsertion, hbehind⟩ := h c hold id hrequest
    refine ⟨insertion, hinsertion, hbehind.runNow ?_⟩
    rintro rfl
    exact ht.numbered.not_mem (c := p.next request) le_rfl hold

/-- A call begins on another thread. -/
theorem Ordered.starting (h : Ordered p) (ht : Tracked p) {request : Request}
    {timers : TimerSystem.System} (hturn : ∀ id, request = .cancel id → Returned p id) :
    Ordered { p with
      timers := timers
      starting := p.next request :: p.starting
      begun := p.begun + 1 } := by
  intro c hmem id hrequest
  rcases List.mem_cons.1 (List.perm_middle.subset hmem) with rfl | hold
  · -- the insertion is in the line, which the new call joins later
    obtain ⟨insertion, hline, hinsertion⟩ := hturn id hrequest
    have hnew : p.next request ∉ p.calls.line := fun hmem =>
      ht.numbered.not_mem (c := p.next request) le_rfl (List.mem_append_left _ hmem)
    exact ⟨insertion, hinsertion, .of_not_mem hline hnew⟩
  · exact h c hold id hrequest

/-- A step in which no call begins. -/
theorem Ordered.congr (h : Ordered p) (hbegun : q.begunCalls.Perm p.begunCalls)
    (hbehind : ∀ x y, p.calls.Behind x y → q.calls.Behind x y) : Ordered q := by
  intro c hmem id hrequest
  obtain ⟨insertion, hinsertion, hold⟩ := h c (hbegun.subset hmem) id hrequest
  exact ⟨insertion, hinsertion, hbehind _ _ hold⟩

theorem ordered_step (h : Ordered p) (ht : Tracked p) (hstep : restrict Step InTurn p label q) :
    Ordered q := by
  obtain ⟨hstep, hturn⟩ := hstep
  cases label with
  | addTimer timer when interval repeats clock =>
      obtain ⟨timers, _, rfl⟩ := hstep
      exact h.runNow ht (by simp)
  | addTimerFrom timer when interval repeats =>
      obtain ⟨timers, _, rfl⟩ := hstep
      exact h.starting ht (by simp)
  | cancel id =>
      obtain ⟨_, timers, _, rfl⟩ := hstep
      refine h.runNow ht fun other hsame => ?_
      rw [← Request.cancel.inj hsame]
      exact hturn
  | cancelFrom id =>
      obtain ⟨hreturned, rfl⟩ := hstep
      refine h.starting ht fun other hsame => ?_
      rw [← Request.cancel.inj hsame]
      exact hreturned
  | queueInLoop c =>
      obtain ⟨hmem, rfl⟩ := hstep
      refine h.congr ?_ fun _ _ hbehind => hbehind.queue c
      simp only [System.begunCalls, Dispatch.line_queue, List.append_assoc, List.singleton_append]
      exact (List.perm_cons_erase hmem).symm.append_left _
  | runFunctor clock =>
      obtain ⟨_, c, rest, timers, _, _, rfl⟩ := hstep
      refine h.congr (.of_eq ?_) fun _ _ hbehind => hbehind.runNext
      simp only [System.begunCalls, Dispatch.line_runNext]
  | handleRead now =>
      obtain ⟨timers, _, rfl⟩ := hstep
      exact h
  | runTimer =>
      obtain ⟨timers, _, rfl⟩ := hstep
      exact h
  | reset clock =>
      obtain ⟨timers, _, rfl⟩ := hstep
      exact h

end Order

/-! ## Timers that have been cancelled -/

/-- The timers whose `cancel` has been executed are cancelled. -/
def AllCancelled (p : System) : Prop := ∀ id, Executed p (.cancel id) → Cancelled id p.timers

structure Kept (p : System) : Prop where
  tracked : Tracked p
  ordered : Ordered p
  cancelled : AllCancelled p

section Cancelled

variable {p q : System} {label : Label}

theorem AllCancelled.outcome (h : AllCancelled p) (ht : Tracked p)
    {timerLabel : TimerSystem.Label} (houtcome : Outcome p.timers timerLabel q.timers)
    (hexecuted : ∀ id, Executed q (.cancel id) →
      Executed p (.cancel id) ∨ Executed p (.addTimer id) ∧ timerLabel = .cancelInLoop id) :
    AllCancelled q := by
  intro id hid
  rcases hexecuted id hid with hold | ⟨hinserted, rfl⟩
  · exact (h id hold).outcome ht.sound houtcome
  · exact (ht.inserted id hinserted).cancel ht.sound houtcome

/-- A functor that cancels a timer runs after the one that inserts it. -/
theorem Kept.executed_insertion (h : Kept p) {c : Call} {rest : List Call} {id : TimerId}
    (hpending : p.calls.pending = c :: rest) (hrequest : c.request = .cancel id) :
    Executed p (.addTimer id) := by
  have hmem : c ∈ p.begunCalls := by
    simp [System.begunCalls, Dispatch.line, hpending]
  obtain ⟨insertion, hinsertion, hbehind⟩ := h.ordered c hmem id hrequest
  have hnext : (p.calls.runNext).executed = p.calls.executed ++ [c] := by
    rw [p.calls.runNext_of_pending hpending]
  have hnodup : p.calls.runNext.line.Nodup := by
    rw [Dispatch.line_runNext]
    exact h.tracked.numbered.nodup.of_append_left
  have horder : [insertion, c] <+ p.calls.executed ++ [c] :=
    hnext ▸ hbehind.runNext.executed hnodup (hnext ▸ List.mem_append_right _ (by simp))
  refine ⟨insertion, ?_, hinsertion⟩
  rcases List.mem_append.1 (horder.subset List.mem_cons_self) with hold | hself
  · exact hold
  · rw [List.mem_singleton.1 hself, hrequest] at hinsertion
    exact absurd hinsertion (by simp)

theorem allCancelled_step (h : Kept p) (hstep : restrict Step InTurn p label q) :
    AllCancelled q := by
  obtain ⟨hstep, hturn⟩ := hstep
  have hs := h.tracked.sound
  cases label with
  | addTimer timer when interval repeats clock =>
      obtain ⟨timers, hstep, rfl⟩ := hstep
      exact h.cancelled.outcome h.tracked (outcome_of_step hs hstep) fun id hid =>
        .inl ((executed_runNow hid).resolve_right (by simp))
  | addTimerFrom timer when interval repeats =>
      obtain ⟨timers, hstep, rfl⟩ := hstep
      exact h.cancelled.outcome h.tracked (outcome_of_step hs hstep) fun id hid => .inl hid
  | cancel id =>
      obtain ⟨_, timers, hstep, rfl⟩ := hstep
      refine h.cancelled.outcome h.tracked (outcome_of_step hs hstep) fun other hother => ?_
      rcases executed_runNow hother with hold | hnew
      · exact .inl hold
      · rw [← Request.cancel.inj hnew]
        exact .inr ⟨hturn, rfl⟩
  | cancelFrom id =>
      obtain ⟨_, rfl⟩ := hstep
      exact h.cancelled
  | queueInLoop c =>
      obtain ⟨_, rfl⟩ := hstep
      exact h.cancelled
  | runFunctor clock =>
      obtain ⟨_, c, rest, timers, hpending, hstep, rfl⟩ := hstep
      refine h.cancelled.outcome h.tracked (outcome_of_step hs hstep) fun id hid => ?_
      rcases executed_runNext hpending hid with hold | hnew
      · exact .inl hold
      · exact .inr ⟨h.executed_insertion hpending hnew, by simp [Call.functor, hnew]⟩
  | handleRead now =>
      obtain ⟨timers, hstep, rfl⟩ := hstep
      exact h.cancelled.outcome h.tracked (outcome_of_step hs hstep) fun id hid => .inl hid
  | runTimer =>
      obtain ⟨timers, hstep, rfl⟩ := hstep
      exact h.cancelled.outcome h.tracked (outcome_of_step hs hstep) fun id hid => .inl hid
  | reset clock =>
      obtain ⟨timers, hstep, rfl⟩ := hstep
      exact h.cancelled.outcome h.tracked (outcome_of_step hs hstep) fun id hid => .inl hid

theorem kept_step (h : Kept p) (hstep : restrict Step InTurn p label q) : Kept q :=
  ⟨tracked_step h.tracked hstep.1, ordered_step h.ordered h.tracked hstep,
    allCancelled_step h hstep⟩

end Cancelled

/-! ## Runs -/

section Runs

variable {p q : System} {labels : List Label} {id : TimerId}

theorem initial_kept : Kept {} where
  tracked :=
    { sound := initial_sound
      numbered := ⟨by simp [System.begunCalls, Dispatch.line],
        by simp [System.begunCalls, Dispatch.line]⟩
      waiting := .refl _
      adding := by simp [System.adding]
      inserted := by rintro id ⟨c, hmem, _⟩; simp at hmem }
  ordered := by simp [Ordered, System.begunCalls, Dispatch.line]
  cancelled := by rintro id ⟨c, hmem, _⟩; simp at hmem

theorem run_kept (hrun : Run (restrict Step InTurn) {} labels p) : Kept p :=
  hrun.invariant initial_kept fun _ _ _ => kept_step

end Runs

def insertion : Call := ⟨0, .addTimer ⟨16, 1⟩⟩

/-- Another thread has added a timer, whose functor is in the queue. -/
def queued : System where
  timers := { queue := ({} : TimerQueue).newTimer 16 1000 0 false, waiting := [16] }
  calls := { pending := [insertion] }
  begun := 1

theorem run_queued : Run (restrict Step InTurn) {}
    [.addTimerFrom 16 1000 0 false, .queueInLoop insertion] queued := by
  let called : System := { timers := queued.timers, starting := [insertion], begun := 1 }
  have hcalled : Step {} (.addTimerFrom 16 1000 0 false) called :=
    ⟨queued.timers, ⟨⟨rfl, by decide, by decide⟩, rfl⟩, rfl⟩
  have hqueued : Step called (.queueInLoop insertion) queued :=
    ⟨by simp [called], by simp [called, queued, Dispatch.queue]⟩
  have hrun : Run (restrict Step InTurn) {} [.addTimerFrom 16 1000 0 false] called :=
    Run.single ⟨hcalled, trivial⟩
  exact hrun.snoc ⟨hqueued, trivial⟩

end TimerRequests

end MuduoLite
