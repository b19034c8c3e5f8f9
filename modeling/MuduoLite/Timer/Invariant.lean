import MuduoLite.Library.Transition
import MuduoLite.Timer.Operations

/-!
# Every timer is in one place

A live timer is in the two sets, or a `handleRead` in progress holds it, or the
functor that will add it does: `Owned`.  Each step moves a timer from one of the
three places to another or deletes it, so pointers that are kept anywhere point
to the timer they were made for, even though addresses are used again.

`Accounted` compares the trace with the heap.  Sequences are never used again,
so "the same timer" means "the same sequence" in the trace.
-/

namespace MuduoLite

open Transition OrderedSet

namespace TimerQueue

open Function (update update_of_ne update_self)

/-- The sequences of the deleted timers. -/
def deletedSequences (trace : List Event) : List ℕ :=
  trace.filterMap fun
    | .deleted _ object _ _ => some object.sequence
    | _ => none

/-- The sequences of the timers that `addTimerInLoop` has inserted. -/
def addedSequences (trace : List Event) : List ℕ :=
  trace.filterMap fun
    | .added _ object => some object.sequence
    | _ => none

@[simp] theorem deletedSequences_append (first second : List Event) :
    deletedSequences (first ++ second) = deletedSequences first ++ deletedSequences second :=
  List.filterMap_append

@[simp] theorem addedSequences_append (first second : List Event) :
    addedSequences (first ++ second) = addedSequences first ++ addedSequences second :=
  List.filterMap_append

/-- The second event is not the run of a timer deleted by the first. -/
def NotStale (first second : Event) : Prop :=
  ∀ timer object inTimers inActiveTimers, first = .deleted timer object inTimers inActiveTimers →
    ∀ timer' object', second = .ran timer' object' → object'.sequence ≠ object.sequence

/-- A timer that is deleted after `past` has left `timers_`, and it is still in
`activeTimers_` only where it is being cancelled: `cancelInLoop` has just been called. -/
def DeletedOutside (past : List Event) : Event → Prop
  | .deleted timer object inTimers inActiveTimers => inTimers = false ∧
      (inActiveTimers = true → past.getLast? = some (.cancelled ⟨timer, object.sequence⟩))
  | _ => True

/-- So it is with every event of the trace, after those before it. -/
def DeletesOutside (trace : List Event) : Prop :=
  ∀ past event rest, trace = past ++ event :: rest → DeletedOutside past event

/-- The trace accounts for the timers of the heap; `waiting` are not added yet. -/
structure Accounted (heap : ℕ → Option Timer) (numCreated : ℕ) (trace : List Event)
    (waiting : List ℕ) : Prop where
  deleted_le : ∀ sequence ∈ deletedSequences trace, sequence ≤ numCreated
  deleted_dead : ∀ timer object, heap timer = some object →
    object.sequence ∉ deletedSequences trace
  deleted_once : (deletedSequences trace).Nodup
  added_kept : ∀ sequence ∈ addedSequences trace, sequence ∈ deletedSequences trace ∨
    ∃ timer object, heap timer = some object ∧ object.sequence = sequence ∧ timer ∉ waiting
  deleted_outside : DeletesOutside trace
  not_stale : trace.Pairwise NotStale

/-- Every live timer is in the two sets, held by a `handleRead`, or waiting. -/
structure Owned (q : TimerQueue) (held : List (ℕ × Timer)) (waiting : List ℕ) : Prop where
  holds : Holds q held
  waiting_live : ∀ timer ∈ waiting, ∃ object, q.heap timer = some object
  waiting_loose : ∀ timer ∈ waiting, q.Loose timer
  waiting_nodup : waiting.Nodup
  disjoint : ∀ member ∈ held, member.1 ∉ waiting
  covered : ∀ timer object, q.heap timer = some object →
    (timer, object.sequence) ∈ q.activeTimers ∨ (timer, object) ∈ held ∨ timer ∈ waiting

/-- The invariant of the queue, with the timers that are out of its sets. -/
structure Intact (q : TimerQueue) (held : List (ℕ × Timer)) (waiting : List ℕ) : Prop where
  consistent : Consistent q
  allocated : Allocated q
  owned : Owned q held waiting
  accounted : Accounted q.heap q.numCreated q.trace waiting

/-! ## The trace -/

section Accounted

variable {heap : ℕ → Option Timer} {numCreated : ℕ} {trace : List Event} {waiting : List ℕ}
  {timer : ℕ} {object : Timer}

theorem DeletesOutside.append {event : Event} (h : DeletesOutside trace)
    (hevent : DeletedOutside trace event) : DeletesOutside (trace ++ [event]) := by
  intro past other rest heq
  rcases rest.eq_nil_or_concat with rfl | ⟨before, last, rfl⟩
  · obtain ⟨rfl, hlast⟩ := List.append_inj' heq rfl
    rwa [← List.singleton_inj.1 hlast]
  · rw [List.concat_eq_append, ← List.cons_append, ← List.append_assoc] at heq
    exact h past other before (List.append_inj' heq rfl).1

theorem notStale_append {event : Event} (h : trace.Pairwise NotStale)
    (hevent : ∀ timer object, event = .ran timer object →
      object.sequence ∉ deletedSequences trace) : (trace ++ [event]).Pairwise NotStale := by
  refine List.pairwise_append.2 ⟨h, List.pairwise_singleton _ _, ?_⟩
  intro first hfirst second hsecond timer object inTimers inActiveTimers heq timer' object' hran
  obtain rfl := List.mem_singleton.1 hsecond
  intro hsequence
  refine hevent timer' object' hran (List.mem_filterMap.2 ⟨first, hfirst, ?_⟩)
  rw [heq, hsequence]

/-- Events that neither add nor delete a timer, nor run a deleted one. -/
theorem Accounted.emit (h : Accounted heap numCreated trace waiting) (event : Event)
    (hdeleted : deletedSequences [event] = []) (hadded : addedSequences [event] = [])
    (hran : ∀ timer object, event = .ran timer object →
      object.sequence ∉ deletedSequences trace) :
    Accounted heap numCreated (trace ++ [event]) waiting := by
  have houtside : DeletedOutside trace event := by
    cases event with
    | deleted timer object inTimers inActiveTimers => simp [deletedSequences] at hdeleted
    | _ => exact trivial
  refine ⟨?_, ?_, ?_, ?_, .append h.deleted_outside houtside, notStale_append h.not_stale hran⟩ <;>
    simp only [deletedSequences_append, addedSequences_append, hdeleted, hadded, List.append_nil]
  · exact h.deleted_le
  · exact h.deleted_dead
  · exact h.deleted_once
  · exact h.added_kept

theorem Accounted.newTimer (h : Accounted heap numCreated trace waiting) (hfree : heap timer = none)
    (hsequence : object.sequence = numCreated + 1) :
    Accounted (update heap timer (some object)) (numCreated + 1) trace (timer :: waiting) where
  deleted_le := fun sequence hmem => (h.deleted_le sequence hmem).trans (Nat.le_succ _)
  deleted_dead := by
    intro timer' object' hheap hmem
    by_cases heq : timer' = timer
    · subst heq
      rw [update_self, Option.some.injEq] at hheap
      have hle := h.deleted_le _ hmem
      rw [← hheap, hsequence] at hle
      omega
    · rw [update_of_ne heq] at hheap
      exact h.deleted_dead timer' object' hheap hmem
  deleted_once := h.deleted_once
  added_kept := by
    intro sequence hmem
    refine (h.added_kept sequence hmem).imp id ?_
    rintro ⟨timer', object', hheap, heq, hwaiting⟩
    have hne : timer' ≠ timer := by
      rintro rfl
      simp [hfree] at hheap
    exact ⟨timer', object', (update_of_ne hne _ _).trans hheap, heq, by simp [hne, hwaiting]⟩
  deleted_outside := h.deleted_outside
  not_stale := h.not_stale

theorem Accounted.add (h : Accounted heap numCreated trace waiting)
    (hheap : heap timer = some object) (hnodup : waiting.Nodup) :
    Accounted heap numCreated (trace ++ [.added timer object]) (waiting.erase timer) := by
  have hdeleted : deletedSequences (trace ++ [.added timer object]) = deletedSequences trace := by
    simp [deletedSequences]
  refine ⟨?_, ?_, ?_, ?_, .append h.deleted_outside trivial,
    notStale_append h.not_stale fun _ _ heq => by cases heq⟩ <;> rw [hdeleted]
  · exact h.deleted_le
  · exact h.deleted_dead
  · exact h.deleted_once
  · intro sequence hmem
    rw [addedSequences_append, List.mem_append] at hmem
    rcases hmem with hold | hnew
    · refine (h.added_kept sequence hold).imp id ?_
      rintro ⟨timer', object', hheap', heq, hwaiting⟩
      exact ⟨timer', object', hheap', heq, fun hmem => hwaiting (List.mem_of_mem_erase hmem)⟩
    · obtain rfl : sequence = object.sequence := by simpa [addedSequences] using hnew
      exact .inr ⟨timer, object, hheap, rfl, hnodup.not_mem_erase⟩

theorem Accounted.delete (h : Accounted heap numCreated trace waiting)
    (hheap : heap timer = some object) (hle : object.sequence ≤ numCreated)
    (hinj : ∀ timer' object', heap timer' = some object' →
      object'.sequence = object.sequence → timer' = timer) (inActiveTimers : Bool)
    (hcancelled : inActiveTimers = true →
      trace.getLast? = some (.cancelled ⟨timer, object.sequence⟩)) :
    Accounted (update heap timer none) numCreated
      (trace ++ [.deleted timer object false inActiveTimers]) waiting := by
  have hdeleted : deletedSequences (trace ++ [.deleted timer object false inActiveTimers]) =
      deletedSequences trace ++ [object.sequence] := deletedSequences_append _ _
  have hadded : addedSequences (trace ++ [.deleted timer object false inActiveTimers]) =
      addedSequences trace := by simp [addedSequences]
  refine ⟨?_, ?_, ?_, ?_, .append h.deleted_outside ⟨rfl, hcancelled⟩,
    notStale_append h.not_stale fun _ _ heq => by cases heq⟩
  · rw [hdeleted]
    intro sequence hmem
    rcases List.mem_append.1 hmem with hold | hnew
    · exact h.deleted_le sequence hold
    · rw [List.mem_singleton.1 hnew]
      exact hle
  · rw [hdeleted]
    intro timer' object' hheap' hmem
    have hne : timer' ≠ timer := by
      rintro rfl
      simp at hheap'
    rw [update_of_ne hne] at hheap'
    rcases List.mem_append.1 hmem with hold | hnew
    · exact h.deleted_dead timer' object' hheap' hold
    · exact hne (hinj timer' object' hheap' (List.mem_singleton.1 hnew))
  · rw [hdeleted]
    refine List.nodup_append.2 ⟨h.deleted_once, List.nodup_singleton _, ?_⟩
    rintro sequence hold _ hnew rfl
    rw [List.mem_singleton.1 hnew] at hold
    exact h.deleted_dead timer object hheap hold
  · rw [hdeleted, hadded]
    intro sequence hmem
    rcases h.added_kept sequence hmem with hold | ⟨timer', object', hheap', heq, hwaiting⟩
    · exact .inl (List.mem_append_left _ hold)
    -- what was kept is the deleted timer or another one
    · by_cases hsame : timer' = timer
      · subst hsame
        obtain rfl : object' = object := Option.some.inj (hheap'.symm.trans hheap)
        exact .inl (List.mem_append_right _ (by simp [heq]))
      · exact .inr ⟨timer', object', (update_of_ne hsame _ _).trans hheap', heq, hwaiting⟩

/-- A restarted timer keeps its sequence. -/
theorem Accounted.restart (h : Accounted heap numCreated trace waiting)
    (hheap : heap timer = some object) {object' : Timer}
    (hsequence : object'.sequence = object.sequence) :
    Accounted (update heap timer (some object')) numCreated trace waiting := by
  refine ⟨h.deleted_le, ?_, h.deleted_once, ?_, h.deleted_outside, h.not_stale⟩
  · intro timer' other hother
    by_cases hsame : timer' = timer
    · subst hsame
      rw [update_self, Option.some.injEq] at hother
      rw [← hother, hsequence]
      exact h.deleted_dead timer' object hheap
    · rw [update_of_ne hsame] at hother
      exact h.deleted_dead timer' other hother
  · intro sequence hmem
    refine (h.added_kept sequence hmem).imp id ?_
    rintro ⟨timer', other, hother, heq, hwaiting⟩
    by_cases hsame : timer' = timer
    · subst hsame
      obtain rfl : other = object := Option.some.inj (hother.symm.trans hheap)
      exact ⟨timer', object', update_self _ _ _, hsequence.trans heq, hwaiting⟩
    · exact ⟨timer', other, (update_of_ne hsame _ _).trans hother, heq, hwaiting⟩

end Accounted

/-! ## Addresses and sequences -/

section Allocated

variable {q q' : TimerQueue} {timer : ℕ} {object : Timer}

theorem Allocated.newTimer (h : Allocated q) (hrange : timer < UINTPTR_MAX) (when : ℤ)
    (interval : ℕ) (repeats : Bool) : Allocated (q.newTimer timer when interval repeats) := by
  -- the sequence of the new timer is greater than all others
  have hfresh : ∀ other object, q.heap other = some object →
      object.sequence ≠ q.numCreated + 1 := by
    intro other object hheap
    have hle := h.sequence_le other object hheap
    omega
  refine ⟨?_, ?_, ?_⟩ <;> simp only [TimerQueue.newTimer, Function.update_apply]
  · intro other object hheap
    split_ifs at hheap with hsame
    · exact hsame ▸ hrange
    · exact h.in_range other object hheap
  · intro other object hheap
    split_ifs at hheap with hsame
    · rw [← Option.some.inj hheap]
    · exact (h.sequence_le other object hheap).trans (Nat.le_succ _)
  · intro first firstObject second secondObject hfirst hsecond hsequence
    split_ifs at hfirst hsecond with hf hs hs
    · rw [hf, hs]
    · obtain rfl := Option.some.inj hfirst
      exact absurd hsequence.symm (hfresh second secondObject hsecond)
    · obtain rfl := Option.some.inj hsecond
      exact absurd hsequence (hfresh first firstObject hfirst)
    · exact h.sequence_inj _ _ _ _ hfirst hsecond hsequence

/-- Nothing is allocated, and no timer that stays changes its sequence. -/
theorem Allocated.of_heap (h : Allocated q) (hcreated : q'.numCreated = q.numCreated)
    (hheap : ∀ timer object, q'.heap timer = some object →
      ∃ before, q.heap timer = some before ∧ before.sequence = object.sequence) :
    Allocated q' := by
  refine ⟨fun timer object hnow => ?_, fun timer object hnow => ?_, ?_⟩
  · obtain ⟨before, hbefore, -⟩ := hheap timer object hnow
    exact h.in_range timer before hbefore
  · obtain ⟨before, hbefore, heq⟩ := hheap timer object hnow
    rw [← heq, hcreated]
    exact h.sequence_le timer before hbefore
  · intro first firstObject second secondObject hfirst hsecond hsequence
    obtain ⟨firstBefore, hfirst', hfirst_eq⟩ := hheap first firstObject hfirst
    obtain ⟨secondBefore, hsecond', hsecond_eq⟩ := hheap second secondObject hsecond
    exact h.sequence_inj _ _ _ _ hfirst' hsecond' (by rw [hfirst_eq, hsequence, hsecond_eq])

theorem Allocated.delete (h : Allocated q) (hcreated : q'.numCreated = q.numCreated)
    (hdeleted : q'.heap = update q.heap timer none) : Allocated q' := by
  refine h.of_heap hcreated fun other object hnow => ⟨object, ?_, rfl⟩
  rw [hdeleted, Function.update_apply] at hnow
  split_ifs at hnow
  exact hnow

/-- A restarted timer keeps its sequence. -/
theorem Allocated.restart (h : Allocated q) (hheap : q.heap timer = some object)
    (hcreated : q'.numCreated = q.numCreated) {object' : Timer}
    (hrestarted : q'.heap = update q.heap timer (some object'))
    (hsequence : object'.sequence = object.sequence) : Allocated q' := by
  refine h.of_heap hcreated fun other after hnow => ?_
  rw [hrestarted, Function.update_apply] at hnow
  split_ifs at hnow with hsame
  · exact ⟨object, hsame ▸ hheap, by rw [← Option.some.inj hnow, hsequence]⟩
  · exact ⟨after, hnow, rfl⟩

end Allocated

/-! ## The owners -/

section Intact

variable {q : TimerQueue} {held rest : List (ℕ × Timer)} {member : ℕ × Timer} {waiting : List ℕ}
  {timer : ℕ} {object : Timer}

/-- The flags of the queue and its timerfd do not matter. -/
theorem Intact.congr {q' : TimerQueue} (h : Intact q held waiting) (htimers : q'.timers = q.timers)
    (hactive : q'.activeTimers = q.activeTimers) (hheap : q'.heap = q.heap)
    (hcreated : q'.numCreated = q.numCreated) (htrace : q'.trace = q.trace) :
    Intact q' held waiting := by
  obtain ⟨hconsistent, ⟨hrange, hle, hinj⟩, ⟨⟨hlive, hloose, hheld⟩, hwaiting_live, hwaiting_loose,
    hnodup, hdisjoint, hcovered⟩, haccounted⟩ := h
  refine ⟨hconsistent.congr htimers hactive hheap, ⟨?_, ?_, ?_⟩,
    ⟨⟨?_, ?_, hheld⟩, ?_, ?_, hnodup, hdisjoint, ?_⟩, ?_⟩ <;>
    simp only [Loose, hactive, hheap, hcreated, htrace]
  all_goals assumption

theorem Intact.emit (h : Intact q held waiting) (event : Event)
    (hdeleted : deletedSequences [event] = []) (hadded : addedSequences [event] = [])
    (hran : ∀ timer object, event = .ran timer object →
      object.sequence ∉ deletedSequences q.trace) : Intact (q.emit event) held waiting where
  consistent := h.consistent.congr rfl rfl rfl
  allocated := ⟨h.allocated.in_range, h.allocated.sequence_le, h.allocated.sequence_inj⟩
  owned := ⟨⟨h.owned.holds.live, h.owned.holds.loose, h.owned.holds.nodup⟩, h.owned.waiting_live,
    h.owned.waiting_loose, h.owned.waiting_nodup, h.owned.disjoint, h.owned.covered⟩
  accounted := h.accounted.emit event hdeleted hadded hran

theorem Intact.resetTimerfd (h : Intact q held waiting) (expiration now : ℤ) :
    Intact (q.resetTimerfd expiration now) held waiting := by
  have hset : Intact { q with armedFor := some expiration } held waiting :=
    h.congr rfl rfl rfl rfl rfl
  exact hset.emit _ rfl rfl fun _ _ heq => by cases heq

theorem Intact.held_live (h : Intact q held waiting) (hmem : member ∈ held) :
    q.heap member.1 = some member.2 := h.owned.holds.live member hmem

/-- Nothing points to a free address. -/
theorem Intact.loose_of_free (h : Intact q held waiting) (hfree : q.heap timer = none) :
    q.Loose timer := by
  intro active hactive heq
  obtain ⟨object, hheap, _⟩ := h.consistent.active_entry active hactive
  simp [heq, hfree] at hheap

theorem Intact.newTimer (h : Intact q held waiting) (hfree : q.heap timer = none)
    (hrange : timer < UINTPTR_MAX) (when : ℤ) (interval : ℕ) (repeats : Bool) :
    Intact (q.newTimer timer when interval repeats) held (timer :: waiting) := by
  have hloose := h.loose_of_free hfree
  have hne : ∀ other object, q.heap other = some object → other ≠ timer := by
    rintro other object hheap rfl
    simp [hfree] at hheap
  refine ⟨(h.consistent.updateHeap hloose _).congr rfl rfl rfl,
    h.allocated.newTimer hrange when interval repeats,
    ⟨⟨?_, h.owned.holds.loose, h.owned.holds.nodup⟩, ?_, ?_, ?_, ?_, ?_⟩,
    h.accounted.newTimer hfree rfl⟩
  · intro member hmember
    have hlive := h.held_live hmember
    exact (update_of_ne (hne _ _ hlive) _ _).trans hlive
  · intro other hother
    by_cases hsame : other = timer
    · subst hsame
      exact ⟨_, update_self _ _ _⟩
    · obtain ⟨object, hheap⟩ :=
        h.owned.waiting_live other ((List.mem_cons.1 hother).resolve_left hsame)
      exact ⟨object, (update_of_ne hsame _ _).trans hheap⟩
  · intro other hother
    rcases List.mem_cons.1 hother with rfl | hold
    · exact hloose
    · exact h.owned.waiting_loose other hold
  · refine List.nodup_cons.2 ⟨fun hmem => ?_, h.owned.waiting_nodup⟩
    obtain ⟨object, hheap⟩ := h.owned.waiting_live timer hmem
    exact hne timer object hheap rfl
  · intro member hmember hmem
    rcases List.mem_cons.1 hmem with heq | hold
    · exact hne _ _ (h.held_live hmember) heq
    · exact h.owned.disjoint member hmember hold
  · intro other object hheap
    by_cases hsame : other = timer
    · exact .inr (.inr (hsame ▸ List.mem_cons_self))
    · have hold := (update_of_ne hsame _ _).symm.trans hheap
      refine (h.owned.covered other object hold).imp id (.imp id ?_)
      exact List.mem_cons_of_mem _

theorem loose_inserted (hloose : q.Loose timer) {other : ℕ} (hne : timer ≠ other) :
    (q.inserted other object).Loose timer := by
  intro active hactive
  rcases Finset.mem_insert.1 hactive with rfl | hold
  · exact hne.symm
  · exact hloose active hold

/-- A waiting timer moves to the sets. -/
theorem Intact.addTimer (h : Intact q held waiting) (hmem : timer ∈ waiting)
    (hheap : q.heap timer = some object) (now : ℤ) :
    Intact (q.timerAdded timer object now) held (waiting.erase timer) := by
  have hadded : Intact ((q.inserted timer object).emit (.added timer object)) held
      (waiting.erase timer) := by
    refine ⟨(consistent_inserted h.consistent hheap).congr rfl rfl rfl, ⟨h.allocated.in_range,
      h.allocated.sequence_le, h.allocated.sequence_inj⟩, ⟨⟨h.owned.holds.live, ?_,
      h.owned.holds.nodup⟩, ?_, ?_, h.owned.waiting_nodup.erase _, ?_, ?_⟩,
      h.accounted.add hheap h.owned.waiting_nodup⟩
    · intro member hmember
      refine loose_inserted (h.owned.holds.loose member hmember) fun heq => ?_
      exact h.owned.disjoint member hmember (heq ▸ hmem)
    · exact fun other hother => h.owned.waiting_live other (List.mem_of_mem_erase hother)
    · intro other hother
      obtain ⟨hne, hold⟩ := (h.owned.waiting_nodup.mem_erase_iff).1 hother
      exact loose_inserted (h.owned.waiting_loose other hold) hne
    · exact fun member hmember hother =>
        h.owned.disjoint member hmember (List.mem_of_mem_erase hother)
    · intro other otherObject hother
      by_cases hsame : other = timer
      · subst hsame
        obtain rfl : otherObject = object := Option.some.inj (hother.symm.trans hheap)
        exact .inl (Finset.mem_insert_self _ _)
      · refine (h.owned.covered other otherObject hother).imp Finset.mem_insert_of_mem (.imp id ?_)
        exact fun hold => (List.mem_erase_of_ne hsame).2 hold
  unfold timerAdded
  dsimp only
  split_ifs
  · exact hadded.resetTimerfd _ _
  · exact hadded

theorem Intact.cancelActive (h : Intact q held waiting) {id : TimerId}
    (hheap : q.heap id.timer = some object) (hsequence : object.sequence = id.sequence)
    (hactive : (id.timer, id.sequence) ∈ q.activeTimers) :
    Intact (q.activeCancelled id object) held waiting := by
  have hlooseMono : ∀ other, q.Loose other → (q.activeCancelled id object).Loose other :=
    fun other hloose active hmem => hloose active (Finset.mem_of_mem_erase hmem)
  have hne : ∀ other, q.Loose other → other ≠ id.timer :=
    fun other hloose heq => hloose _ hactive heq.symm
  have hcancelled := h.accounted.emit (.cancelled id) rfl rfl fun _ _ heq => by cases heq
  have haccounted := hcancelled.delete hheap (h.allocated.sequence_le _ _ hheap)
    (fun timer' object' hheap' heq => h.allocated.sequence_inj _ _ _ _ hheap' hheap heq)
    true (fun _ => by simp [hsequence])
  rw [List.append_assoc] at haccounted
  refine ⟨consistent_activeCancelled h.consistent hheap hsequence, h.allocated.delete rfl rfl,
    ⟨⟨?_, ?_, h.owned.holds.nodup⟩, ?_, ?_, h.owned.waiting_nodup, h.owned.disjoint, ?_⟩,
    haccounted⟩
  all_goals simp only [activeCancelled, Function.update_apply]
  · intro member hmember
    rw [if_neg (hne _ (h.owned.holds.loose member hmember))]
    exact h.held_live hmember
  · exact fun member hmember => hlooseMono _ (h.owned.holds.loose member hmember)
  · intro other hother
    rw [if_neg (hne _ (h.owned.waiting_loose other hother))]
    exact h.owned.waiting_live other hother
  · exact fun other hother => hlooseMono _ (h.owned.waiting_loose other hother)
  · intro other otherObject hother
    split_ifs at hother with hsame
    refine (h.owned.covered other otherObject hother).imp_left fun hmem => ?_
    exact Finset.mem_erase.2 ⟨fun heq => hsame (congrArg Prod.fst heq), hmem⟩

theorem Intact.cancelAbsent (h : Intact q held waiting) (id : TimerId) :
    Intact (q.absentCancelled id) held waiting :=
  (h.emit (.cancelled id) rfl rfl fun _ _ heq => by cases heq).congr rfl rfl rfl rfl rfl

/-- The timers behind the entries that `getExpired` returns. -/
def members (q : TimerQueue) (now : ℤ) : List (ℕ × Timer) :=
  (q.due now).filterMap fun it => (q.heap it.timer).map (it.timer, ·)

theorem mem_members (h : Consistent q) (ha : Allocated q) {now : ℤ} :
    (timer, object) ∈ q.members now ↔ q.Pending timer object ∧ object.expiration ≤ now := by
  simp only [members, List.mem_filterMap, Option.map_eq_some_iff, Prod.mk.injEq]
  constructor
  · rintro ⟨entry, hentry, other, hother, rfl, rfl⟩
    obtain ⟨hmem, hle⟩ := (mem_due h ha).1 hentry
    obtain ⟨other', hpending, hexpiration⟩ := h.pending_of_entry hmem
    obtain rfl : other' = other := Option.some.inj (hpending.1.symm.trans hother)
    exact ⟨hpending, hexpiration ▸ hle⟩
  · rintro ⟨hpending, hle⟩
    exact ⟨_, (mem_due h ha).2 ⟨hpending.entry_mem h, hle⟩, object, hpending.1, rfl, rfl⟩

/-- The entries in `expired` are those of the timers taken out. -/
theorem members_map_entryOf (h : Consistent q) (ha : Allocated q) (now : ℤ) :
    (q.members now).map entryOf = q.due now := by
  have hpoint : ∀ entry ∈ q.due now,
      ((q.heap entry.timer).map (entry.timer, ·)).map entryOf = some entry := by
    intro entry hentry
    obtain ⟨object, hheap, hexpiration, _⟩ := h.entry_active entry ((mem_due h ha).1 hentry).1
    simp [hheap, entryOf, hexpiration]
  rw [members, List.map_filterMap]
  conv_rhs => rw [← List.filterMap_some (l := q.due now)]
  exact List.filterMap_congr hpoint

theorem members_map_fst (h : Consistent q) (ha : Allocated q) (now : ℤ) :
    (q.members now).map Prod.fst = (q.due now).map Entry.timer := by
  rw [← members_map_entryOf h ha, List.map_map]
  rfl

theorem Intact.readTaken (h : Intact q [] waiting) (now : ℤ) :
    Intact (q.readTaken now) (q.members now) waiting := by
  have hmembers {timer : ℕ} {object : Timer} : (timer, object) ∈ q.members now ↔
      q.Pending timer object ∧ object.expiration ≤ now := mem_members h.consistent h.allocated
  have hfst := members_map_fst h.consistent h.allocated now
  have htaken : Intact (q.taken now) (q.members now) waiting := by
    refine ⟨consistent_taken h.consistent h.allocated now, ⟨h.allocated.in_range,
      h.allocated.sequence_le, h.allocated.sequence_inj⟩, ⟨⟨?_, ?_, ?_⟩, h.owned.waiting_live, ?_,
      h.owned.waiting_nodup, ?_, ?_⟩, h.accounted⟩
    · exact fun member hmember => (hmembers.1 hmember).1.1
    · intro member hmember active hactive heq
      refine (Finset.mem_filter.1 hactive).2 ?_
      rw [← hfst, heq]
      exact List.mem_map_of_mem hmember
    · rw [hfst]
      exact due_nodup h.consistent now
    · exact fun other hother active hactive =>
        h.owned.waiting_loose other hother active (Finset.mem_filter.1 hactive).1
    · intro member hmember hmem
      exact h.owned.waiting_loose _ hmem _ (hmembers.1 hmember).1.2 rfl
    · intro other object hheap
      rcases h.owned.covered other object hheap with hactive | hheld | hwaiting
      · by_cases hdue : other ∈ (q.due now).map Entry.timer
        · rw [← hfst] at hdue
          obtain ⟨member, hmember, rfl⟩ := List.mem_map.1 hdue
          have hsame := (hmembers.1 hmember).1.1.symm.trans hheap
          rw [← Option.some.inj hsame]
          exact .inr (.inl hmember)
        · exact .inl (Finset.mem_filter.2 ⟨hactive, hdue⟩)
      · simp at hheld
      · exact .inr (.inr hwaiting)
  exact (htaken.emit (.readTimerfd now) rfl rfl fun _ _ heq => by cases heq).congr
    rfl rfl rfl rfl rfl

/-- A held timer moves back to the sets or is deleted. -/
theorem Intact.resetMember (h : Intact q (member :: rest) waiting) (now : ℤ) :
    Intact (q.resetMember now member) rest waiting := by
  have hheap := h.held_live List.mem_cons_self
  have hloose := h.owned.holds.loose member List.mem_cons_self
  have hnot : member.1 ∉ waiting := h.owned.disjoint member List.mem_cons_self
  have hrest : Holds (q.resetMember now member) rest := holds_resetMember h.owned.holds
  have hconsistent : Consistent (q.resetMember now member) :=
    consistent_resetMember h.consistent hloose
  have hne : ∀ other ∈ waiting, other ≠ member.1 := fun other hother heq => hnot (heq ▸ hother)
  have hdisjoint : ∀ other ∈ rest, other.1 ∉ waiting :=
    fun other hother => h.owned.disjoint other (List.mem_cons_of_mem _ hother)
  have hcovered : ∀ other object, other ≠ member.1 → q.heap other = some object →
      (other, object.sequence) ∈ q.activeTimers ∨ (other, object) ∈ rest ∨ other ∈ waiting := by
    intro other object hother hheap'
    refine (h.owned.covered other object hheap').imp_right (.imp_left fun hmem => ?_)
    exact (List.mem_cons.1 hmem).resolve_left fun heq => hother (congrArg Prod.fst heq)
  unfold TimerQueue.resetMember at hrest hconsistent ⊢
  split_ifs at hrest hconsistent ⊢
  -- it repeats and goes back into both sets
  · refine ⟨hconsistent, h.allocated.restart hheap rfl rfl rfl,
      ⟨hrest, ?_, ?_, h.owned.waiting_nodup, hdisjoint, ?_⟩, h.accounted.restart hheap rfl⟩
    all_goals simp only [inserted, Function.update_apply]
    · intro other hother
      rw [if_neg (hne other hother)]
      exact h.owned.waiting_live other hother
    · intro other hother
      exact loose_inserted (q := { q with
        heap := update q.heap member.1 (some (restarted member.2 now)) })
        (h.owned.waiting_loose other hother) (hne other hother)
    · intro other object hother
      split_ifs at hother with hsame
      · rw [hsame, ← Option.some.inj hother]
        exact .inl (Finset.mem_insert_self _ _)
      · exact (hcovered other object hsame hother).imp_left Finset.mem_insert_of_mem
  -- it is deleted, nothing points to it any more
  · refine ⟨hconsistent, h.allocated.delete rfl rfl, ⟨hrest, ?_, h.owned.waiting_loose,
      h.owned.waiting_nodup, hdisjoint, ?_⟩, h.accounted.delete hheap
        (h.allocated.sequence_le _ _ hheap)
        (fun _ _ hheap' heq => h.allocated.sequence_inj _ _ _ _ hheap' hheap heq) false (by simp)⟩
    all_goals simp only [looseDeleted, TimerQueue.emit, Function.update_apply]
    · intro other hother
      rw [if_neg (hne other hother)]
      exact h.owned.waiting_live other hother
    · intro other object hother
      split_ifs at hother with hsame
      exact hcovered other object hsame hother

theorem Intact.rearmed (h : Intact q held waiting) (clock : ℤ) :
    Intact (q.rearmed clock) held waiting := by
  unfold TimerQueue.rearmed
  split
  · exact h
  · split_ifs
    · exact h.resetTimerfd _ _
    · exact h

end Intact

end TimerQueue

/-! ## Steps -/

namespace TimerSystem

open TimerQueue

/-- The timers that the `handleRead` in progress holds. -/
def System.held (s : System) : List (ℕ × Timer) :=
  match s.batch with
  | none => []
  | some b => b.members

structure Sound (s : System) : Prop where
  intact : Intact s.queue s.held s.waiting
  calling : s.queue.callingExpiredTimers = s.batch.isSome
  expired : ∀ b, s.batch = some b → b.expired = b.members.map entryOf ∧ b.todo <:+ b.expired

/-- What each step can do to a sound system. -/
inductive Outcome (s : System) : Label → System → Prop
  | newTimer (timer : ℕ) (when : ℤ) (interval : ℕ) (repeats : Bool)
      (hfree : s.queue.heap timer = none) (hrange : timer < UINTPTR_MAX) :
      Outcome s (.newTimer timer when interval repeats)
        { s with
          queue := s.queue.newTimer timer when interval repeats
          waiting := timer :: s.waiting }
  | addTimerInLoop (timer : ℕ) (clock : ℤ) (object : Timer) (hidle : s.batch = none)
      (hwaiting : timer ∈ s.waiting) (hheap : s.queue.heap timer = some object) :
      Outcome s (.addTimerInLoop timer clock)
        { s with
          queue := s.queue.timerAdded timer object clock
          waiting := s.waiting.erase timer }
  | addTimer (timer : ℕ) (when : ℤ) (interval : ℕ) (repeats : Bool) (clock : ℤ)
      (hfree : s.queue.heap timer = none) (hrange : timer < UINTPTR_MAX) :
      Outcome s (.addTimer timer when interval repeats clock)
        { s with
          queue := (s.queue.newTimer timer when interval repeats).timerAdded timer
            ⟨when, interval, repeats, s.queue.numCreated + 1⟩ clock }
  | cancelActive (id : TimerId) (object : Timer) (hpending : s.queue.Pending id.timer object)
      (hsequence : object.sequence = id.sequence) :
      Outcome s (.cancelInLoop id) { s with queue := s.queue.activeCancelled id object }
  | cancelAbsent (id : TimerId) (habsent : (id.timer, id.sequence) ∉ s.queue.activeTimers)
      (hissued : id.sequence ≤ s.queue.numCreated) :
      Outcome s (.cancelInLoop id) { s with queue := s.queue.absentCancelled id }
  | handleRead (now : ℤ) (hidle : s.batch = none) :
      Outcome s (.handleRead now)
        { s with
          queue := s.queue.readTaken now
          batch := some ⟨now, s.queue.due now, s.queue.due now, s.queue.members now⟩ }
  | runTimer (b : Batch) (member : ℕ × Timer) (rest : List Entry) (hbatch : s.batch = some b)
      (htodo : b.todo = entryOf member :: rest) (hmember : member ∈ b.members) :
      Outcome s .runTimer
        { s with
          queue := s.queue.emit (.ran member.1 member.2)
          batch := some { b with todo := rest } }
  | reset (clock : ℤ) (b : Batch) (hbatch : s.batch = some b) (htodo : b.todo = []) :
      Outcome s (.reset clock)
        { s with
          queue := ({ s.queue with callingExpiredTimers := false }.resetMembers b.now
            b.members).rearmed clock
          batch := none }

section Step

variable {s t : System} {label : Label}

theorem System.held_eq {b : Batch} (h : s.batch = some b) : s.held = b.members := by
  simp [System.held, h]

/-- No step of a sound system fails. -/
theorem exec_outcome (h : Sound s) (henabled : Enabled s label) :
    ∃ t, exec s label = some t ∧ Outcome s label t := by
  obtain ⟨hconsistent, hallocated, howned, _⟩ := h.intact
  cases label with
  | newTimer timer when interval repeats =>
      exact ⟨_, rfl, .newTimer timer when interval repeats henabled.1 henabled.2.2⟩
  | addTimerInLoop timer clock =>
      obtain ⟨hidle, hwaiting⟩ := henabled
      obtain ⟨object, hheap⟩ := howned.waiting_live timer hwaiting
      have hadd := addTimerInLoop_eq hconsistent hheap (howned.waiting_loose timer hwaiting) clock
      exact ⟨_, by simp [exec, hadd], .addTimerInLoop timer clock object hidle hwaiting hheap⟩
  | addTimer timer when interval repeats clock =>
      obtain ⟨hfree, _, hrange⟩ := henabled
      have hintact := h.intact.newTimer hfree hrange when interval repeats
      have hadd := addTimerInLoop_eq hintact.consistent (Function.update_self _ _ _)
        (hintact.owned.waiting_loose timer List.mem_cons_self) clock
      exact ⟨_, by simp only [exec, hadd]; rfl,
        .addTimer timer when interval repeats clock hfree hrange⟩
  | cancelInLoop id =>
      by_cases hactive : (id.timer, id.sequence) ∈ s.queue.activeTimers
      · obtain ⟨object, hheap, hsequence, _⟩ := hconsistent.active_entry _ hactive
        have hcancel := cancelInLoop_active hconsistent hheap hsequence hactive
        have hsequence' : object.sequence = id.sequence := hsequence
        exact ⟨_, by simp [exec, hcancel],
          .cancelActive id object ⟨hheap, hsequence' ▸ hactive⟩ hsequence⟩
      · have hcancel := cancelInLoop_absent hconsistent hactive
        exact ⟨_, by simp [exec, hcancel], .cancelAbsent id hactive henabled⟩
  | handleRead now =>
      have hread := handleRead_eq hconsistent hallocated now
      exact ⟨_, by simp only [exec, hread]; rfl, .handleRead now henabled⟩
  | runTimer =>
      obtain ⟨b, hbatch, htodo⟩ := henabled
      obtain ⟨hexpired, hsuffix⟩ := h.expired b hbatch
      obtain ⟨it, rest, hcons⟩ := List.exists_cons_of_ne_nil htodo
      -- the entry is that of a member, which is alive
      have hmem : it ∈ b.members.map entryOf := by
        rw [← hexpired]
        exact hsuffix.subset (hcons ▸ List.mem_cons_self)
      obtain ⟨member, hmember, rfl⟩ := List.mem_map.1 hmem
      have hheap : s.queue.heap (entryOf member).timer = some member.2 :=
        howned.holds.live member (System.held_eq hbatch ▸ hmember)
      exact ⟨_, by simp [exec, hbatch, hcons, TimerQueue.runTimer, hheap]; rfl,
        .runTimer b member rest hbatch hcons hmember⟩
  | reset clock =>
      obtain ⟨b, hbatch, htodo⟩ := henabled
      have hholds : Holds s.queue b.members := System.held_eq hbatch ▸ howned.holds
      have hreset : s.queue.reset (b.members.map entryOf) b.now clock = _ :=
        reset_eq hconsistent hholds clock
      rw [← (h.expired b hbatch).1] at hreset
      exact ⟨_, by simp [exec, hbatch, hreset], .reset clock b hbatch htodo⟩

theorem outcome_of_step (h : Sound s) (hstep : Step s label t) : Outcome s label t := by
  obtain ⟨t', hexec, houtcome⟩ := exec_outcome h hstep.1
  obtain rfl : t' = t := Option.some.inj (hexec.symm.trans hstep.2)
  exact houtcome

theorem sound_outcome (h : Sound s) (houtcome : Outcome s label t) : Sound t := by
  obtain ⟨hintact, hcalling, hexpired⟩ := h
  cases houtcome with
  | newTimer timer when interval repeats hfree hrange =>
      exact ⟨hintact.newTimer hfree hrange when interval repeats, hcalling, hexpired⟩
  | addTimerInLoop timer clock object hidle hwaiting hheap =>
      exact ⟨hintact.addTimer hwaiting hheap clock,
        (timerAdded_callingExpiredTimers ..).trans hcalling, hexpired⟩
  | addTimer timer when interval repeats clock hfree hrange =>
      have hadded := (hintact.newTimer hfree hrange when interval repeats).addTimer
        List.mem_cons_self (Function.update_self _ _ _) clock
      rw [List.erase_cons_head] at hadded
      exact ⟨hadded, (timerAdded_callingExpiredTimers ..).trans hcalling, hexpired⟩
  | cancelActive id object hpending hsequence =>
      exact ⟨hintact.cancelActive hpending.1 hsequence (hsequence ▸ hpending.2), hcalling, hexpired⟩
  | cancelAbsent id habsent hissued => exact ⟨hintact.cancelAbsent id, hcalling, hexpired⟩
  | handleRead now hidle =>
      have hheld : s.held = [] := by simp [System.held, hidle]
      refine ⟨(hheld ▸ hintact).readTaken now, rfl, ?_⟩
      rintro b ⟨⟩
      exact ⟨(members_map_entryOf hintact.consistent hintact.allocated now).symm,
        List.suffix_refl _⟩
  | runTimer b member rest hbatch htodo hmember =>
      have hheap := hintact.held_live (System.held_eq hbatch ▸ hmember)
      have hheld : s.held = b.members := System.held_eq hbatch
      refine ⟨hheld ▸ hintact.emit (.ran member.1 member.2) rfl rfl ?_,
        hcalling.trans (by simp [hbatch]), ?_⟩
      · rintro timer object ⟨⟩
        exact hintact.accounted.deleted_dead _ _ hheap
      · rintro _ ⟨⟩
        obtain ⟨hmembers, hsuffix⟩ := hexpired b hbatch
        exact ⟨hmembers, (htodo ▸ List.suffix_cons _ _).trans hsuffix⟩
  | reset clock b hbatch htodo =>
      have hheld : s.held = b.members := System.held_eq hbatch
      have hcalled : Intact { s.queue with callingExpiredTimers := false } b.members s.waiting :=
        hheld ▸ hintact.congr rfl rfl rfl rfl rfl
      -- `reset` is one `resetMember` after the other
      have hrounds := resetMembers_rule b.now
        (P := fun q held => Intact q held s.waiting) hcalled.consistent hcalled.owned.holds hcalled
        fun q member rest _ _ hround => hround.resetMember b.now
      exact ⟨hrounds.2.2.rearmed clock, by simp, by rintro _ ⟨⟩⟩

theorem sound_step (h : Sound s) (hstep : Step s label t) : Sound t :=
  sound_outcome h (outcome_of_step h hstep)

theorem initial_sound : Sound {} where
  intact :=
    { consistent := ⟨by simp, by simp⟩
      allocated := ⟨by simp, by simp, by simp⟩
      owned := ⟨⟨by simp [System.held], by simp [System.held], by simp [System.held]⟩, by simp,
        by simp, by simp, by simp [System.held], by simp⟩
      accounted := ⟨by simp [deletedSequences], by simp, by simp [deletedSequences],
        by simp [addedSequences], by simp [DeletesOutside], by simp⟩ }
  calling := rfl
  expired := by rintro _ ⟨⟩

theorem run_sound {labels : List Label} (hrun : Run Step {} labels s) : Sound s :=
  hrun.invariant initial_sound fun _ _ _ => sound_step

end Step

/-! ## The invariant and the ownership of timers -/

/-- What holds between any two steps of the loop and inside `handleRead`. -/
structure Managed (s : System) : Prop where
  same_timers : Consistent s.queue
  same_size : s.queue.timers.card = s.queue.activeTimers.card
  /-- no assertion fails, no pointer to a deleted timer is used -/
  progress : ∀ label, Enabled s label → ∃ t, exec s label = some t
  /-- the pointers in `expired` and in the queued functors are to live timers -/
  held_live : ∀ member ∈ s.held, s.queue.heap member.1 = some member.2
  waiting_live : ∀ timer ∈ s.waiting, ∃ object, s.queue.heap timer = some object
  deleted_once : (deletedSequences s.queue.trace).Nodup
  not_stale : s.queue.trace.Pairwise NotStale
  /-- what has been deleted is gone -/
  deleted_dead : ∀ timer object, s.queue.heap timer = some object →
    object.sequence ∉ deletedSequences s.queue.trace
  no_leak : s.batch = none → ∀ sequence ∈ addedSequences s.queue.trace,
    sequence ∈ deletedSequences s.queue.trace ∨
      ∃ timer object, s.queue.Pending timer object ∧ object.sequence = sequence

/-- A timer is in neither set when it is deleted. -/
def DeletedFromNeither (s : System) : Prop :=
  ∀ timer object inTimers inActiveTimers,
    .deleted timer object inTimers inActiveTimers ∈ s.queue.trace →
      inTimers = false ∧ inActiveTimers = false

theorem Sound.managed {s : System} (h : Sound s) : Managed s where
  same_timers := h.intact.consistent
  same_size := h.intact.consistent.card_eq
  progress := fun _ henabled => (exec_outcome h henabled).imp fun _ hexec => hexec.1
  held_live := h.intact.owned.holds.live
  waiting_live := h.intact.owned.waiting_live
  deleted_once := h.intact.accounted.deleted_once
  not_stale := h.intact.accounted.not_stale
  deleted_dead := h.intact.accounted.deleted_dead
  no_leak := by
    intro hidle sequence hmem
    refine (h.intact.accounted.added_kept sequence hmem).imp_right ?_
    rintro ⟨timer, object, hheap, hsequence, hwaiting⟩
    rcases h.intact.owned.covered timer object hheap with hactive | hheld | hwaits
    · exact ⟨timer, object, ⟨hheap, hactive⟩, hsequence⟩
    · simp [System.held, hidle] at hheld
    · exact absurd hwaits hwaiting

/-- In every run the sets agree, no step fails, and every timer is deleted at
most once, at a moment when it has left `timers_`; only `cancelInLoop` deletes a
timer that is still in `activeTimers_`. -/
theorem timers_managed (labels : List Label) (s : System) (hrun : Run Step {} labels s) :
    Managed s ∧ DeletesOutside s.queue.trace :=
  ⟨(run_sound hrun).managed, (run_sound hrun).intact.accounted.deleted_outside⟩

/-- One timer, added on the loop thread at address 16. -/
def oneTimer : System :=
  { queue := (({} : TimerQueue).newTimer 16 1000 0 false).timerAdded 16 ⟨1000, 0, false, 1⟩ 1 }

theorem step_oneTimer : Step {} (.addTimer 16 1000 0 false 1) oneTimer := by
  have hintact := initial_sound.intact.newTimer
    (show ({} : TimerQueue).heap 16 = none from rfl) (by decide) 1000 0 false
  have hadd : (({} : TimerQueue).newTimer 16 1000 0 false).addTimerInLoop 16 1 =
      some oneTimer.queue :=
    addTimerInLoop_eq hintact.consistent (Function.update_self _ _ _)
      (hintact.owned.waiting_loose 16 List.mem_cons_self) 1
  exact ⟨⟨rfl, by decide, by decide⟩, by simp only [exec, hadd]; rfl⟩

/-- Another one for the same time, at address 17; it repeats. -/
def twoTimers : System :=
  { queue := (oneTimer.queue.newTimer 17 1000 500 true).timerAdded 17 ⟨1000, 500, true, 2⟩ 1 }

theorem step_twoTimers : Step oneTimer (.addTimer 17 1000 500 true 1) twoTimers := by
  have hfree : oneTimer.queue.heap 17 = none := by simp [oneTimer, TimerQueue.newTimer]
  have hintact := (run_sound (Run.single step_oneTimer)).intact.newTimer hfree (by decide) 1000 500
    true
  have hcreated : oneTimer.queue.numCreated = 1 := by simp [oneTimer, TimerQueue.newTimer]
  have hadd : (oneTimer.queue.newTimer 17 1000 500 true).addTimerInLoop 17 1 =
      some twoTimers.queue :=
    addTimerInLoop_eq hintact.consistent
      ((Function.update_self _ _ _).trans (by rw [hcreated]))
      (hintact.owned.waiting_loose 17 List.mem_cons_self) 1
  exact ⟨⟨hfree, by decide, by decide⟩, by simp only [exec, hadd]; rfl⟩

theorem run_twoTimers : Run Step {} [.addTimer 16 1000 0 false 1, .addTimer 17 1000 500 true 1]
    twoTimers := (Run.single step_oneTimer).snoc step_twoTimers

theorem due_twoTimers : twoTimers.queue.due 2000 = [⟨1000, 16⟩, ⟨1000, 17⟩] := by
  have hentries : twoTimers.queue.timers = {⟨1000, 16⟩, ⟨1000, 17⟩} := by
    simp [twoTimers, oneTimer, TimerQueue.newTimer, Finset.pair_comm]
  have hbefore : ∀ entry ∈ ({⟨1000, 16⟩, ⟨1000, 17⟩} : Finset Entry),
      entry < ⟨2000, UINTPTR_MAX⟩ := by
    intro entry hmem
    have hexpiration : entry.expiration = 1000 := by
      rcases Finset.mem_insert.1 hmem with rfl | hmem
      · rfl
      · rw [Finset.mem_singleton.1 hmem]
    exact Entry.lt_iff.2 (.inl (by rw [hexpiration]; decide))
  rw [due, before, hentries, Finset.filter_true_of_mem hbefore, Finset.sort_insert,
    Finset.sort_singleton]
  · intro entry hmem
    rw [Finset.mem_singleton.1 hmem]
    exact Entry.le_iff.2 (.inr ⟨rfl, by decide⟩)
  · decide

/-- The state after a callback has been started: those of `todo` are left. -/
theorem exists_runTimer {s : System} {b : Batch} {it : Entry} {todo : List Entry} (h : Sound s)
    (hbatch : s.batch = some b) (htodo : b.todo = it :: todo) :
    ∃ t, Step s .runTimer t ∧ Sound t ∧ t.batch = some { b with todo := todo } ∧
      t.queue.heap = s.queue.heap ∧ t.queue.numCreated = s.queue.numCreated := by
  have henabled : Enabled s .runTimer := ⟨b, hbatch, by simp [htodo]⟩
  obtain ⟨t, hexec, houtcome⟩ := exec_outcome h henabled
  refine ⟨t, ⟨henabled, hexec⟩, sound_outcome h houtcome, ?_⟩
  cases houtcome with
  | runTimer b' member rest hbatch' htodo' hmember =>
      obtain rfl : b = b' := Option.some.inj (hbatch.symm.trans hbatch')
      obtain ⟨-, rfl⟩ := List.cons.inj (htodo.symm.trans htodo')
      exact ⟨rfl, rfl, rfl⟩

/-- The callback of the first timer adds a third one and cancels the second. -/
def batchLabels : List Label :=
  [.runTimer, .addTimer 18 5000 0 false 2000, .cancelInLoop ⟨17, 2⟩, .runTimer]

/-- At 2000 both timers are due. -/
theorem run_batch : ∃ reading last after, Step twoTimers (.handleRead 2000) reading ∧
    Run Step reading batchLabels last ∧ Step last (.reset 2001) after ∧ after.batch = none := by
  have htwo := run_sound run_twoTimers
  have hcreated : twoTimers.queue.numCreated = 2 := by
    simp [twoTimers, oneTimer, TimerQueue.newTimer]
  have hread : Step twoTimers (.handleRead 2000) _ :=
    ⟨rfl, by simp only [exec, handleRead_eq htwo.intact.consistent htwo.intact.allocated]; rfl⟩
  obtain ⟨running, hfirst, hrunning, hbatch, hheap, hsame⟩ :=
    exists_runTimer (sound_step htwo hread) rfl due_twoTimers
  have hadd : Enabled running (.addTimer 18 5000 0 false 2000) := by
    have hfree : twoTimers.queue.heap 18 = none := by
      simp [twoTimers, oneTimer, TimerQueue.newTimer]
    exact ⟨(congrFun hheap 18).trans hfree, by decide, by decide⟩
  obtain ⟨added, hadded, houtcome⟩ := exec_outcome hrunning hadd
  have hadded_sound := sound_outcome hrunning houtcome
  obtain ⟨hadded_batch, hcancel⟩ :
      added.batch = running.batch ∧ Enabled added (.cancelInLoop ⟨17, 2⟩) := by
    cases houtcome with
    | addTimer =>
        refine ⟨rfl, ?_⟩
        rw [Enabled, timerAdded_numCreated]
        exact (hsame.trans hcreated).ge.trans (Nat.le_succ _)
  obtain ⟨cancelled, hcancelled, houtcome⟩ := exec_outcome hadded_sound hcancel
  have hcancelled_batch : cancelled.batch = running.batch := by
    cases houtcome <;> exact hadded_batch
  obtain ⟨last, hlast, hlast_sound, hdone, -⟩ :=
    exists_runTimer (sound_outcome hadded_sound houtcome) (hcancelled_batch.trans hbatch) rfl
  have hreset : Enabled last (.reset 2001) := ⟨_, hdone, rfl⟩
  obtain ⟨after, hafter, houtcome⟩ := exec_outcome hlast_sound hreset
  refine ⟨_, last, after, hread, (((Run.single hfirst).snoc ⟨hadd, hadded⟩).snoc
    ⟨hcancel, hcancelled⟩).snoc hlast, ⟨hreset, hafter⟩, ?_⟩
  cases houtcome with
  | reset => rfl

theorem timers_managed_one : ∃ labels after, Run Step {} labels after ∧
    (∀ label ∈ batchLabels, label ∈ labels) ∧ after.batch = none ∧
      Managed after ∧ DeletesOutside after.queue.trace := by
  obtain ⟨reading, last, after, hread, hinner, hreset, hidle⟩ := run_batch
  have hrun := ((run_twoTimers.snoc hread).append hinner).snoc hreset
  exact ⟨_, after, hrun, fun _ hmem => List.mem_append_left _ (List.mem_append_right _ hmem),
    hidle, timers_managed _ _ hrun⟩

/-- Cancelling a pending timer deletes it before its entry in `activeTimers_` is erased. -/
theorem cancelled_timer_deleted_in_set :
    ¬ ∀ (labels : List Label) (s : System), Run Step {} labels s →
      Managed s ∧ DeletedFromNeither s := by
  intro hclaim
  have henabled : Enabled oneTimer (.cancelInLoop ⟨16, 1⟩) := by
    simp [Enabled, oneTimer, TimerQueue.newTimer]
  have hactive : (16, 1) ∈ oneTimer.queue.activeTimers := by simp [oneTimer]
  obtain ⟨cancelled, hexec, houtcome⟩ :=
    exec_outcome (sound_step initial_sound step_oneTimer) henabled
  have hrun := (Run.single step_oneTimer).snoc ⟨henabled, hexec⟩
  cases houtcome with
  | cancelActive _ object hpending hsequence =>
      have hdeleted := (hclaim _ _ hrun).2 16 object false true (by simp [activeCancelled])
      exact absurd hdeleted.2 (by decide)
  | cancelAbsent _ habsent _ => exact habsent hactive

end TimerSystem

end MuduoLite
