import MuduoLite.Timer.Model

/-!
# What the operations of the timer queue do

`Consistent` is the representation invariant of the two sets.  Under it every
operation succeeds, and for each one this file states the queue it yields.  The
other files use these equations and do not look into the operations again.

A live timer whose pointer is in neither set is `Loose`.  It belongs to the
functor that will add it or to the `handleRead` that has taken it out.
-/

namespace MuduoLite

open OrderedSet

namespace TimerQueue

open Function (update update_of_ne update_self)

/-- The two sets hold the same live timers, under their expirations and sequences. -/
structure Consistent (q : TimerQueue) : Prop where
  entry_active : ∀ entry ∈ q.timers, ∃ object, q.heap entry.timer = some object ∧
    object.expiration = entry.expiration ∧ (entry.timer, object.sequence) ∈ q.activeTimers
  active_entry : ∀ active ∈ q.activeTimers, ∃ object, q.heap active.1 = some object ∧
    object.sequence = active.2 ∧ ⟨object.expiration, active.1⟩ ∈ q.timers

/-- What the allocator and the counter of timers guarantee. -/
structure Allocated (q : TimerQueue) : Prop where
  in_range : ∀ timer object, q.heap timer = some object → timer < UINTPTR_MAX
  sequence_le : ∀ timer object, q.heap timer = some object → object.sequence ≤ q.numCreated
  sequence_inj : ∀ timer object timer' object', q.heap timer = some object →
    q.heap timer' = some object' → object.sequence = object'.sequence → timer = timer'

def Loose (q : TimerQueue) (timer : ℕ) : Prop := ∀ active ∈ q.activeTimers, active.1 ≠ timer

/-- The timer `object` at `timer` is in the two sets. -/
def Pending (q : TimerQueue) (timer : ℕ) (object : Timer) : Prop :=
  q.heap timer = some object ∧ (timer, object.sequence) ∈ q.activeTimers

theorem guard_some {p : Prop} [Decidable p] (hp : p) : (guard p : Option Unit) = some () :=
  if_pos hp

section Basic

variable {q : TimerQueue} {timer : ℕ} {object : Timer}

theorem loose_iff (h : Consistent q) (hheap : q.heap timer = some object) :
    q.Loose timer ↔ (timer, object.sequence) ∉ q.activeTimers := by
  refine ⟨fun hloose hmem => hloose _ hmem rfl, fun hnot active hmem heq => hnot ?_⟩
  obtain ⟨other, hother, hsequence, _⟩ := h.active_entry active hmem
  obtain rfl : other = object := Option.some.inj (hother.symm.trans (heq ▸ hheap))
  rw [← heq, hsequence]
  exact hmem

theorem Loose.not_entry (hloose : q.Loose timer) (h : Consistent q) :
    ∀ entry ∈ q.timers, entry.timer ≠ timer := by
  intro entry hentry heq
  obtain ⟨_, _, _, hactive⟩ := h.entry_active entry hentry
  exact hloose _ hactive heq

/-- A live pointer determines its entry. -/
theorem Consistent.entry_eq (h : Consistent q) (hheap : q.heap timer = some object) {entry : Entry}
    (hentry : entry ∈ q.timers) (htimer : entry.timer = timer) :
    entry = ⟨object.expiration, timer⟩ := by
  obtain ⟨other, hother, hexpiration, _⟩ := h.entry_active entry hentry
  obtain rfl : other = object := Option.some.inj (hother.symm.trans (htimer ▸ hheap))
  rw [hexpiration, ← htimer]

theorem Pending.entry_mem (hpending : q.Pending timer object) (h : Consistent q) :
    ⟨object.expiration, timer⟩ ∈ q.timers := by
  obtain ⟨other, hother, _, hentry⟩ := h.active_entry _ hpending.2
  obtain rfl : other = object := Option.some.inj (hother.symm.trans hpending.1)
  exact hentry

theorem Consistent.pending_of_entry (h : Consistent q) {entry : Entry} (hentry : entry ∈ q.timers) :
    ∃ object, q.Pending entry.timer object ∧ object.expiration = entry.expiration := by
  obtain ⟨object, hheap, hexpiration, hactive⟩ := h.entry_active entry hentry
  exact ⟨object, ⟨hheap, hactive⟩, hexpiration⟩

/-- The asserted equality of the two sizes. -/
theorem Consistent.card_eq (h : Consistent q) : q.timers.card = q.activeTimers.card := by
  let sequence (timer : ℕ) : ℕ := ((q.heap timer).map Timer.sequence).getD 0
  let expiration (timer : ℕ) : ℤ := ((q.heap timer).map Timer.expiration).getD 0
  refine Finset.card_nbij' (fun entry => (entry.timer, sequence entry.timer))
    (fun active => ⟨expiration active.1, active.1⟩) ?_ ?_ ?_ ?_
  · intro entry hentry
    obtain ⟨object, hheap, _, hactive⟩ := h.entry_active entry hentry
    simpa [sequence, hheap] using hactive
  · intro active hactive
    obtain ⟨object, hheap, _, hentry⟩ := h.active_entry active hactive
    simpa [expiration, hheap] using hentry
  · intro entry hentry
    obtain ⟨object, hheap, hexpiration, _⟩ := h.entry_active entry hentry
    simp [expiration, hheap, hexpiration]
  · intro active hactive
    obtain ⟨object, hheap, hsequence, _⟩ := h.active_entry active hactive
    simp [sequence, hheap, hsequence]

/-- Writing to a loose address does not concern the sets. -/
theorem Consistent.updateHeap (h : Consistent q) (hloose : q.Loose timer) (value : Option Timer) :
    Consistent { q with heap := update q.heap timer value } where
  entry_active := by
    intro entry hentry
    obtain ⟨object, hheap, hrest⟩ := h.entry_active entry hentry
    refine ⟨object, ?_, hrest⟩
    exact (update_of_ne (hloose.not_entry h entry hentry) _ _).trans hheap
  active_entry := by
    intro active hactive
    obtain ⟨object, hheap, hrest⟩ := h.active_entry active hactive
    exact ⟨object, (update_of_ne (hloose active hactive) _ _).trans hheap, hrest⟩

/-- A queue that differs in none of the sets and not in the heap. -/
theorem Consistent.congr {q' : TimerQueue} (h : Consistent q) (htimers : q'.timers = q.timers)
    (hactive : q'.activeTimers = q.activeTimers) (hheap : q'.heap = q.heap) : Consistent q' := by
  refine ⟨?_, ?_⟩ <;> rw [htimers, hactive, hheap]
  · exact h.entry_active
  · exact h.active_entry

end Basic

/-! ## Inserting -/

section Insert

variable {q : TimerQueue} {timer : ℕ} {object : Timer}

/-- The queue after `insert`. -/
def inserted (q : TimerQueue) (timer : ℕ) (object : Timer) : TimerQueue :=
  { q with
    timers := Insert.insert ⟨object.expiration, timer⟩ q.timers
    activeTimers := Insert.insert (timer, object.sequence) q.activeTimers }

theorem consistent_inserted (h : Consistent q) (hheap : q.heap timer = some object) :
    Consistent (q.inserted timer object) where
  entry_active := by
    intro entry hentry
    rcases Finset.mem_insert.1 hentry with rfl | hold
    · exact ⟨object, hheap, rfl, Finset.mem_insert_self _ _⟩
    · obtain ⟨other, hother, hexpiration, hactive⟩ := h.entry_active entry hold
      exact ⟨other, hother, hexpiration, Finset.mem_insert_of_mem hactive⟩
  active_entry := by
    intro active hactive
    rcases Finset.mem_insert.1 hactive with rfl | hold
    · exact ⟨object, hheap, rfl, Finset.mem_insert_self _ _⟩
    · obtain ⟨other, hother, hsequence, hentry⟩ := h.active_entry active hold
      exact ⟨other, hother, hsequence, Finset.mem_insert_of_mem hentry⟩

theorem insert_eq (h : Consistent q) (hheap : q.heap timer = some object)
    (hloose : q.Loose timer) :
    q.insert timer = some (q.inserted timer object, q.isEarliest object.expiration) := by
  have hentry : (⟨object.expiration, timer⟩ : Entry) ∉ q.timers :=
    fun hmem => hloose.not_entry h _ hmem rfl
  have hactive := (loose_iff h hheap).1 hloose
  have hcard := h.card_eq
  have hcard' := (consistent_inserted h hheap).card_eq
  simp only [inserted] at hcard'
  simp [insert, inserted, hheap, hcard, hcard', hentry, hactive, guard]

/-- The queue after `addTimerInLoop`. -/
def timerAdded (q : TimerQueue) (timer : ℕ) (object : Timer) (now : ℤ) : TimerQueue :=
  let added := (q.inserted timer object).emit (.added timer object)
  if q.isEarliest object.expiration then added.resetTimerfd object.expiration now else added

theorem addTimerInLoop_eq (h : Consistent q) (hheap : q.heap timer = some object)
    (hloose : q.Loose timer) (now : ℤ) :
    q.addTimerInLoop timer now = some (q.timerAdded timer object now) := by
  have hheap' : (q.inserted timer object).heap timer = some object := hheap
  simp [addTimerInLoop, insert_eq h hheap hloose, hheap', timerAdded]

section Fields

variable (q : TimerQueue) (timer : ℕ) (object : Timer) (now : ℤ)

@[simp] theorem timerAdded_timers : (q.timerAdded timer object now).timers =
    Insert.insert ⟨object.expiration, timer⟩ q.timers := by
  unfold timerAdded
  dsimp only
  split_ifs <;> rfl

@[simp] theorem timerAdded_activeTimers : (q.timerAdded timer object now).activeTimers =
    Insert.insert (timer, object.sequence) q.activeTimers := by
  unfold timerAdded
  dsimp only
  split_ifs <;> rfl

@[simp] theorem timerAdded_heap : (q.timerAdded timer object now).heap = q.heap := by
  unfold timerAdded
  dsimp only
  split_ifs <;> rfl

@[simp] theorem timerAdded_numCreated :
    (q.timerAdded timer object now).numCreated = q.numCreated := by
  unfold timerAdded
  dsimp only
  split_ifs <;> rfl

@[simp] theorem timerAdded_cancelingTimers :
    (q.timerAdded timer object now).cancelingTimers = q.cancelingTimers := by
  unfold timerAdded
  dsimp only
  split_ifs <;> rfl

@[simp] theorem timerAdded_callingExpiredTimers :
    (q.timerAdded timer object now).callingExpiredTimers = q.callingExpiredTimers := by
  unfold timerAdded
  dsimp only
  split_ifs <;> rfl

end Fields

end Insert

/-! ## Deleting and cancelling -/

section Cancel

variable {q : TimerQueue} {timer : ℕ} {object : Timer} {id : TimerId}

/-- The queue after a loose timer is deleted. -/
def looseDeleted (q : TimerQueue) (timer : ℕ) (object : Timer) : TimerQueue :=
  { q with heap := update q.heap timer none }.emit (.deleted timer object false false)

theorem deleteTimer_eq (h : Consistent q) (hheap : q.heap timer = some object)
    (hloose : q.Loose timer) : q.deleteTimer timer = some (q.looseDeleted timer object) := by
  have hentry := hloose.not_entry h
  have hentries : ¬ ∃ entry ∈ q.timers, entry.timer = timer := by
    rintro ⟨entry, hmem, heq⟩
    exact hentry entry hmem heq
  have hactive : ¬ ∃ active ∈ q.activeTimers, active.1 = timer := by
    rintro ⟨active, hmem, heq⟩
    exact hloose active hmem heq
  simp only [deleteTimer, hheap, looseDeleted, hentries, hactive, decide_false]
  rfl

/-- The queue after `cancelInLoop` has found the timer. -/
def activeCancelled (q : TimerQueue) (id : TimerId) (object : Timer) : TimerQueue :=
  { q with
    timers := q.timers.erase ⟨object.expiration, id.timer⟩
    activeTimers := q.activeTimers.erase (id.timer, id.sequence)
    heap := update q.heap id.timer none
    trace := q.trace ++ [.cancelled id, .deleted id.timer object false true] }

theorem consistent_activeCancelled (h : Consistent q) (hheap : q.heap id.timer = some object)
    (hsequence : object.sequence = id.sequence) : Consistent (q.activeCancelled id object) where
  entry_active := by
    intro entry hentry
    obtain ⟨hne, hold⟩ := Finset.mem_erase.1 hentry
    obtain ⟨other, hother, hexpiration, hactive⟩ := h.entry_active entry hold
    have htimer : entry.timer ≠ id.timer := fun heq => hne (h.entry_eq hheap hold heq)
    refine ⟨other, (update_of_ne htimer _ _).trans hother, hexpiration, Finset.mem_erase.2
      ⟨fun heq => htimer (congrArg Prod.fst heq), hactive⟩⟩
  active_entry := by
    intro active hactive
    obtain ⟨hne, hold⟩ := Finset.mem_erase.1 hactive
    obtain ⟨other, hother, hsequence', hentry⟩ := h.active_entry active hold
    have htimer : active.1 ≠ id.timer := by
      intro heq
      obtain rfl : other = object := Option.some.inj (hother.symm.trans (heq ▸ hheap))
      exact hne (Prod.ext heq (hsequence'.symm.trans hsequence))
    refine ⟨other, (update_of_ne htimer _ _).trans hother, hsequence', Finset.mem_erase.2
      ⟨fun heq => htimer (congrArg Entry.timer heq), hentry⟩⟩

theorem cancelInLoop_active (h : Consistent q) (hheap : q.heap id.timer = some object)
    (hsequence : object.sequence = id.sequence)
    (hactive : (id.timer, id.sequence) ∈ q.activeTimers) :
    q.cancelInLoop id = some (q.activeCancelled id object) := by
  have hentry : (⟨object.expiration, id.timer⟩ : Entry) ∈ q.timers :=
    Pending.entry_mem ⟨hheap, hsequence ▸ hactive⟩ h
  have hentries : ¬ ∃ entry ∈ q.timers.erase ⟨object.expiration, id.timer⟩,
      entry.timer = id.timer := by
    rintro ⟨entry, hmem, heq⟩
    obtain ⟨hne, hold⟩ := Finset.mem_erase.1 hmem
    exact hne (h.entry_eq hheap hold heq)
  have hactives : ∃ active ∈ q.activeTimers, active.1 = id.timer := ⟨_, hactive, rfl⟩
  have hcancel : (q.emit (.cancelled id)).cancelActive id = some (q.activeCancelled id object) := by
    simp [cancelActive, deleteTimer, emit, hheap, hentry, hactives, guard, activeCancelled]
    exact decide_eq_false hentries
  have hcard := (consistent_activeCancelled h hheap hsequence).card_eq
  have hmem : (id.timer, id.sequence) ∈ (q.emit (.cancelled id)).activeTimers := hactive
  simp [cancelInLoop, h.card_eq, hmem, hcancel, hcard, guard]

/-- The queue after `cancelInLoop` has not found the timer. -/
def absentCancelled (q : TimerQueue) (id : TimerId) : TimerQueue :=
  { q with
    cancelingTimers :=
      if q.callingExpiredTimers then Insert.insert (id.timer, id.sequence) q.cancelingTimers
      else q.cancelingTimers
    trace := q.trace ++ [.cancelled id] }

theorem cancelInLoop_absent (h : Consistent q)
    (hactive : (id.timer, id.sequence) ∉ q.activeTimers) :
    q.cancelInLoop id = some (q.absentCancelled id) := by
  have hmem : (id.timer, id.sequence) ∉ (q.emit (.cancelled id)).activeTimers := hactive
  have hcard := h.card_eq
  cases hcalling : q.callingExpiredTimers <;>
    simp [cancelInLoop, hcard, hactive, absentCancelled, emit, hcalling, guard]

end Cancel

/-! ## Taking out the expired timers -/

section Expired

variable {q : TimerQueue} {now : ℤ}

/-- The entries that `getExpired` returns. -/
def due (q : TimerQueue) (now : ℤ) : List Entry := before q.timers ⟨now, UINTPTR_MAX⟩

theorem mem_due (h : Consistent q) (ha : Allocated q) {entry : Entry} :
    entry ∈ q.due now ↔ entry ∈ q.timers ∧ entry.expiration ≤ now := by
  rw [due, mem_before]
  refine and_congr_right fun hentry => ?_
  obtain ⟨object, hheap, _, _⟩ := h.entry_active entry hentry
  have hrange := ha.in_range _ _ hheap
  -- ties at `now` are before the sentry, whose pointer is the greatest
  rw [Entry.lt_iff]
  constructor
  · rintro (hlt | ⟨heq, _⟩)
    · exact hlt.le
    · exact heq.le
  · intro hle
    rcases hle.lt_or_eq with hlt | heq
    · exact .inl hlt
    · exact .inr ⟨heq, hrange⟩

theorem mem_lowerBound_sentry (h : Consistent q) (ha : Allocated q) {entry : Entry} :
    entry ∈ lowerBound q.timers ⟨now, UINTPTR_MAX⟩ ↔
      entry ∈ q.timers ∧ now < entry.expiration := by
  have hdue : entry ∈ q.due now ↔ _ := mem_due h ha
  rw [due, mem_before] at hdue
  rw [mem_lowerBound]
  refine and_congr_right fun hentry => ?_
  have hbefore : entry < ⟨now, UINTPTR_MAX⟩ ↔ entry.expiration ≤ now := by
    simpa only [hentry, true_and] using hdue
  exact not_lt.symm.trans ((not_congr hbefore).trans not_le)

theorem due_nodup (h : Consistent q) (now : ℤ) : ((q.due now).map Entry.timer).Nodup := by
  refine List.Nodup.map_on ?_ nodup_before
  intro first hfirst second hsecond heq
  obtain ⟨object, hheap, hexpiration, _⟩ := h.entry_active first (mem_before.1 hfirst).1
  rw [h.entry_eq hheap (mem_before.1 hsecond).1 heq.symm, hexpiration]

/-- The queue after `getExpired`. -/
def taken (q : TimerQueue) (now : ℤ) : TimerQueue :=
  { q with
    timers := lowerBound q.timers ⟨now, UINTPTR_MAX⟩
    activeTimers := q.activeTimers.filter fun active => active.1 ∉ (q.due now).map Entry.timer }

theorem eraseActive_eq {expired : List Entry} (hnodup : (expired.map Entry.timer).Nodup)
    (hlive : ∀ entry ∈ expired, ∃ object, q.heap entry.timer = some object ∧
      (entry.timer, object.sequence) ∈ q.activeTimers)
    (hsequence : ∀ active ∈ q.activeTimers, ∃ object, q.heap active.1 = some object ∧
      object.sequence = active.2) :
    q.eraseActive expired = some { q with
      activeTimers := q.activeTimers.filter fun active =>
        active.1 ∉ expired.map Entry.timer } := by
  induction expired generalizing q with
  | nil => simp [eraseActive]
  | cons it rest ih =>
      obtain ⟨object, hheap, hactive⟩ := hlive it (by simp)
      rw [List.map_cons, List.nodup_cons] at hnodup
      let erased : TimerQueue := { q with
        activeTimers := q.activeTimers.erase (it.timer, object.sequence) }
      have herased : erased.eraseActive rest = some { erased with
          activeTimers := erased.activeTimers.filter fun active =>
            active.1 ∉ rest.map Entry.timer } := by
        refine ih hnodup.2 (fun entry hentry => ?_)
          fun active hmem => hsequence active (Finset.mem_of_mem_erase hmem)
        obtain ⟨other, hother, hmem⟩ := hlive entry (List.mem_cons_of_mem _ hentry)
        refine ⟨other, hother, Finset.mem_erase.2 ⟨fun heq => hnodup.1 ?_, hmem⟩⟩
        have htimer : entry.timer = it.timer := congrArg Prod.fst heq
        rw [← htimer]
        exact List.mem_map_of_mem hentry
      have hstep : q.eraseActive (it :: rest) = erased.eraseActive rest := by
        simp [eraseActive, hheap, hactive, guard, erased]
      rw [hstep, herased]
      -- the pair erased for `it` is the only one with its pointer
      have hset : (erased.activeTimers.filter fun active => active.1 ∉ rest.map Entry.timer) =
          q.activeTimers.filter fun active => active.1 ∉ (it :: rest).map Entry.timer := by
        ext active
        simp only [erased, Finset.mem_filter, Finset.mem_erase, List.map_cons, List.mem_cons,
          not_or]
        constructor
        · rintro ⟨⟨hne, hmem⟩, hrest⟩
          refine ⟨hmem, fun heq => hne ?_, hrest⟩
          obtain ⟨other, hother, hseq⟩ := hsequence active hmem
          obtain rfl : other = object := Option.some.inj (hother.symm.trans (heq ▸ hheap))
          exact Prod.ext heq hseq.symm
        · rintro ⟨hmem, hne, hrest⟩
          exact ⟨⟨fun heq => hne (congrArg Prod.fst heq), hmem⟩, hrest⟩
      rw [hset]

theorem consistent_taken (h : Consistent q) (ha : Allocated q) (now : ℤ) :
    Consistent (q.taken now) where
  entry_active := by
    intro entry hentry
    obtain ⟨hold, hlater⟩ := (mem_lowerBound_sentry h ha).1 hentry
    obtain ⟨object, hheap, hexpiration, hactive⟩ := h.entry_active entry hold
    refine ⟨object, hheap, hexpiration, Finset.mem_filter.2 ⟨hactive, fun hmem => ?_⟩⟩
    obtain ⟨other, hother, heq⟩ := List.mem_map.1 hmem
    obtain ⟨hother_mem, hdue⟩ := (mem_due h ha).1 hother
    have hsame := congrArg Entry.expiration (h.entry_eq hheap hother_mem heq)
    dsimp only at hsame
    omega
  active_entry := by
    intro active hactive
    obtain ⟨hold, hnot⟩ := Finset.mem_filter.1 hactive
    obtain ⟨object, hheap, hsequence, hentry⟩ := h.active_entry active hold
    refine ⟨object, hheap, hsequence, (mem_lowerBound_sentry h ha).2 ⟨hentry, ?_⟩⟩
    by_contra hdue
    exact hnot (List.mem_map.2 ⟨_, (mem_due h ha).2 ⟨hentry, not_lt.1 hdue⟩, rfl⟩)

theorem getExpired_eq (h : Consistent q) (ha : Allocated q) (now : ℤ) :
    q.getExpired now = some (q.due now, q.taken now) := by
  have hfirst : ∀ first ∈ begin? (lowerBound q.timers ⟨now, UINTPTR_MAX⟩),
      now < first.expiration :=
    fun first hmem => ((mem_lowerBound_sentry h ha).1 (mem_of_begin? hmem)).2
  have herase : ({ q with timers := lowerBound q.timers ⟨now, UINTPTR_MAX⟩ } :
      TimerQueue).eraseActive (q.due now) = some (q.taken now) := by
    refine eraseActive_eq (due_nodup h now) (fun entry hentry => ?_) fun active hactive => ?_
    · obtain ⟨object, hheap, _, hactive⟩ := h.entry_active entry (mem_before.1 hentry).1
      exact ⟨object, hheap, hactive⟩
    · obtain ⟨object, hheap, hsequence, _⟩ := h.active_entry active hactive
      exact ⟨object, hheap, hsequence⟩
  have hcard := (consistent_taken h ha now).card_eq
  rw [due] at herase
  simp only [getExpired, guard_some h.card_eq, guard_some hfirst, guard_some hcard, herase,
    Option.bind_eq_bind, Option.bind_some]
  rfl

/-- The queue after the first part of `handleRead`. -/
def readTaken (q : TimerQueue) (now : ℤ) : TimerQueue :=
  { q.taken now with
    armedFor := none
    trace := q.trace ++ [.readTimerfd now]
    callingExpiredTimers := true
    cancelingTimers := ∅ }

theorem handleRead_eq (h : Consistent q) (ha : Allocated q) (now : ℤ) :
    q.handleRead now = some (q.due now, q.readTaken now) := by
  let read : TimerQueue := { q with armedFor := none }.emit (.readTimerfd now)
  have hconsistent : Consistent read := h.congr rfl rfl rfl
  have hallocated : Allocated read := ⟨ha.in_range, ha.sequence_le, ha.sequence_inj⟩
  have hexpired : read.getExpired now = some (read.due now, read.taken now) :=
    getExpired_eq hconsistent hallocated now
  simp only [handleRead]
  rw [hexpired]
  rfl

end Expired

/-! ## Putting back the repeating timers -/

section Reset

variable {q : TimerQueue} {now : ℤ}

/-- The timer after `Timer::restart`, if it repeats. -/
def restarted (object : Timer) (now : ℤ) : Timer :=
  { object with expiration := now + object.interval }

/-- Does `reset` put the timer `object` at `timer` back? -/
def Restarts (q : TimerQueue) (timer : ℕ) (object : Timer) : Prop :=
  object.repeats = true ∧ (timer, object.sequence) ∉ q.cancelingTimers

instance (timer : ℕ) (object : Timer) : Decidable (q.Restarts timer object) :=
  inferInstanceAs (Decidable (_ ∧ _))

/-- The queue after one round of the loop of `reset`. -/
def resetMember (q : TimerQueue) (now : ℤ) (member : ℕ × Timer) : TimerQueue :=
  if q.Restarts member.1 member.2 then
    { q with heap := update q.heap member.1 (some (restarted member.2 now)) }.inserted member.1
      (restarted member.2 now)
  else q.looseDeleted member.1 member.2

/-- The queue after the loop of `reset`. -/
def resetMembers (q : TimerQueue) (now : ℤ) (held : List (ℕ × Timer)) : TimerQueue :=
  held.foldl (fun q member => q.resetMember now member) q

/-- The queue after the last part of `reset`. -/
def rearmed (q : TimerQueue) (clock : ℤ) : TimerQueue :=
  match begin? q.timers with
  | none => q
  | some first =>
      if 0 < first.expiration then q.resetTimerfd first.expiration clock else q

section Frame

variable (q : TimerQueue) (now : ℤ) (member : ℕ × Timer) (held : List (ℕ × Timer))

@[simp] theorem resetMember_callingExpiredTimers :
    (q.resetMember now member).callingExpiredTimers = q.callingExpiredTimers := by
  unfold resetMember
  split_ifs <;> rfl

@[simp] theorem resetMember_cancelingTimers :
    (q.resetMember now member).cancelingTimers = q.cancelingTimers := by
  unfold resetMember
  split_ifs <;> rfl

@[simp] theorem resetMember_armedFor : (q.resetMember now member).armedFor = q.armedFor := by
  unfold resetMember
  split_ifs <;> rfl

@[simp] theorem resetMembers_cons : q.resetMembers now (member :: held) =
    (q.resetMember now member).resetMembers now held := rfl

@[simp] theorem resetMembers_callingExpiredTimers :
    (q.resetMembers now held).callingExpiredTimers = q.callingExpiredTimers := by
  induction held generalizing q with
  | nil => rfl
  | cons member rest ih => simp [ih]

@[simp] theorem resetMembers_armedFor : (q.resetMembers now held).armedFor = q.armedFor := by
  induction held generalizing q with
  | nil => rfl
  | cons member rest ih => simp [ih]

@[simp] theorem rearmed_callingExpiredTimers (clock : ℤ) :
    (q.rearmed clock).callingExpiredTimers = q.callingExpiredTimers := by
  unfold rearmed
  split
  · rfl
  · split_ifs <;> rfl

end Frame

/-- The timers that `handleRead` has taken out and not yet put back or deleted. -/
structure Holds (q : TimerQueue) (held : List (ℕ × Timer)) : Prop where
  live : ∀ member ∈ held, q.heap member.1 = some member.2
  loose : ∀ member ∈ held, q.Loose member.1
  nodup : (held.map Prod.fst).Nodup

def entryOf (member : ℕ × Timer) : Entry := ⟨member.2.expiration, member.1⟩

theorem consistent_resetMember (h : Consistent q) {member : ℕ × Timer}
    (hloose : q.Loose member.1) : Consistent (q.resetMember now member) := by
  unfold resetMember
  split_ifs
  · exact consistent_inserted (h.updateHeap hloose _) (update_self _ _ _)
  · exact (h.updateHeap hloose none).congr rfl rfl rfl

theorem resetOne_eq (h : Consistent q) {member : ℕ × Timer}
    (hheap : q.heap member.1 = some member.2) (hloose : q.Loose member.1) :
    q.resetOne (entryOf member) now = some (q.resetMember now member) := by
  have hdelete := deleteTimer_eq h hheap hloose
  by_cases hrestarts : q.Restarts member.1 member.2
  · have hrepeats := hrestarts.1
    have hrestart : q.restart member.1 now = some
        { q with heap := update q.heap member.1 (some (restarted member.2 now)) } := by
      simp [restart, hheap, hrepeats, restarted]
    have hinsert := insert_eq (h.updateHeap hloose (some (restarted member.2 now)))
      (update_self _ _ _) hloose
    have htest : member.2.repeats = true ∧ (member.1, member.2.sequence) ∉ q.cancelingTimers :=
      hrestarts
    simp only [resetOne, entryOf, hheap, Option.bind_eq_bind, Option.bind_some, if_pos htest,
      hrestart, hinsert, resetMember, if_pos hrestarts]
    rfl
  · have htest : ¬ (member.2.repeats = true ∧
        (member.1, member.2.sequence) ∉ q.cancelingTimers) := hrestarts
    simp only [resetOne, entryOf, hheap, Option.bind_eq_bind, Option.bind_some, if_neg htest,
      hdelete, resetMember, if_neg hrestarts]

/-- A round of the loop does not touch the timers of the later rounds. -/
theorem holds_resetMember {member : ℕ × Timer} {rest : List (ℕ × Timer)}
    (hheld : Holds q (member :: rest)) : Holds (q.resetMember now member) rest := by
  obtain ⟨hlive, hloose, hnodup⟩ := hheld
  rw [List.map_cons, List.nodup_cons] at hnodup
  have hne : ∀ other ∈ rest, other.1 ≠ member.1 := by
    intro other hother heq
    exact hnodup.1 (heq ▸ List.mem_map_of_mem hother)
  refine ⟨fun other hother => ?_, fun other hother active hactive => ?_, hnodup.2⟩
  · have hold := hlive other (List.mem_cons_of_mem _ hother)
    unfold resetMember
    split_ifs
    · exact (update_of_ne (hne other hother) _ _).trans hold
    · exact (update_of_ne (hne other hother) _ _).trans hold
  · have hold := hloose other (List.mem_cons_of_mem _ hother)
    unfold resetMember at hactive
    split_ifs at hactive
    · rcases Finset.mem_insert.1 hactive with rfl | hmem
      · exact (hne other hother).symm
      · exact hold active hmem
    · exact hold active hactive

/-- The loop rule of `reset`: what every round keeps holds at the end. -/
theorem resetMembers_rule (now : ℤ) {P : TimerQueue → List (ℕ × Timer) → Prop}
    {held : List (ℕ × Timer)} (h : Consistent q) (hheld : Holds q held) (hstart : P q held)
    (hround : ∀ q member rest, Consistent q → Holds q (member :: rest) → P q (member :: rest) →
      P (q.resetMember now member) rest) :
    q.resetAll now (held.map entryOf) = some (q.resetMembers now held) ∧
      Consistent (q.resetMembers now held) ∧ P (q.resetMembers now held) [] := by
  induction held generalizing q with
  | nil => exact ⟨rfl, h, hstart⟩
  | cons member rest ih =>
      have hloose := hheld.loose member List.mem_cons_self
      obtain ⟨heq, hconsistent, hend⟩ := ih (consistent_resetMember h hloose)
        (holds_resetMember hheld) (hround q member rest h hheld hstart)
      refine ⟨?_, hconsistent, hend⟩
      simp only [List.map_cons, resetAll, Option.bind_eq_bind, Option.bind_some,
        resetOne_eq h (hheld.live member List.mem_cons_self) hloose]
      exact heq

theorem reset_eq (h : Consistent q) {held : List (ℕ × Timer)} (hheld : Holds q held)
    (clock : ℤ) : q.reset (held.map entryOf) now clock =
      some (({ q with callingExpiredTimers := false }.resetMembers now held).rearmed clock) := by
  let called : TimerQueue := { q with callingExpiredTimers := false }
  have hcalled : Holds called held := ⟨hheld.live, hheld.loose, hheld.nodup⟩
  obtain ⟨hall, hconsistent, -⟩ := resetMembers_rule now (P := fun _ _ => True)
    (show Consistent called from h.congr rfl rfl rfl) hcalled trivial fun _ _ _ _ _ _ => trivial
  have hreset : q.reset (held.map entryOf) now clock =
      (called.resetAll now (held.map entryOf)).bind fun done =>
        match begin? done.timers with
        | none => some done
        | some first => (done.heap first.timer).bind fun object =>
            some (if 0 < object.expiration then done.resetTimerfd object.expiration clock
              else done) := rfl
  rw [hreset, hall, Option.bind_some]
  change _ = some ((called.resetMembers now held).rearmed clock)
  unfold rearmed
  cases hfirst : begin? (called.resetMembers now held).timers with
  | none => rfl
  | some first =>
      obtain ⟨object, hheap, hexpiration, _⟩ :=
        hconsistent.entry_active first (mem_of_begin? hfirst)
      simp only [hheap, hexpiration, Option.bind_some]

end Reset

end TimerQueue

end MuduoLite
