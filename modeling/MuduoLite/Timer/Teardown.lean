import MuduoLite.Timer.Invariant

/-!
# The destructor of the timer queue

`~TimerQueue` deletes the timers of `timers_`.  Outside `handleRead` these are all the timers
that were added and not deleted before, so in its life the queue deletes every timer that
was added exactly once.  What the destructor does not see are the timers of other threads
whose `addTimerInLoop` has not run: nobody will delete them.
-/

namespace MuduoLite

open Transition OrderedSet

namespace TimerQueue

/-- The loop of the destructor. -/
def deleteAll (q : TimerQueue) : List Entry → Option TimerQueue
  | [] => some q
  | timer :: rest => do
      let deleted ← q.deleteTimer timer.timer
      deleteAll deleted rest

/-- `~TimerQueue`; the timerfd is closed and has left the poller before. -/
def destroy (q : TimerQueue) : Option TimerQueue := q.deleteAll (q.timers.sort (· ≤ ·))

section DeleteAll

variable {q : TimerQueue}

/-- The sequences of the timers behind `entries`. -/
def sequencesOf (q : TimerQueue) (entries : List Entry) : List ℕ :=
  entries.filterMap fun it => (q.heap it.timer).map Timer.sequence

theorem mem_sequencesOf {entries : List Entry} {sequence : ℕ} :
    sequence ∈ q.sequencesOf entries ↔
      ∃ it ∈ entries, ∃ object, q.heap it.timer = some object ∧ object.sequence = sequence := by
  simp [sequencesOf]

/-- Distinct live timers have distinct sequences. -/
theorem sequencesOf_nodup (ha : Allocated q) {entries : List Entry}
    (hnodup : (entries.map Entry.timer).Nodup) : (q.sequencesOf entries).Nodup := by
  induction entries with
  | nil => exact List.nodup_nil
  | cons it rest ih =>
      rw [List.map_cons, List.nodup_cons] at hnodup
      cases hobject : q.heap it.timer with
      | none =>
          have hskip : q.sequencesOf (it :: rest) = q.sequencesOf rest := by
            simp [sequencesOf, hobject]
          rw [hskip]
          exact ih hnodup.2
      | some object =>
          have hcons : q.sequencesOf (it :: rest) = object.sequence :: q.sequencesOf rest := by
            simp [sequencesOf, hobject]
          rw [hcons, List.nodup_cons]
          refine ⟨fun hmem => ?_, ih hnodup.2⟩
          obtain ⟨other, hother, object', hobject', hsequence⟩ := mem_sequencesOf.1 hmem
          have hsame := ha.sequence_inj _ _ _ _ hobject' hobject hsequence
          exact hnodup.1 (hsame ▸ List.mem_map_of_mem hother)

theorem deleteAll_spec {entries : List Entry} (hnodup : (entries.map Entry.timer).Nodup)
    (hlive : ∀ it ∈ entries, ∃ object, q.heap it.timer = some object) :
    ∃ destroyed, q.deleteAll entries = some destroyed ∧
      (∀ timer, destroyed.heap timer =
        if timer ∈ entries.map Entry.timer then none else q.heap timer) ∧
      deletedSequences destroyed.trace = deletedSequences q.trace ++ q.sequencesOf entries := by
  induction entries generalizing q with
  | nil => exact ⟨q, rfl, by simp, by simp [sequencesOf]⟩
  | cons it rest ih =>
      obtain ⟨object, hobject⟩ := hlive it List.mem_cons_self
      rw [List.map_cons, List.nodup_cons] at hnodup
      let freed : TimerQueue := { q with heap := Function.update q.heap it.timer none }
      obtain ⟨deleted, hdeleted, hheap, htrace⟩ : ∃ deleted, q.deleteTimer it.timer = some deleted ∧
          deleted.heap = freed.heap ∧
          deletedSequences deleted.trace = deletedSequences q.trace ++ [object.sequence] := by
        refine ⟨freed.emit (.deleted it.timer object (∃ entry ∈ q.timers, entry.timer = it.timer)
          (∃ active ∈ q.activeTimers, active.1 = it.timer)), ?_, rfl, ?_⟩
        · simp [deleteTimer, hobject, freed]
        · simp [emit, deletedSequences, freed]
      have hrest (other : Entry) (hother : other ∈ rest) :
          deleted.heap other.timer = q.heap other.timer := by
        have hne : other.timer ≠ it.timer := fun heq =>
          hnodup.1 (heq ▸ List.mem_map_of_mem hother)
        rw [hheap]
        exact Function.update_of_ne hne _ _
      obtain ⟨destroyed, hdestroyed, hheap', htrace'⟩ := ih (q := deleted) hnodup.2
        fun other hother => by
          rw [hrest other hother]
          exact hlive other (List.mem_cons_of_mem _ hother)
      refine ⟨destroyed, ?_, fun timer => ?_, ?_⟩
      · simp only [deleteAll, hdeleted, Option.bind_eq_bind, Option.bind_some, hdestroyed]
      · rw [hheap', hheap, List.map_cons]
        by_cases htimer : timer = it.timer
        · subst htimer
          simp [freed]
        · simp [freed, htimer]
      · have hsequences : deleted.sequencesOf rest = q.sequencesOf rest :=
          List.filterMap_congr fun other hother => by rw [hrest other hother]
        rw [htrace', htrace, hsequences, List.append_assoc]
        simp [sequencesOf, hobject]

end DeleteAll

end TimerQueue

namespace TimerSystem

open TimerQueue

/-- Outside `handleRead` the destructor uses no deleted timer, and after it every timer that
was ever added has been deleted, exactly once.  The timers left are those of the functors
that have not run. -/
theorem destroyed_frees (labels : List Label) (s : System) (hrun : Run Step {} labels s)
    (hidle : s.batch = none) :
    ∃ destroyed, s.queue.destroy = some destroyed ∧
      (∀ timer, destroyed.heap timer ≠ none ↔ timer ∈ s.waiting) ∧
      (deletedSequences destroyed.trace).Nodup ∧
      ∀ sequence ∈ addedSequences s.queue.trace, sequence ∈ deletedSequences destroyed.trace := by
  have hs := run_sound hrun
  obtain ⟨hconsistent, hallocated, howned, haccounted⟩ := hs.intact
  have hentry {it : Entry} (hit : it ∈ s.queue.timers.sort (· ≤ ·)) :
      ∃ object, s.queue.Pending it.timer object ∧ object.expiration = it.expiration :=
    hconsistent.pending_of_entry ((Finset.mem_sort _).1 hit)
  have hnodup : ((s.queue.timers.sort (· ≤ ·)).map Entry.timer).Nodup := by
    refine List.Nodup.map_on ?_ (Finset.sort_nodup _ _)
    intro first hfirst second hsecond heq
    obtain ⟨object, hpending, -⟩ := hentry hfirst
    have hfirst' := hconsistent.entry_eq hpending.1 ((Finset.mem_sort _).1 hfirst) rfl
    have hsecond' := hconsistent.entry_eq hpending.1 ((Finset.mem_sort _).1 hsecond) heq.symm
    exact hfirst'.trans hsecond'.symm
  obtain ⟨destroyed, hdestroyed, hheap, htrace⟩ := deleteAll_spec (q := s.queue) hnodup
    fun it hit => (hentry hit).imp fun _ h => h.1.1
  have hmem (timer : ℕ) : timer ∈ (s.queue.timers.sort (· ≤ ·)).map Entry.timer ↔
      ∃ object, s.queue.Pending timer object := by
    constructor
    · intro hin
      obtain ⟨it, hit, rfl⟩ := List.mem_map.1 hin
      exact (hentry hit).imp fun _ h => h.1
    · rintro ⟨object, hpending⟩
      exact List.mem_map.2 ⟨_, (Finset.mem_sort _).2 (hpending.entry_mem hconsistent), rfl⟩
  have hcovered {timer : ℕ} {object : Timer} (hlive : s.queue.heap timer = some object)
      (hwaiting : timer ∉ s.waiting) : s.queue.Pending timer object := by
    rcases howned.covered timer object hlive with hactive | hheld | hwaits
    · exact ⟨hlive, hactive⟩
    · simp [System.held, hidle] at hheld
    · exact absurd hwaits hwaiting
  refine ⟨destroyed, hdestroyed, ?_, ?_, ?_⟩
  · intro timer
    rw [hheap]
    split_ifs with htimer
    · obtain ⟨object, hpending⟩ := (hmem timer).1 htimer
      exact iff_of_false (by simp) fun hwaits => howned.waiting_loose timer hwaits _ hpending.2 rfl
    · constructor
      · intro hlive
        obtain ⟨object, hobject⟩ := Option.ne_none_iff_exists'.1 hlive
        by_contra hwaiting
        exact htimer ((hmem timer).2 ⟨object, hcovered hobject hwaiting⟩)
      · intro hwaits
        obtain ⟨object, hobject⟩ := howned.waiting_live timer hwaits
        simp [hobject]
  · rw [htrace]
    refine haccounted.deleted_once.append ?_ ?_
    · exact sequencesOf_nodup hallocated hnodup
    · intro sequence hdeleted hnew
      obtain ⟨it, -, object, hobject, rfl⟩ := mem_sequencesOf.1 hnew
      exact haccounted.deleted_dead _ _ hobject hdeleted
  · intro sequence hsequence
    rw [htrace, List.mem_append]
    refine (haccounted.added_kept sequence hsequence).imp_right ?_
    rintro ⟨timer, object, hobject, rfl, hwaiting⟩
    have hpending := hcovered hobject hwaiting
    exact mem_sequencesOf.2 ⟨_, (Finset.mem_sort _).2 (hpending.entry_mem hconsistent), object,
      hobject, rfl⟩

theorem destroyed_frees_one : ∃ destroyed, oneTimer.queue.destroy = some destroyed ∧
    ∀ timer, destroyed.heap timer = none := by
  obtain ⟨destroyed, hdestroyed, hheap, -⟩ :=
    destroyed_frees _ _ (Run.single step_oneTimer) rfl
  refine ⟨destroyed, hdestroyed, fun timer => ?_⟩
  by_contra hlive
  nomatch (hheap timer).1 hlive

end TimerSystem

end MuduoLite
