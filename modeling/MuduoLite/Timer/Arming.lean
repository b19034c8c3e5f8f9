import MuduoLite.Timer.Batch

/-!
# The timerfd is armed early enough

The queue arms its timerfd when an inserted timer becomes the earliest, and after
the expired timers have been dealt with.  It does not arm it when a timer is
cancelled, which is harmless, because that only makes the earliest expiration
later.

At the end of `handleRead` the timerfd is armed only if the earliest expiration
is positive.  So during a batch the invariant `Timely` looks at the timers with
expirations up to 0: they have come in after the read, and the first of them to
come in armed the timerfd.
-/

namespace MuduoLite

open Transition OrderedSet

namespace TimerQueue

/-- The timerfd was armed since its last read, for `expiration` or earlier. -/
def ArmedBy (q : TimerQueue) (expiration : ℤ) : Prop :=
  ∃ armed, q.armedFor = some armed ∧ armed ≤ expiration

theorem ArmedBy.mono {q : TimerQueue} {first second : ℤ} (h : q.ArmedBy first)
    (hle : first ≤ second) : q.ArmedBy second :=
  h.imp fun _ harmed => ⟨harmed.1, harmed.2.trans hle⟩

/-! ## The relative time -/

/-- The value is normalised and does not disarm the timerfd. -/
structure Arms (value : Timespec) : Prop where
  sec_nonneg : 0 ≤ value.tv_sec
  nsec_nonneg : 0 ≤ value.tv_nsec
  nsec_lt : value.tv_nsec < 1000000000
  nonzero : value ≠ ⟨0, 0⟩

theorem howMuchTimeFromNow_arms (when now : ℤ) : Arms (howMuchTimeFromNow when now) := by
  have hpositive : 100 ≤ if when - now < 100 then 100 else when - now := by
    split_ifs <;> omega
  unfold howMuchTimeFromNow
  dsimp only [kMicroSecondsPerSecond]
  refine ⟨?_, ?_, ?_, fun hzero => ?_⟩
  · dsimp only
    omega
  · dsimp only
    omega
  · dsimp only
    omega
  · rw [Timespec.mk.injEq] at hzero
    omega

theorem howMuchTimeFromNow_eq (when now : ℤ) :
    (howMuchTimeFromNow when now).tv_sec * 1000000000 + (howMuchTimeFromNow when now).tv_nsec =
      max 100 (when - now) * 1000 := by
  have hmax : (if when - now < 100 then 100 else when - now) = max 100 (when - now) := by
    split_ifs <;> omega
  unfold howMuchTimeFromNow
  dsimp only [kMicroSecondsPerSecond]
  rw [hmax]
  omega

/-- Every arming passed the value of `howMuchTimeFromNow`. -/
def ArmedFromNow (trace : List Event) : Prop :=
  ∀ expiration now value, .armed expiration now value ∈ trace →
    value = howMuchTimeFromNow expiration now

section Trace

variable {q : TimerQueue}

theorem armedFromNow_append {trace : List Event} (h : ArmedFromNow trace) {events : List Event}
    (hevents : ArmedFromNow events) : ArmedFromNow (trace ++ events) := by
  intro expiration now value hmem
  exact (List.mem_append.1 hmem).elim (h _ _ _) (hevents _ _ _)

theorem armedFromNow_emit (h : ArmedFromNow q.trace) {event : Event}
    (hevent : ArmedFromNow [event]) : ArmedFromNow (q.emit event).trace :=
  armedFromNow_append h hevent

theorem armedFromNow_resetTimerfd (h : ArmedFromNow q.trace) (expiration now : ℤ) :
    ArmedFromNow (q.resetTimerfd expiration now).trace := by
  refine armedFromNow_append h fun expiration' now' value hmem => ?_
  obtain ⟨rfl, rfl, rfl⟩ := Event.armed.inj (List.mem_singleton.1 hmem)
  rfl

theorem armedFromNow_timerAdded (h : ArmedFromNow q.trace) (timer : ℕ) (object : Timer)
    (now : ℤ) : ArmedFromNow (q.timerAdded timer object now).trace := by
  have hadded : ArmedFromNow ((q.inserted timer object).emit (.added timer object)).trace :=
    armedFromNow_emit h (by simp [ArmedFromNow])
  unfold timerAdded
  dsimp only
  split_ifs
  · exact armedFromNow_resetTimerfd hadded _ _
  · exact hadded

theorem armedFromNow_resetMembers (h : ArmedFromNow q.trace) (now : ℤ)
    (held : List (ℕ × Timer)) : ArmedFromNow (q.resetMembers now held).trace := by
  induction held generalizing q with
  | nil => exact h
  | cons member rest ih =>
      rw [resetMembers_cons]
      refine ih ?_
      unfold resetMember
      split_ifs
      · exact h
      · exact armedFromNow_append h (by simp [ArmedFromNow])

theorem armedFromNow_rearmed (h : ArmedFromNow q.trace) (clock : ℤ) :
    ArmedFromNow (q.rearmed clock).trace := by
  unfold rearmed
  split
  · exact h
  · split_ifs
    · exact armedFromNow_resetTimerfd h _ _
    · exact h

end Trace

/-! ## Arming -/

section Armed

variable {q : TimerQueue} {timer : ℕ} {object : Timer} {now : ℤ}

theorem isEarliest_iff {when : ℤ} :
    q.isEarliest when = true ↔ ∀ entry ∈ q.timers, when < entry.expiration := by
  unfold isEarliest
  cases hfirst : begin? q.timers with
  | none => simp [begin?_eq_none.1 hfirst]
  | some first =>
      simp only [decide_eq_true_eq]
      refine ⟨fun hlt entry hentry => ?_, fun h => h first (mem_of_begin? hfirst)⟩
      exact hlt.trans_le (Entry.expiration_le (le_of_begin? hfirst hentry))

/-- Adding a timer arms the timerfd for it, or leaves an earlier one in the set. -/
theorem armedBy_timerAdded {due : ℤ → Prop}
    (hdown : ∀ first second, due second → first ≤ second → due first)
    (h : ∀ entry ∈ q.timers, due entry.expiration → q.ArmedBy entry.expiration) :
    ∀ entry ∈ (q.timerAdded timer object now).timers, due entry.expiration →
      (q.timerAdded timer object now).ArmedBy entry.expiration := by
  intro entry hentry hdue
  rw [timerAdded_timers, Finset.mem_insert] at hentry
  by_cases hearliest : q.isEarliest object.expiration = true
  · have harmed : (q.timerAdded timer object now).ArmedBy object.expiration :=
      ⟨object.expiration, by simp [timerAdded, hearliest, resetTimerfd, emit], le_rfl⟩
    rcases hentry with rfl | hold
    · exact harmed
    · exact harmed.mono (isEarliest_iff.1 hearliest entry hold).le
  · have hkept : (q.timerAdded timer object now).armedFor = q.armedFor := by
      simp [timerAdded, hearliest, emit, inserted]
    simp only [ArmedBy, hkept]
    rcases hentry with rfl | hold
    · have hearlier := (not_congr isEarliest_iff).1 hearliest
      push Not at hearlier
      obtain ⟨first, hfirst, hle⟩ := hearlier
      exact (h first hfirst (hdown _ _ hdue hle)).mono hle
    · exact h entry hold hdue

theorem timers_resetMembers (held : List (ℕ × Timer)) {entry : Entry}
    (hentry : entry ∈ (q.resetMembers now held).timers) :
    entry ∈ q.timers ∨ now ≤ entry.expiration := by
  induction held generalizing q with
  | nil => exact .inl hentry
  | cons member rest ih =>
      rw [resetMembers_cons] at hentry
      rcases ih hentry with hmem | hle
      · unfold resetMember at hmem
        split_ifs at hmem
        · rcases Finset.mem_insert.1 hmem with rfl | hold
          · refine .inr ?_
            dsimp only [restarted]
            omega
          · exact .inl hold
        · exact .inl hmem
      · exact .inr hle

/-- The end of `handleRead` arms the timerfd for the earliest timer, unless that
one has armed it already. -/
theorem armedBy_rearmed (clock : ℤ)
    (h : ∀ entry ∈ q.timers, entry.expiration ≤ 0 → q.ArmedBy entry.expiration) :
    ∀ entry ∈ (q.rearmed clock).timers, (q.rearmed clock).ArmedBy entry.expiration := by
  unfold rearmed
  cases hfirst : begin? q.timers with
  | none => simp [begin?_eq_none.1 hfirst]
  | some first =>
      intro entry hentry
      dsimp only at hentry ⊢
      split_ifs at hentry ⊢ with hvalid
      · exact ⟨first.expiration, rfl, Entry.expiration_le (le_of_begin? hfirst hentry)⟩
      · exact (h first (mem_of_begin? hfirst) (not_lt.1 hvalid)).mono
          (Entry.expiration_le (le_of_begin? hfirst hentry))

end Armed

end TimerQueue

/-! ## Runs -/

namespace TimerSystem

open TimerQueue

/-- The clock readings of a step are positive. -/
def ClockPositive (_ : System) : Label → Prop
  | .addTimerInLoop _ clock => 0 < clock
  | .addTimer _ _ _ _ clock => 0 < clock
  | .handleRead now => 0 < now
  | .reset clock => 0 < clock
  | _ => True

structure Timely (s : System) : Prop where
  armed : ∀ entry ∈ s.queue.timers, s.batch = none ∨ entry.expiration ≤ 0 →
    s.queue.ArmedBy entry.expiration
  now_pos : ∀ b, s.batch = some b → 0 < b.now
  from_now : ArmedFromNow s.queue.trace

section Step

variable {s t : System} {label : Label}

theorem timely_outcome (h : Timely s) (houtcome : Outcome s label t)
    (hclock : ClockPositive s label) : Timely t := by
  obtain ⟨harmed, hnow, htrace⟩ := h
  have hdown : ∀ first second : ℤ, s.batch = none ∨ second ≤ 0 → first ≤ second →
      s.batch = none ∨ first ≤ 0 := fun _ _ hdue hle => hdue.imp_right hle.trans
  cases houtcome with
  | newTimer timer when interval repeats hfree hrange => exact ⟨harmed, hnow, htrace⟩
  | addTimerInLoop timer clock object hidle hwaiting hheap =>
      exact ⟨armedBy_timerAdded hdown harmed, hnow, armedFromNow_timerAdded htrace _ _ _⟩
  | addTimer timer when interval repeats clock hfree hrange =>
      exact ⟨armedBy_timerAdded (q := s.queue.newTimer timer when interval repeats) hdown harmed,
        hnow, armedFromNow_timerAdded (q := s.queue.newTimer timer when interval repeats) htrace
          _ _ _⟩
  | cancelActive id object hpending hsequence =>
      exact ⟨fun entry hentry => harmed entry (Finset.mem_of_mem_erase hentry), hnow,
        armedFromNow_append htrace (by simp [ArmedFromNow])⟩
  | cancelAbsent id habsent hissued =>
      exact ⟨harmed, hnow, armedFromNow_append htrace (by simp [ArmedFromNow])⟩
  | handleRead now hidle =>
      refine ⟨fun entry hentry hdue => ?_, ?_, armedFromNow_append htrace (by simp [ArmedFromNow])⟩
      · -- what is left is later than `now`, which is positive
        have hlater := Entry.expiration_le (mem_lowerBound.1 hentry).2
        have hpositive : (0 : ℤ) < now := hclock
        have hle := hdue.resolve_left (by simp)
        dsimp only at hlater
        omega
      · rintro _ ⟨⟩
        exact hclock
  | runTimer b member rest hbatch htodo hmember =>
      refine ⟨fun entry hentry hdue => ?_, ?_, armedFromNow_append htrace (by simp [ArmedFromNow])⟩
      · exact harmed entry hentry (.inr (hdue.resolve_left (by simp)))
      · rintro _ ⟨⟩
        exact hnow b hbatch
  | reset clock b hbatch htodo =>
      have hnow_pos := hnow b hbatch
      let called : TimerQueue := { s.queue with callingExpiredTimers := false }
      refine ⟨fun entry hentry _ => armedBy_rearmed clock (fun first hfirst hle => ?_) entry hentry,
        by rintro _ ⟨⟩,
        armedFromNow_rearmed (armedFromNow_resetMembers (q := called) htrace _ _) _⟩
      -- an entry that was there already, or one of a restarted timer, which is later than `now`
      rcases timers_resetMembers b.members hfirst with hold | hlater
      · obtain ⟨armed, harmedFor, hle'⟩ := harmed first hold (.inr hle)
        exact ⟨armed, by simpa using harmedFor, hle'⟩
      · omega

theorem run_timely {labels : List Label} (hrun : Run (restrict Step ClockPositive) {} labels s) :
    Timely s := by
  have h : Sound s ∧ Timely s := by
    have hinitial : Timely {} := ⟨by simp, by simp, by simp [ArmedFromNow]⟩
    refine hrun.invariant (P := fun s => Sound s ∧ Timely s) ⟨initial_sound, hinitial⟩ ?_
    rintro a label b ⟨hsound, htimely⟩ ⟨hstep, hclock⟩
    have houtcome := outcome_of_step hsound hstep
    exact ⟨sound_outcome hsound houtcome, timely_outcome htimely houtcome hclock⟩
  exact h.2

end Step

/-- With positive clock readings, outside `handleRead` a queue with timers has
its timerfd armed for its earliest expiration or an earlier one, and every
arming passes the kernel a normalised non-zero time, the distance to the
expiration or 100 microseconds, whichever is greater. -/
theorem no_timer_missed (labels : List Label) (s : System)
    (hrun : Run (restrict Step ClockPositive) {} labels s) :
    (s.batch = none → s.queue.timers.Nonempty → ∃ armed, s.queue.armedFor = some armed ∧
      ∀ entry ∈ s.queue.timers, armed ≤ entry.expiration) ∧
    ∀ expiration now value, .armed expiration now value ∈ s.queue.trace → Arms value ∧
      value.tv_sec * 1000000000 + value.tv_nsec = max 100 (expiration - now) * 1000 := by
  have h := run_timely hrun
  refine ⟨fun hidle hsome => ?_, fun expiration now value hmem => ?_⟩
  · obtain ⟨first, hfirst⟩ := hsome
    obtain ⟨armed, harmed, -⟩ := h.armed first hfirst (.inl hidle)
    refine ⟨armed, harmed, fun entry hentry => ?_⟩
    -- there is one armed time, so it is early enough for every entry
    obtain ⟨other, hother, hle⟩ := h.armed entry hentry (.inl hidle)
    obtain rfl : other = armed := Option.some.inj (hother.symm.trans harmed)
    exact hle
  · rw [h.from_now expiration now value hmem]
    exact ⟨howMuchTimeFromNow_arms _ _, howMuchTimeFromNow_eq _ _⟩

/-- After a batch of two, whose callbacks have added a third. -/
theorem no_timer_missed_one : ∃ labels after armed,
    Run (restrict Step ClockPositive) {} labels after ∧ after.queue.armedFor = some armed ∧
      ∀ entry ∈ after.queue.timers, armed ≤ entry.expiration := by
  obtain ⟨after, hrun, hidle, object, hpending⟩ := run_batch_pending
  have hentry := hpending.entry_mem (run_sound hrun).intact.consistent
  have hpositive : Run (restrict Step ClockPositive) {} _ after :=
    hrun.restrict_of_forall (by simp [ClockPositive, batchLabels])
  obtain ⟨armed, harmed, hle⟩ := (no_timer_missed _ _ hpositive).1 hidle ⟨_, hentry⟩
  exact ⟨_, after, armed, hpositive, harmed, hle⟩

end TimerSystem

end MuduoLite
