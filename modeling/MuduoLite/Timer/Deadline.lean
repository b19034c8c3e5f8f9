import MuduoLite.Timer.Arming
import MuduoLite.Timer.Expiry

/-!
# Timers run on time

The loop learns that timers are due when its timerfd becomes readable.  `Timerfd` is the
kernel's side of the descriptor: `timerfd_settime` sets when it expires and takes back an
expiration that was not read, and `read` takes back the expiration as well.  `Timed` puts it
together with the timer queue and a clock that advances between the steps; a reading of
`Timestamp::now()` gives this clock, and the clock of the timerfd advances alike.

An expiration may be taken back while timers are due: a timer that is added with an earlier
expiration arms the timerfd again.  But `howMuchTimeFromNow` then lets it expire after 100
microseconds, so a timer is due for at most this long before the loop hears of it, counted
from the last arming (`Watched`).
-/

namespace MuduoLite

open Transition OrderedSet

/-! ## The kernel's timer -/

structure Timerfd where
  /-- when it expires next -/
  deadline : Option ℤ := none
  /-- has it expired since it was read or set? -/
  readable : Bool := false
  deriving DecidableEq, Repr

namespace Timerfd

/-- The microseconds of a `timespec`. -/
def microseconds (value : Timespec) : ℤ :=
  value.tv_sec * TimerQueue.kMicroSecondsPerSecond + value.tv_nsec / 1000

/-- What a step of the timer queue at time `now` does to the descriptor. -/
def record (now : ℤ) (fd : Timerfd) : Event → Timerfd
  | .readTimerfd _ => { fd with readable := false }
  | .armed _ _ value => { deadline := some (now + microseconds value) }
  | _ => fd

/-- The time becomes `now`. -/
def elapse (fd : Timerfd) (now : ℤ) : Timerfd :=
  if ∃ deadline ∈ fd.deadline, deadline ≤ now then { readable := true } else fd

theorem microseconds_howMuchTimeFromNow (when now : ℤ) :
    microseconds (TimerQueue.howMuchTimeFromNow when now) = max 100 (when - now) := by
  have hvalue := TimerQueue.howMuchTimeFromNow_eq when now
  unfold microseconds
  dsimp only [TimerQueue.kMicroSecondsPerSecond]
  omega

/-- An event that neither reads nor sets the timerfd. -/
def Leaves (event : Event) : Prop := ∀ now (fd : Timerfd), fd.record now event = fd

theorem foldl_of_leaves {events : List Event} (h : ∀ event ∈ events, Leaves event) (now : ℤ)
    (fd : Timerfd) : events.foldl (record now) fd = fd := by
  induction events with
  | nil => rfl
  | cons event rest ih =>
      obtain ⟨hevent, hrest⟩ := List.forall_mem_cons.1 h
      rw [List.foldl_cons, hevent, ih hrest]

end Timerfd

namespace TimerSystem

open TimerQueue Timerfd

/-! ## Queue, timerfd and clock -/

structure Timed where
  system : System := {}
  timerfd : Timerfd := {}
  now : ℤ

inductive TimedLabel
  | step (label : Label)
  | elapse (n : ℕ)
  deriving DecidableEq, Repr

/-- The clock readings of a step. -/
def ReadsClock (now : ℤ) : Label → Prop
  | .addTimerInLoop _ clock => clock = now
  | .addTimer _ _ _ _ clock => clock = now
  | .handleRead reading => reading = now
  | .reset clock => clock = now
  | _ => True

def Timed.elapse (p : Timed) (n : ℕ) : Timed :=
  { p with timerfd := p.timerfd.elapse (p.now + n), now := p.now + n }

/-- A step of the loop or of another thread takes no time.  The loop may handle the timerfd at
any time: `epoll_wait` has reported an expiration that was taken back since. -/
def TimedStep (p : Timed) : TimedLabel → Timed → Prop
  | .step label, q => Step p.system label q.system ∧ ReadsClock p.now label ∧ q.now = p.now ∧
      q.timerfd = (since p.system q.system).foldl (record p.now) p.timerfd
  | .elapse n, q => q = p.elapse n

/-- The timerfd expires in time for what the queue has armed it for. -/
def Linked (q : TimerQueue) (fd : Timerfd) (now : ℤ) : Prop :=
  ∀ armed, q.armedFor = some armed →
    fd.readable = true ∨ ∃ deadline, fd.deadline = some deadline ∧ deadline ≤ max armed (now + 100)

section Linked

variable {q q' : TimerQueue} {fd : Timerfd} {now : ℤ}

theorem Linked.of_eq (h : Linked q fd now) (harmed : q'.armedFor = q.armedFor) :
    Linked q' fd now :=
  fun armed hsome => h armed (harmed ▸ hsome)

/-- The queue does something that leaves the timerfd alone. -/
theorem Linked.of_leaves (h : Linked q fd now) (harmed : q'.armedFor = q.armedFor)
    {events : List Event} (hleaves : ∀ event ∈ events, Leaves event) :
    Linked q' (events.foldl (record now) fd) now := by
  rw [foldl_of_leaves hleaves]
  exact h.of_eq harmed

/-- The queue does something and then arms the timerfd. -/
theorem linked_resetTimerfd (q : TimerQueue) (fd : Timerfd) (expiration now : ℤ)
    (events : List Event) : Linked (q.resetTimerfd expiration now)
      ((events ++ [Event.armed expiration now (howMuchTimeFromNow expiration now)]).foldl
        (record now) fd) now := by
  rintro armed ⟨⟩
  refine .inr ⟨now + max 100 (expiration - now), ?_, ?_⟩
  · rw [List.foldl_append, ← microseconds_howMuchTimeFromNow]
    rfl
  · omega

theorem linked_timerAdded (h : Linked q fd now) (timer : ℕ) (object : Timer) :
    ∃ events, (q.timerAdded timer object now).trace = q.trace ++ events ∧
      Linked (q.timerAdded timer object now) (events.foldl (record now) fd) now := by
  unfold timerAdded
  dsimp only
  split_ifs
  · refine ⟨[.added timer object] ++ [.armed _ _ _], ?_, linked_resetTimerfd _ fd _ now _⟩
    simp [resetTimerfd, emit, inserted]
  · refine ⟨[.added timer object], rfl, h.of_leaves rfl ?_⟩
    exact List.forall_mem_singleton.2 fun _ _ => rfl

theorem trace_resetMembers_leaves (q : TimerQueue) (now : ℤ) (held : List (ℕ × Timer)) :
    ∃ events, (q.resetMembers now held).trace = q.trace ++ events ∧
      ∀ event ∈ events, Leaves event := by
  induction held generalizing q with
  | nil => exact ⟨[], (List.append_nil _).symm, by simp⟩
  | cons member rest ih =>
      obtain ⟨events, htrace, hleaves⟩ := ih (q.resetMember now member)
      have hmember : ∃ events, (q.resetMember now member).trace = q.trace ++ events ∧
          ∀ event ∈ events, Leaves event := by
        unfold resetMember
        split_ifs
        · exact ⟨[], (List.append_nil _).symm, by simp⟩
        · exact ⟨[.deleted _ _ _ _], rfl, List.forall_mem_singleton.2 fun _ _ => rfl⟩
      obtain ⟨first, htrace', hleaves'⟩ := hmember
      refine ⟨first ++ events, ?_, List.forall_mem_append.2 ⟨hleaves', hleaves⟩⟩
      rw [resetMembers_cons, htrace, htrace', List.append_assoc]

theorem linked_reset (h : Linked q fd now) (batchNow : ℤ) (held : List (ℕ × Timer)) :
    ∃ events, ((q.resetMembers batchNow held).rearmed now).trace = q.trace ++ events ∧
      Linked ((q.resetMembers batchNow held).rearmed now) (events.foldl (record now) fd) now := by
  obtain ⟨events, htrace, hleaves⟩ := trace_resetMembers_leaves q batchNow held
  have hsame : ∃ events, (q.resetMembers batchNow held).trace = q.trace ++ events ∧
      Linked (q.resetMembers batchNow held) (events.foldl (record now) fd) now :=
    ⟨events, htrace, h.of_leaves (resetMembers_armedFor _ _ _) hleaves⟩
  unfold rearmed
  split
  · exact hsame
  · split_ifs
    · refine ⟨events ++ [.armed _ _ _], ?_, linked_resetTimerfd _ fd _ now _⟩
      rw [← List.append_assoc, ← htrace]
      rfl
    · exact hsame

/-- Time passes. -/
theorem Linked.elapse (h : Linked q fd now) (n : ℕ) :
    Linked q (fd.elapse (now + n)) (now + n) := by
  intro armed harmed
  unfold Timerfd.elapse
  split_ifs
  · exact .inl rfl
  · refine (h armed harmed).imp_right ?_
    rintro ⟨deadline, hdeadline, hle⟩
    exact ⟨deadline, hdeadline, hle.trans (by omega)⟩

theorem linked_outcome {s t : System} {label : Label} (h : Linked s.queue fd now)
    (houtcome : Outcome s label t) (hclock : ReadsClock now label) :
    Linked t.queue ((since s t).foldl (record now) fd) now := by
  have hleft : ∀ {events : List Event}, t.queue.trace = s.queue.trace ++ events →
      t.queue.armedFor = s.queue.armedFor → (∀ event ∈ events, Leaves event) →
        Linked t.queue ((since s t).foldl (record now) fd) now := by
    intro events htrace harmed hleaves
    rw [since_eq htrace]
    exact h.of_leaves harmed hleaves
  cases houtcome with
  | newTimer timer when interval repeats hfree hrange =>
      exact hleft (List.append_nil _).symm rfl (by simp)
  | addTimerInLoop timer clock object hidle hwaiting hheap =>
      obtain rfl : clock = now := hclock
      obtain ⟨events, htrace, hlinked⟩ := linked_timerAdded h timer object
      rw [since_eq htrace]
      exact hlinked
  | addTimer timer when interval repeats clock hfree hrange =>
      obtain rfl : clock = now := hclock
      have hcreated : Linked (s.queue.newTimer timer when interval repeats) fd clock := h.of_eq rfl
      obtain ⟨events, htrace, hlinked⟩ := linked_timerAdded hcreated timer
        ⟨when, interval, repeats, s.queue.numCreated + 1⟩
      rw [since_eq htrace]
      exact hlinked
  | cancelActive id object hpending hsequence =>
      refine hleft rfl rfl ?_
      simp only [List.forall_mem_cons]
      exact ⟨fun _ _ => rfl, fun _ _ => rfl, by simp⟩
  | cancelAbsent id habsent hissued =>
      exact hleft rfl rfl (List.forall_mem_singleton.2 fun _ _ => rfl)
  | handleRead reading hidle =>
      rintro armed ⟨⟩
  | runTimer b member rest hbatch htodo hmember =>
      exact hleft rfl rfl (List.forall_mem_singleton.2 fun _ _ => rfl)
  | reset clock b hbatch htodo =>
      obtain rfl : clock = now := hclock
      have hcalled : Linked { s.queue with callingExpiredTimers := false } fd clock := h.of_eq rfl
      obtain ⟨events, htrace, hlinked⟩ := linked_reset hcalled b.now b.members
      rw [since_eq htrace]
      exact hlinked

end Linked

/-! ## Runs -/

/-- What holds at any time: the timerfd will expire for the timers that wait, and no callback
has run too early. -/
structure Watched (p : Timed) : Prop where
  sound : Sound p.system
  timely : Timely p.system
  linked : Linked p.system.queue p.timerfd p.now
  now_pos : 0 < p.now
  ran_due : ∀ ran ∈ ranIn p.system.queue.trace, ran.2.expiration ≤ p.now
  batch_due : ∀ member ∈ p.system.held, member.2.expiration ≤ p.now

section Watched

variable {p q : Timed}

theorem clockPositive_of_readsClock {s : System} {now : ℤ} {label : Label} (hpos : 0 < now)
    (hclock : ReadsClock now label) : ClockPositive s label := by
  cases label with
  | addTimerInLoop timer clock => exact hclock.symm ▸ hpos
  | addTimer timer when interval repeats clock => exact hclock.symm ▸ hpos
  | handleRead reading => exact hclock.symm ▸ hpos
  | reset clock => exact hclock.symm ▸ hpos
  | _ => trivial

/-- A batch takes timers that are due. -/
theorem held_outcome {s t : System} {label : Label} {now : ℤ} (hs : Sound s)
    (houtcome : Outcome s label t) (hclock : ReadsClock now label)
    (hdue : ∀ member ∈ s.held, member.2.expiration ≤ now) :
    ∀ member ∈ t.held, member.2.expiration ≤ now := by
  cases houtcome with
  | handleRead reading hidle =>
      obtain rfl : reading = now := hclock
      rintro ⟨timer, object⟩ hmember
      exact ((mem_members hs.intact.consistent hs.intact.allocated).1 hmember).2
  | runTimer b member rest hbatch htodo hmember =>
      rw [System.held_eq hbatch] at hdue
      exact hdue
  | reset clock b hbatch htodo => simp [System.held]
  | _ => exact hdue

/-- The callbacks that run are those of the batch. -/
theorem ran_outcome {s t : System} {label : Label} (hs : Sound s) (houtcome : Outcome s label t)
    {ran : ℕ × Timer} (hran : ran ∈ ranIn t.queue.trace) :
    ran ∈ ranIn s.queue.trace ∨ ran ∈ s.held := by
  obtain ⟨more, htrace, hmore⟩ := outcome_trace hs houtcome
  rw [htrace, ranIn_append] at hran
  rcases List.mem_append.1 hran with hold | hnew
  · exact .inl hold
  · have hlabel := (hmore ran hnew).1
    cases houtcome with
    | runTimer b member rest hbatch htodo hmember =>
        rw [← List.append_cancel_left htrace] at hnew
        rw [System.held_eq hbatch, List.mem_singleton.1 hnew]
        exact .inr hmember
    | _ => nomatch hlabel

theorem Watched.step (h : Watched p) {label : TimedLabel} (hstep : TimedStep p label q) :
    Watched q := by
  cases label with
  | elapse n =>
      obtain rfl := hstep
      have hlater : p.now ≤ (p.elapse n).now := by
        dsimp only [Timed.elapse]
        omega
      exact ⟨h.sound, h.timely, h.linked.elapse n, h.now_pos.trans_le hlater,
        fun ran hran => (h.ran_due ran hran).trans hlater,
        fun member hmember => (h.batch_due member hmember).trans hlater⟩
  | step label =>
      obtain ⟨hinner, hclock, hnow, hfd⟩ := hstep
      have houtcome := outcome_of_step h.sound hinner
      refine ⟨sound_outcome h.sound houtcome, timely_outcome h.timely houtcome
        (clockPositive_of_readsClock h.now_pos hclock), ?_, hnow ▸ h.now_pos, ?_, ?_⟩
      · rw [hfd, hnow]
        exact linked_outcome h.linked houtcome hclock
      · intro ran hran
        rw [hnow]
        exact (ran_outcome h.sound houtcome hran).elim (h.ran_due ran) (h.batch_due ran)
      · rw [hnow]
        exact held_outcome h.sound houtcome hclock h.batch_due

theorem initial_watched {now : ℤ} (hnow : 0 < now) : Watched { now := now } where
  sound := initial_sound
  timely := ⟨by simp, by simp, by simp [ArmedFromNow]⟩
  linked := by rintro armed ⟨⟩
  now_pos := hnow
  ran_due := by simp [ranIn]
  batch_due := by simp [System.held]

theorem run_watched {start : ℤ} (hstart : 0 < start) {labels : List TimedLabel}
    (hrun : Run TimedStep { now := start } labels p) : Watched p :=
  hrun.invariant (initial_watched hstart) fun _ _ _ h hstep => h.step hstep

/-- A pending timer makes the timerfd readable once it is due and 100 microseconds have passed. -/
theorem Watched.readable (h : Watched p) (hidle : p.system.batch = none) {timer : ℕ}
    {object : Timer} (hpending : p.system.queue.Pending timer object) {n : ℕ}
    (hlate : max object.expiration (p.now + 100) ≤ p.now + n) :
    (p.elapse n).timerfd.readable = true := by
  obtain ⟨armed, harmed, hle⟩ := h.timely.armed ⟨object.expiration, timer⟩
    (hpending.entry_mem h.sound.intact.consistent) (.inl hidle)
  dsimp only [Timed.elapse, Timerfd.elapse]
  rcases h.linked armed harmed with hreadable | ⟨deadline, hdeadline, hsoon⟩
  · split_ifs
    · rfl
    · exact hreadable
  · rw [if_pos ⟨deadline, hdeadline, by dsimp only at hle; omega⟩]

end Watched

/-- No callback ever starts before its timer expires.  And no timer waits for long: at any
moment outside `handleRead` a pending timer makes the timerfd readable as soon as it has
expired and 100 microseconds have passed, and the `handleRead` of this moment then has the
timer in its batch. -/
theorem timers_on_time (start : ℤ) (hstart : 0 < start) (labels : List TimedLabel) (p : Timed)
    (hrun : Run TimedStep { now := start } labels p) :
    (∀ ran ∈ ranIn p.system.queue.trace, ran.2.expiration ≤ p.now) ∧
    ∀ timer object, p.system.batch = none → p.system.queue.Pending timer object →
      ∀ n : ℕ, max object.expiration (p.now + 100) ≤ p.now + n →
        (p.elapse n).timerfd.readable = true ∧
        ∃ q b, TimedStep (p.elapse n) (.step (.handleRead (p.elapse n).now)) q ∧
          q.system.batch = some b ∧ ⟨object.expiration, timer⟩ ∈ b.todo := by
  have h := run_watched hstart hrun
  refine ⟨h.ran_due, fun timer object hidle hpending n hlate =>
    ⟨h.readable hidle hpending hlate, ?_⟩⟩
  have hconsistent := h.sound.intact.consistent
  have henabled : Enabled p.system (.handleRead (p.elapse n).now) := hidle
  obtain ⟨t, hexec, houtcome⟩ := exec_outcome h.sound henabled
  refine ⟨⟨t, (since p.system t).foldl (record (p.elapse n).now) (p.elapse n).timerfd,
    (p.elapse n).now⟩, ?_⟩
  cases houtcome with
  | handleRead now _ =>
      refine ⟨_, ⟨⟨hidle, hexec⟩, rfl, rfl, rfl⟩, rfl, ?_⟩
      refine (mem_due hconsistent h.sound.intact.allocated).2
        ⟨hpending.entry_mem hconsistent, ?_⟩
      dsimp only [Timed.elapse]
      omega

/-- A timer for time 1000, added at time 1. -/
def oneTimed : Timed :=
  ⟨oneTimer, (since {} oneTimer).foldl (record 1) {}, 1⟩

theorem timers_on_time_one : (oneTimed.elapse 999).timerfd.readable = true := by
  have hrun : Run TimedStep { now := 1 } [.step (.addTimer 16 1000 0 false 1)] oneTimed :=
    .single ⟨step_oneTimer, rfl, rfl, rfl⟩
  have hpending : oneTimer.queue.Pending 16 ⟨1000, 0, false, 1⟩ := by
    simp [oneTimer, Pending, TimerQueue.newTimer]
  exact ((timers_on_time 1 (by decide) _ _ hrun).2 16 ⟨1000, 0, false, 1⟩ rfl hpending 999
    (by decide)).1

end TimerSystem

end MuduoLite
