import MuduoLite.Timer.Expiry

/-!
# What a cancel does at once

A timer that is cancelled while it is pending is deleted.  One that is in the batch in
progress is only noted in `cancelingTimers_`, which `reset` looks at but the loop of
`handleRead` does not.  So its callback still starts when it has not started yet
(`ToRun`), and in every other case it never starts again (`NeverStarts`).

A timer of the batch that waits for its turn is reached, because no step fails: the loop
runs the timers in front of it and then the timer itself.
-/

namespace MuduoLite

open Transition OrderedSet

namespace TimerSystem

open TimerQueue

/-- The batch in progress has the timer and has not started its callback. -/
def ToRun (id : TimerId) (s : System) : Prop :=
  ∃ b, s.batch = some b ∧
    ∃ member ∈ b.members, member.2.sequence = id.sequence ∧ entryOf member ∈ b.todo

/-- No run that goes on from `s` starts the callback of the timer. -/
def NeverStarts (id : TimerId) (s : System) : Prop :=
  ∀ later last, Run Step s later last → ∀ ran ∈ ranIn (since s last), ran.2.sequence ≠ id.sequence

section Cancel

variable {s t : System} {label : Label} {id : TimerId}

/-! ## Timers that have been inserted -/

/-- What a step adds is pending after it. -/
theorem outcome_added (houtcome : Outcome s label t) {added : ℕ × Timer}
    (hmem : added ∈ addedIn t.queue.trace) :
    added ∈ addedIn s.queue.trace ∨ t.queue.Pending added.1 added.2 := by
  have hsilent {events : List Event} (htrace : t.queue.trace = s.queue.trace ++ events)
      (hnone : addedIn events = []) : added ∈ addedIn s.queue.trace := by
    rwa [htrace, addedIn_append, hnone, List.append_nil] at hmem
  have hinserted {q : TimerQueue} {timer : ℕ} {object : Timer} {clock : ℤ}
      (hheap : q.heap timer = some object) (htrace : q.trace = s.queue.trace)
      (hqueue : t.queue = q.timerAdded timer object clock) :
      added ∈ addedIn s.queue.trace ∨ t.queue.Pending added.1 added.2 := by
    obtain ⟨armings, harmings, hadded⟩ := trace_timerAdded q timer object clock
    rw [hqueue, hadded, htrace, ← List.singleton_append, addedIn_append, addedIn_append,
      harmings.added, List.append_nil] at hmem
    rcases List.mem_append.1 hmem with hold | hnew
    · exact .inl hold
    · rw [List.mem_singleton.1 hnew, hqueue]
      exact .inr ((pending_timerAdded hheap).2 (.inr ⟨rfl, rfl⟩))
  cases houtcome with
  | newTimer timer when interval repeats hfree hrange =>
      exact .inl (hsilent (List.append_nil _).symm rfl)
  | addTimerInLoop timer clock object hidle hwaiting hheap => exact hinserted hheap rfl rfl
  | addTimer timer when interval repeats clock hfree hrange =>
      exact hinserted (q := s.queue.newTimer timer when interval repeats)
        (Function.update_self _ _ _) rfl rfl
  | cancelActive cancelled object hpending hsequence =>
      exact .inl (hsilent rfl rfl)
  | cancelAbsent cancelled habsent hissued => exact .inl (hsilent rfl rfl)
  | handleRead now hidle => exact .inl (hsilent rfl rfl)
  | runTimer b member rest hbatch htodo hmember => exact .inl (hsilent rfl rfl)
  | reset clock b hbatch htodo =>
      obtain ⟨events, hevents, htrace⟩ := trace_reset
        { s.queue with callingExpiredTimers := false } b.now b.members clock
      exact .inl (hsilent htrace hevents.added)

/-- Every timer that was added has been inserted. -/
def AllInserted (s : System) : Prop :=
  ∀ added ∈ addedIn s.queue.trace, Inserted ⟨added.1, added.2.sequence⟩ s

theorem AllInserted.outcome (h : AllInserted s) (hs : Sound s) (houtcome : Outcome s label t) :
    AllInserted t := by
  intro added hmem
  rcases outcome_added houtcome hmem with hold | hpending
  · exact (h added hold).outcome hs houtcome
  · exact inserted_of_pending (sound_outcome hs houtcome) hpending rfl

theorem run_allInserted {labels : List Label} (hrun : Run Step {} labels s) :
    Sound s ∧ AllInserted s := by
  refine hrun.invariant (P := fun s => Sound s ∧ AllInserted s)
    ⟨initial_sound, by simp [AllInserted, addedIn]⟩ ?_
  rintro a label b ⟨ha, hinserted⟩ hstep
  have houtcome := outcome_of_step ha hstep
  exact ⟨sound_outcome ha houtcome, hinserted.outcome ha houtcome⟩

/-! ## A cancelled timer that is not waiting for its turn -/

/-- The timer has been cancelled and is not waiting for its turn. -/
structure Silenced (id : TimerId) (s : System) : Prop where
  cancelled : Cancelled id s
  not_toRun : ¬ ToRun id s

theorem Silenced.outcome (h : Silenced id s) (hs : Sound s) (houtcome : Outcome s label t) :
    Silenced id t := by
  refine ⟨h.cancelled.outcome hs houtcome, ?_⟩
  rintro ⟨b, hb, member, hmember, hsequence, htodo⟩
  cases houtcome with
  | handleRead now hidle =>
      -- outside `handleRead` a cancelled timer is gone
      obtain rfl := Option.some.inj hb
      have hpending := (mem_members hs.intact.consistent hs.intact.allocated).1 hmember
      exact (h.cancelled.gone hidle).dead _ _ hpending.1.1 hsequence
  | runTimer b' first rest hbatch htodo' hfirst =>
      obtain rfl := Option.some.inj hb
      exact h.not_toRun ⟨b', hbatch, member, hmember, hsequence,
        htodo' ▸ List.mem_cons_of_mem _ htodo⟩
  | reset clock b' hbatch htodo' => simp at hb
  | _ => exact h.not_toRun ⟨b, hb, member, hmember, hsequence, htodo⟩

/-- A step does not start the callback of a silenced timer. -/
theorem Silenced.ran (h : Silenced id s) (hs : Sound s) (houtcome : Outcome s label t) :
    ∃ more, t.queue.trace = s.queue.trace ++ more ∧
      ∀ ran ∈ ranIn more, ran.2.sequence ≠ id.sequence := by
  obtain ⟨more, htrace, hran⟩ := outcome_trace hs houtcome
  refine ⟨more, htrace, fun ran hmem hsequence => ?_⟩
  obtain ⟨rfl, _⟩ := hran ran hmem
  cases houtcome with
  | runTimer b member rest hbatch htodo hmember =>
      obtain rfl : more = [.ran member.1 member.2] := (List.append_cancel_left htrace).symm
      obtain rfl : ran = member := List.mem_singleton.1 hmem
      exact h.not_toRun ⟨b, hbatch, ran, hmember, hsequence, htodo ▸ List.mem_cons_self⟩

theorem Silenced.neverStarts (h : Silenced id s) (hs : Sound s) : NeverStarts id s := by
  intro later last hrun
  have hlast : Sound last ∧ Silenced id last ∧ ∃ more,
      last.queue.trace = s.queue.trace ++ more ∧
        ∀ ran ∈ ranIn more, ran.2.sequence ≠ id.sequence := by
    refine hrun.invariant (P := fun t => Sound t ∧ Silenced id t ∧
      ∃ more, t.queue.trace = s.queue.trace ++ more ∧
        ∀ ran ∈ ranIn more, ran.2.sequence ≠ id.sequence)
      ⟨hs, h, [], (List.append_nil _).symm, by simp [ranIn]⟩ ?_
    rintro a label b ⟨ha, hsilenced, more, htrace, hmore⟩ hstep
    have houtcome := outcome_of_step ha hstep
    obtain ⟨events, hevents, hran⟩ := hsilenced.ran ha houtcome
    refine ⟨sound_outcome ha houtcome, hsilenced.outcome ha houtcome, more ++ events, ?_, ?_⟩
    · rw [hevents, htrace, List.append_assoc]
    · intro ran hmem
      rw [ranIn_append] at hmem
      exact (List.mem_append.1 hmem).elim (hmore ran) (hran ran)
  obtain ⟨_, _, more, htrace, hmore⟩ := hlast
  rwa [since_eq htrace]

/-! ## A timer that is waiting for its turn -/

/-- The loop of `handleRead` gets to the timer. -/
theorem exists_run_of_toRun (hs : Sound s) (h : ToRun id s) :
    ∃ later last more, Run Step s later last ∧ last.queue.trace = s.queue.trace ++ more ∧
      ∃ ran ∈ ranIn more, ran.2.sequence = id.sequence := by
  obtain ⟨b, hbatch, member, hmember, hsequence, hmem⟩ := h
  obtain ⟨todo, htodo⟩ : ∃ todo, b.todo = todo := ⟨_, rfl⟩
  rw [htodo] at hmem
  -- by induction on the timers whose callbacks have not started
  induction todo generalizing s b with
  | nil => simp at hmem
  | cons first rest ih =>
      have henabled : Enabled s .runTimer := ⟨b, hbatch, by simp [htodo]⟩
      obtain ⟨t, hexec, houtcome⟩ := exec_outcome hs henabled
      have hstep : Step s .runTimer t := ⟨henabled, hexec⟩
      have ht := sound_step hs hstep
      cases houtcome with
      | runTimer b' running rest' hbatch' htodo' hrunning =>
          obtain rfl : b' = b := Option.some.inj (hbatch'.symm.trans hbatch)
          obtain ⟨rfl, rfl⟩ : first = entryOf running ∧ rest = rest' :=
            List.cons.inj (htodo.symm.trans htodo')
          rcases List.mem_cons.1 hmem with hfirst | hrest
          · -- it is the turn of the timer
            have hholds : Holds s.queue b'.members := System.held_eq hbatch ▸ hs.intact.owned.holds
            have hsame : running = member :=
              List.inj_on_of_nodup_map hholds.nodup hrunning hmember
                (congrArg Entry.timer hfirst).symm
            subst hsame
            exact ⟨_, _, [.ran running.1 running.2], Run.single hstep, rfl, running,
              List.mem_singleton_self _, hsequence⟩
          · obtain ⟨later, last, more, hrun, htrace, ran, hran, hseq⟩ :=
              ih ht { b' with todo := rest } rfl hmember hrest rfl
            refine ⟨_, last, .ran running.1 running.2 :: more, (Run.single hstep).append hrun, ?_,
              ran, ?_, hseq⟩
            · rw [htrace]
              exact List.append_assoc _ _ _
            · rw [← List.singleton_append, ranIn_append]
              exact List.mem_append_right _ hran

theorem not_neverStarts_of_toRun (hs : Sound s) (h : ToRun id s) : ¬ NeverStarts id s := by
  intro hnever
  obtain ⟨later, last, more, hrun, htrace, ran, hran, hsequence⟩ := exists_run_of_toRun hs h
  refine hnever later last hrun ran ?_ hsequence
  rwa [since_eq htrace]

end Cancel

/-- From every reachable state, a cancel of a timer that has been added keeps its
callback from ever starting again, unless the timer is in the batch in progress and
waits for its turn. -/
theorem cancel_at_once (labels : List Label) (s : System) (hrun : Run Step {} labels s)
    (id : TimerId) (object : Timer) (hadded : (id.timer, object) ∈ addedIn s.queue.trace)
    (hsequence : object.sequence = id.sequence) (t : System)
    (hcancel : Step s (.cancelInLoop id) t) : NeverStarts id t ↔ ¬ ToRun id s := by
  obtain ⟨hs, hall⟩ := run_allInserted hrun
  have hinserted : Inserted id s := by
    have hid : (⟨id.timer, object.sequence⟩ : TimerId) = id := by rw [hsequence]
    exact hid ▸ hall _ hadded
  have houtcome := outcome_of_step hs hcancel
  have ht := sound_outcome hs houtcome
  -- a cancel leaves the batch alone
  have hbatch : ToRun id t ↔ ToRun id s := by
    cases houtcome <;> exact Iff.rfl
  constructor
  · intro hnever htoRun
    exact not_neverStarts_of_toRun ht (hbatch.2 htoRun) hnever
  · intro hnot
    have hsilenced : Silenced id t := ⟨hinserted.cancel hs houtcome, fun h => hnot (hbatch.1 h)⟩
    exact hsilenced.neverStarts ht

theorem mem_addedIn_timerAdded (q : TimerQueue) (timer : ℕ) (object : Timer) (clock : ℤ) :
    (timer, object) ∈ addedIn (q.timerAdded timer object clock).trace := by
  obtain ⟨armings, _, htrace⟩ := trace_timerAdded q timer object clock
  rw [htrace, addedIn_append]
  exact List.mem_append_right _ List.mem_cons_self

/-- A pending timer is cancelled. -/
theorem cancel_at_once_one :
    ∃ cancelled, Step oneTimer (.cancelInLoop ⟨16, 1⟩) cancelled ∧
      NeverStarts ⟨16, 1⟩ cancelled := by
  have hrun := Run.single step_oneTimer
  have henabled : Enabled oneTimer (.cancelInLoop ⟨16, 1⟩) := by
    simp [Enabled, oneTimer, TimerQueue.newTimer]
  obtain ⟨cancelled, hexec, _⟩ := exec_outcome (run_sound hrun) henabled
  have hcancel : Step oneTimer (.cancelInLoop ⟨16, 1⟩) cancelled := ⟨henabled, hexec⟩
  have hidle : ¬ ToRun ⟨16, 1⟩ oneTimer := by
    rintro ⟨b, hb, _⟩
    simp [oneTimer] at hb
  exact ⟨cancelled, hcancel, (cancel_at_once _ _ hrun ⟨16, 1⟩ ⟨1000, 0, false, 1⟩
    (mem_addedIn_timerAdded _ _ _ _) rfl _ hcancel).2 hidle⟩

/-! ## Two timers that are due at the same time -/

theorem mem_members_twoTimers : (17, ⟨1000, 500, true, 2⟩) ∈ twoTimers.queue.members 2000 := by
  have hsound := run_sound ((Run.single step_oneTimer).snoc step_twoTimers)
  refine (mem_members hsound.intact.consistent hsound.intact.allocated).2 ⟨⟨?_, ?_⟩, by decide⟩
  · simp [twoTimers, oneTimer, TimerQueue.newTimer]
  · simp [twoTimers, oneTimer]

/-- The callback of the first timer is running. -/
theorem run_first_of_two : ∃ labels running, Run Step {} labels running ∧
    Enabled running (.cancelInLoop ⟨17, 2⟩) ∧
    (17, ⟨1000, 500, true, 2⟩) ∈ addedIn running.queue.trace ∧ ToRun ⟨17, 2⟩ running := by
  have hrun := (Run.single step_oneTimer).snoc step_twoTimers
  have hread : Enabled twoTimers (.handleRead 2000) := rfl
  obtain ⟨reading, hreading, houtcome⟩ := exec_outcome (run_sound hrun) hread
  have hrun := hrun.snoc ⟨hread, hreading⟩
  cases houtcome with
  | handleRead _ _ =>
      have hfirst : Enabled { twoTimers with
          queue := twoTimers.queue.readTaken 2000
          batch := some ⟨2000, twoTimers.queue.due 2000, twoTimers.queue.due 2000,
            twoTimers.queue.members 2000⟩ } .runTimer := ⟨_, rfl, by simp [due_twoTimers]⟩
      obtain ⟨running, hrunning, houtcome⟩ := exec_outcome (run_sound hrun) hfirst
      refine ⟨_, running, hrun.snoc ⟨hfirst, hrunning⟩, ?_⟩
      cases houtcome with
      | runTimer b member rest hbatch htodo hmember =>
          obtain rfl := Option.some.inj hbatch
          obtain ⟨_, rfl⟩ := List.cons.inj (due_twoTimers.symm.trans htodo)
          refine ⟨?_, ?_, _, rfl, _, mem_members_twoTimers, rfl, by simp [entryOf]⟩
          · have hcreated : twoTimers.queue.numCreated = 2 := by
              simp [twoTimers, oneTimer, TimerQueue.newTimer]
            exact hcreated.ge
          · have hadded := mem_addedIn_timerAdded (oneTimer.queue.newTimer 17 1000 500 true) 17
              ⟨1000, 500, true, 2⟩ 1
            exact (addedIn_append _ _).symm ▸ List.mem_append_left _
              ((addedIn_append _ _).symm ▸ List.mem_append_left _ hadded)

/-- That callback cancels the second timer, whose callback still starts. -/
theorem cancelled_timer_starts :
    ¬ ∀ (labels : List Label) (s : System), Run Step {} labels s → ∀ (id : TimerId)
      (object : Timer), (id.timer, object) ∈ addedIn s.queue.trace →
        object.sequence = id.sequence → ∀ t, Step s (.cancelInLoop id) t → NeverStarts id t := by
  intro hclaim
  obtain ⟨labels, running, hrun, henabled, hadded, htoRun⟩ := run_first_of_two
  have hsound := run_sound hrun
  obtain ⟨cancelled, hexec, houtcome⟩ := exec_outcome hsound henabled
  have hnever := hclaim labels running hrun ⟨17, 2⟩ _ hadded rfl cancelled ⟨henabled, hexec⟩
  have hstill : ToRun ⟨17, 2⟩ cancelled := by
    cases houtcome <;> exact htoRun
  exact not_neverStarts_of_toRun (sound_outcome hsound houtcome) hstill hnever

end TimerSystem

end MuduoLite
