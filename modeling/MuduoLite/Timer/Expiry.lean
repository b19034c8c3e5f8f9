import MuduoLite.Timer.Batch

/-!
# The due timers fire

The statements about whole runs follow a timer by its sequence.  A sequence that
has no live timer never gets one again, and a callback that runs is that of a
live timer.  So what remains is to see where a timer still lives after its
callback has run, or after it was cancelled: only in the batch in progress.
-/

namespace MuduoLite

open Transition OrderedSet

namespace TimerSystem

open TimerQueue

/-! ## Following a timer through a run -/

section Follow

variable {s t : System} {label : Label} {id : TimerId}

theorem outcome_created (houtcome : Outcome s label t) :
    s.queue.numCreated ≤ t.queue.numCreated := by
  cases houtcome with
  | newTimer timer when interval repeats hfree hrange => exact Nat.le_succ _
  | addTimer timer when interval repeats clock hfree hrange =>
      rw [timerAdded_numCreated]
      exact Nat.le_succ _
  | addTimerInLoop timer clock object hidle hwaiting hheap => rw [timerAdded_numCreated]
  | reset clock b hbatch htodo => simp
  | _ => exact le_rfl

/-- A live timer was there before the step, or its sequence is new. -/
theorem outcome_heap (hs : Sound s) (houtcome : Outcome s label t) {timer : ℕ} {object : Timer}
    (hheap : t.queue.heap timer = some object) :
    (∃ old, s.queue.heap timer = some old ∧ old.sequence = object.sequence) ∨
      s.queue.numCreated < object.sequence := by
  have hnew : ∀ other when interval repeats,
      (s.queue.newTimer other when interval repeats).heap timer = some object →
        (∃ old, s.queue.heap timer = some old ∧ old.sequence = object.sequence) ∨
          s.queue.numCreated < object.sequence := by
    intro other when interval repeats hcreated
    simp only [TimerQueue.newTimer, Function.update_apply] at hcreated
    split_ifs at hcreated
    · rw [← Option.some.inj hcreated]
      exact .inr (Nat.lt_succ_self _)
    · exact .inl ⟨object, hcreated, rfl⟩
  cases houtcome with
  | newTimer other when interval repeats hfree hrange => exact hnew _ _ _ _ hheap
  | addTimerInLoop other clock added hidle hwaiting hadded =>
      rw [timerAdded_heap] at hheap
      exact .inl ⟨object, hheap, rfl⟩
  | addTimer other when interval repeats clock hfree hrange =>
      rw [timerAdded_heap] at hheap
      exact hnew _ _ _ _ hheap
  | cancelActive cancelled old hpending hsequence =>
      simp only [activeCancelled, Function.update_apply] at hheap
      split_ifs at hheap
      exact .inl ⟨object, hheap, rfl⟩
  | reset clock b hbatch htodo =>
      rw [rearmed_heap] at hheap
      rcases heap_resetMembers hheap with ⟨hold, _⟩ | ⟨member, hmember, _, rfl, rfl⟩
      · exact .inl ⟨object, hold, rfl⟩
      · exact .inl ⟨member.2, hs.intact.held_live (System.held_eq hbatch ▸ hmember), rfl⟩
  | _ => exact .inl ⟨object, hheap, rfl⟩

/-- A callback that runs is that of a live timer. -/
theorem outcome_trace (hs : Sound s) (houtcome : Outcome s label t) :
    ∃ more, t.queue.trace = s.queue.trace ++ more ∧
      ∀ ran ∈ ranIn more, label = .runTimer ∧ s.queue.heap ran.1 = some ran.2 := by
  have hquiet : ∀ {more : List Event}, t.queue.trace = s.queue.trace ++ more → ranIn more = [] →
      ∃ more, t.queue.trace = s.queue.trace ++ more ∧
        ∀ ran ∈ ranIn more, label = .runTimer ∧ s.queue.heap ran.1 = some ran.2 :=
    fun htrace hran => ⟨_, htrace, by simp [hran]⟩
  cases houtcome with
  | newTimer timer when interval repeats hfree hrange =>
      exact hquiet (List.append_nil _).symm rfl
  | addTimerInLoop timer clock object hidle hwaiting hheap =>
      obtain ⟨armings, hsilent, htrace⟩ := trace_timerAdded s.queue timer object clock
      exact hquiet htrace hsilent.ran
  | addTimer timer when interval repeats clock hfree hrange =>
      obtain ⟨armings, hsilent, htrace⟩ := trace_timerAdded
        (s.queue.newTimer timer when interval repeats) timer _ clock
      exact hquiet htrace hsilent.ran
  | cancelActive id object hpending hsequence => exact hquiet rfl rfl
  | cancelAbsent id habsent hissued => exact hquiet rfl rfl
  | handleRead now hidle => exact hquiet rfl rfl
  | runTimer b member rest hbatch htodo hmember =>
      refine ⟨[.ran member.1 member.2], rfl, ?_⟩
      intro ran hran
      rw [List.mem_singleton.1 hran]
      exact ⟨rfl, hs.intact.held_live (System.held_eq hbatch ▸ hmember)⟩
  | reset clock b hbatch htodo =>
      obtain ⟨events, hevents, htrace⟩ := trace_reset
        { s.queue with callingExpiredTimers := false } b.now b.members clock
      exact hquiet htrace hevents.ran

/-- No live timer has the sequence, and none will. -/
structure Gone (sequence : ℕ) (s : System) : Prop where
  created : sequence ≤ s.queue.numCreated
  dead : ∀ timer object, s.queue.heap timer = some object → object.sequence ≠ sequence

theorem Gone.outcome {sequence : ℕ} (h : Gone sequence s) (hs : Sound s)
    (houtcome : Outcome s label t) : Gone sequence t := by
  refine ⟨h.created.trans (outcome_created houtcome), fun timer object hheap heq => ?_⟩
  rcases outcome_heap hs houtcome hheap with ⟨old, hold, hsequence⟩ | hnew
  · exact h.dead timer old hold (hsequence.trans heq)
  · have hle := h.created
    omega

/-- The timer `id` has been inserted and cancelled: only a batch in progress may
still hold it, and it knows. -/
structure Cancelled (id : TimerId) (s : System) : Prop where
  created : id.sequence ≤ s.queue.numCreated
  noted : ∀ timer object, s.queue.heap timer = some object → object.sequence = id.sequence →
    (timer, object) ∈ s.held ∧ (timer, id.sequence) ∈ s.queue.cancelingTimers

theorem Cancelled.gone (h : Cancelled id s) (hidle : s.batch = none) : Gone id.sequence s := by
  refine ⟨h.created, fun timer object hheap heq => ?_⟩
  have hheld := (h.noted timer object hheap heq).1
  simp [System.held, hidle] at hheld

/-- The timer `id` has been inserted. -/
structure Inserted (id : TimerId) (s : System) : Prop where
  created : id.sequence ≤ s.queue.numCreated
  at_timer : ∀ timer object, s.queue.heap timer = some object → object.sequence = id.sequence →
    timer = id.timer ∧ timer ∉ s.waiting

theorem inserted_of_pending (hs : Sound s) {object : Timer}
    (hpending : s.queue.Pending id.timer object) (hsequence : object.sequence = id.sequence) :
    Inserted id s := by
  refine ⟨hsequence ▸ hs.intact.allocated.sequence_le _ _ hpending.1, ?_⟩
  intro timer other hheap heq
  obtain rfl : timer = id.timer := hs.intact.allocated.sequence_inj _ _ _ _ hheap hpending.1
    (heq.trans hsequence.symm)
  exact ⟨rfl, fun hwaiting => hs.intact.owned.waiting_loose _ hwaiting _ hpending.2 rfl⟩

theorem Inserted.outcome (h : Inserted id s) (hs : Sound s) (houtcome : Outcome s label t) :
    Inserted id t := by
  refine ⟨h.created.trans (outcome_created houtcome), fun timer object hheap heq => ?_⟩
  have hcreated := h.created
  obtain ⟨old, hold, hsequence⟩ := (outcome_heap hs houtcome hheap).resolve_right (by omega)
  obtain ⟨htimer, hwaiting⟩ := h.at_timer timer old hold (hsequence.trans heq)
  refine ⟨htimer, ?_⟩
  cases houtcome with
  | newTimer other when interval repeats hfree hrange =>
      refine fun hmem => (List.mem_cons.1 hmem).elim (fun hsame => ?_) hwaiting
      simp [hsame, hfree] at hold
  | addTimerInLoop other clock added hidle hother hadded =>
      exact fun hmem => hwaiting (List.mem_of_mem_erase hmem)
  | _ => exact hwaiting

theorem Inserted.cancel (h : Inserted id s) (hs : Sound s)
    (houtcome : Outcome s (.cancelInLoop id) t) : Cancelled id t := by
  cases houtcome with
  | cancelActive _ object hpending hsequence =>
      refine ⟨h.created, fun timer other hheap heq => ?_⟩
      simp only [activeCancelled, Function.update_apply] at hheap
      split_ifs at hheap with hsame
      exact absurd (h.at_timer timer other hheap heq).1 hsame
  | cancelAbsent _ habsent hissued =>
      refine ⟨h.created, fun timer object hheap heq => ?_⟩
      obtain ⟨rfl, hwaiting⟩ := h.at_timer timer object hheap heq
      have hheld : (id.timer, object) ∈ s.held := by
        rcases hs.intact.owned.covered _ _ hheap with hactive | hheld | hmem
        · exact absurd (heq ▸ hactive) habsent
        · exact hheld
        · exact absurd hmem hwaiting
      have hcalling : s.queue.callingExpiredTimers = true := by
        rw [hs.calling]
        cases hbatch : s.batch with
        | none => simp [System.held, hbatch] at hheld
        | some b => rfl
      have hinsert : (s.queue.absentCancelled id).cancelingTimers =
          Insert.insert (id.timer, id.sequence) s.queue.cancelingTimers := if_pos hcalling
      exact ⟨hheld, by simp [hinsert]⟩

theorem Cancelled.outcome (h : Cancelled id s) (hs : Sound s) (houtcome : Outcome s label t) :
    Cancelled id t := by
  refine ⟨h.created.trans (outcome_created houtcome), fun timer object hheap heq => ?_⟩
  have hcreated := h.created
  cases houtcome with
  -- a new timer has a sequence that no cancel has seen
  | newTimer other when interval repeats hfree hrange =>
      simp only [TimerQueue.newTimer, Function.update_apply] at hheap
      split_ifs at hheap
      · rw [← Option.some.inj hheap] at heq
        dsimp only at heq
        omega
      · exact h.noted timer object hheap heq
  | addTimerInLoop other clock added hidle hwaiting hadded =>
      rw [timerAdded_heap] at hheap
      rw [timerAdded_cancelingTimers]
      exact h.noted timer object hheap heq
  | addTimer other when interval repeats clock hfree hrange =>
      rw [timerAdded_heap] at hheap
      rw [timerAdded_cancelingTimers]
      simp only [TimerQueue.newTimer, Function.update_apply] at hheap ⊢
      split_ifs at hheap
      · rw [← Option.some.inj hheap] at heq
        dsimp only at heq
        omega
      · exact h.noted timer object hheap heq
  | cancelActive other old hpending hsequence =>
      simp only [activeCancelled, Function.update_apply] at hheap
      split_ifs at hheap
      exact h.noted timer object hheap heq
  | cancelAbsent other habsent hissued =>
      obtain ⟨hheld, hmem⟩ := h.noted timer object hheap heq
      refine ⟨hheld, ?_⟩
      unfold absentCancelled
      dsimp only
      split_ifs
      · exact Finset.mem_insert_of_mem hmem
      · exact hmem
  | handleRead now hidle => exact absurd heq ((h.gone hidle).dead timer object hheap)
  | runTimer b member rest hbatch htodo hmember =>
      obtain ⟨hheld, hmem⟩ := h.noted timer object hheap heq
      exact ⟨by rwa [System.held_eq hbatch] at hheld, hmem⟩
  | reset clock b hbatch htodo =>
      rw [rearmed_heap] at hheap
      rcases heap_resetMembers hheap with ⟨hold, hnot⟩ | ⟨member, hmember, hrestarts, rfl, rfl⟩
      · have hheld := (h.noted timer object hold heq).1
        rw [System.held_eq hbatch] at hheld
        exact absurd rfl (hnot _ hheld)
      · -- a noted member is not put back
        have hlive := hs.intact.held_live (System.held_eq hbatch ▸ hmember)
        have hsequence : member.2.sequence = id.sequence := heq
        have hnoted := (h.noted member.1 member.2 hlive hsequence).2
        rw [← hsequence] at hnoted
        exact absurd hnoted hrestarts.2

/-! ### One-shot timers -/

/-- The sequences of the one-shot timers whose callback ran, once for each run. -/
def oneShotsIn (events : List Event) : List ℕ :=
  ((ranIn events).filter fun ran => !ran.2.repeats).map fun ran => ran.2.sequence

/-- A one-shot timer that ran and still lives is one of the batch in progress
whose callback has started. -/
structure OneShots (s : System) : Prop where
  ran_le : ∀ ran ∈ ranIn s.queue.trace, ran.2.sequence ≤ s.queue.numCreated
  once : (oneShotsIn s.queue.trace).Nodup
  ran_started : ∀ timer object, s.queue.heap timer = some object → object.repeats = false →
    (∃ ran ∈ ranIn s.queue.trace, ran.2.sequence = object.sequence) →
      ∃ b, s.batch = some b ∧ (timer, object) ∈ b.members ∧ entryOf (timer, object) ∉ b.todo

/-- Steps that run no callback. -/
theorem OneShots.quiet (h : OneShots s) (houtcome : Outcome s label t)
    (htrace : ranIn t.queue.trace = ranIn s.queue.trace)
    (hstarted : ∀ timer object, t.queue.heap timer = some object → object.repeats = false →
      object.sequence ≤ s.queue.numCreated → s.queue.heap timer = some object ∧
        (s.batch ≠ none → (∀ b, s.batch = some b → (timer, object) ∉ b.members) ∨
          t.batch = s.batch)) : OneShots t := by
  refine ⟨?_, ?_, ?_⟩
  · rw [htrace]
    exact fun ran hran => (h.ran_le ran hran).trans (outcome_created houtcome)
  · rw [oneShotsIn, htrace]
    exact h.once
  · rw [htrace]
    rintro timer object hheap honce ⟨ran, hran, hsequence⟩
    obtain ⟨hold, hbatch⟩ := hstarted timer object hheap honce (hsequence ▸ h.ran_le ran hran)
    obtain ⟨b, hb, hmember, htodo⟩ := h.ran_started timer object hold honce ⟨ran, hran, hsequence⟩
    rcases hbatch (by simp [hb]) with hnot | hsame
    · exact absurd hmember (hnot b hb)
    · exact ⟨b, hsame.trans hb, hmember, htodo⟩

theorem OneShots.runTimer (h : OneShots s) (hs : Sound s) {b : Batch} {member : ℕ × Timer}
    {rest : List Entry} (hbatch : s.batch = some b) (htodo : b.todo = entryOf member :: rest)
    (hmember : member ∈ b.members) :
    OneShots { s with
      queue := s.queue.emit (.ran member.1 member.2)
      batch := some { b with todo := rest } } := by
  have hran : ranIn (s.queue.trace ++ [.ran member.1 member.2]) =
      ranIn s.queue.trace ++ [member] := ranIn_append _ _
  have hlive := hs.intact.held_live (System.held_eq hbatch ▸ hmember)
  -- a callback that has not started has not run
  have hfirst : member.2.repeats = false →
      ∀ ran ∈ ranIn s.queue.trace, ran.2.sequence ≠ member.2.sequence := by
    intro honce ran hmem heq
    obtain ⟨b', hb', _, hnot⟩ := h.ran_started member.1 member.2 hlive honce ⟨ran, hmem, heq⟩
    obtain rfl : b' = b := Option.some.inj (hb'.symm.trans hbatch)
    exact hnot (htodo ▸ List.mem_cons_self)
  have htodo_nodup : (entryOf member :: rest).Nodup := by
    obtain ⟨hexpired, hsuffix⟩ := hs.expired b hbatch
    have hholds : Holds s.queue b.members := System.held_eq hbatch ▸ hs.intact.owned.holds
    have hnodup : (b.members.map entryOf).Nodup :=
      List.Nodup.of_map Entry.timer (by rw [List.map_map]; exact hholds.nodup)
    rw [← htodo]
    exact (hexpired ▸ hnodup).sublist hsuffix.sublist
  refine ⟨?_, ?_, ?_⟩
  all_goals simp only [emit, hran, oneShotsIn]
  · intro ran hmem
    rcases List.mem_append.1 hmem with hold | hnew
    · exact h.ran_le ran hold
    · rw [List.mem_singleton.1 hnew]
      exact hs.intact.allocated.sequence_le _ _ hlive
  · rw [List.filter_append, List.map_append]
    refine List.nodup_append.2 ⟨h.once, ?_, ?_⟩
    · exact List.Nodup.map_on (by simp) ((List.nodup_singleton _).filter _)
    · rintro sequence hold _ hnew rfl
      obtain ⟨ran, hmem, heq⟩ := List.mem_map.1 hold
      obtain ⟨last, hlast, heq'⟩ := List.mem_map.1 hnew
      obtain ⟨hlast_mem, honce⟩ := List.mem_filter.1 hlast
      rw [List.mem_singleton.1 hlast_mem] at honce heq'
      exact hfirst (by simpa using honce) ran (List.mem_filter.1 hmem).1 (heq.trans heq'.symm)
  · rintro timer object hheap honce ⟨ran, hmem, heq⟩
    refine ⟨_, rfl, ?_⟩
    rcases List.mem_append.1 hmem with hold | hnew
    · obtain ⟨b', hb', hmember', hnot⟩ := h.ran_started timer object hheap honce ⟨ran, hold, heq⟩
      obtain rfl : b' = b := Option.some.inj (hb'.symm.trans hbatch)
      exact ⟨hmember', fun hrest => hnot (htodo ▸ List.mem_cons_of_mem _ hrest)⟩
    · rw [List.mem_singleton.1 hnew] at heq
      obtain rfl := hs.intact.allocated.sequence_inj _ _ _ _ hlive hheap heq
      obtain rfl : object = member.2 := Option.some.inj (hheap.symm.trans hlive)
      exact ⟨hmember, (List.nodup_cons.1 htodo_nodup).1⟩

theorem oneShots_outcome (h : OneShots s) (hs : Sound s) (houtcome : Outcome s label t) :
    OneShots t := by
  have hran {more : List Event} (htrace : t.queue.trace = s.queue.trace ++ more)
      (hmore : ranIn more = []) : ranIn t.queue.trace = ranIn s.queue.trace := by
    rw [htrace, ranIn_append, hmore, List.append_nil]
  have hnew : ∀ other when interval repeats timer object,
      (s.queue.newTimer other when interval repeats).heap timer = some object →
        object.sequence ≤ s.queue.numCreated → s.queue.heap timer = some object := by
    intro other when interval repeats timer object hheap hle
    simp only [TimerQueue.newTimer, Function.update_apply] at hheap
    split_ifs at hheap
    · rw [← Option.some.inj hheap] at hle
      dsimp only at hle
      omega
    · exact hheap
  obtain ⟨more, htrace, hmore⟩ := outcome_trace hs houtcome
  -- only `runTimer` runs a callback
  have hsilent (hlabel : label ≠ .runTimer) : ranIn more = [] :=
    List.eq_nil_iff_forall_not_mem.2 fun ran hmem => hlabel (hmore ran hmem).1
  cases houtcome with
  | newTimer other when interval repeats hfree hrange =>
      exact h.quiet (.newTimer other when interval repeats hfree hrange)
        (hran htrace (hsilent (by simp)))
        fun timer object hheap _ hle => ⟨hnew _ _ _ _ _ _ hheap hle, fun _ => .inr rfl⟩
  | addTimerInLoop other clock added hidle hwaiting hadded =>
      refine h.quiet (.addTimerInLoop other clock added hidle hwaiting hadded)
        (hran htrace (hsilent (by simp))) fun timer object hheap _ _ => ⟨?_, fun _ => .inr rfl⟩
      rwa [timerAdded_heap] at hheap
  | addTimer other when interval repeats clock hfree hrange =>
      refine h.quiet (.addTimer other when interval repeats clock hfree hrange)
        (hran htrace (hsilent (by simp))) fun timer object hheap _ hle => ⟨?_, fun _ => .inr rfl⟩
      rw [timerAdded_heap] at hheap
      exact hnew _ _ _ _ _ _ hheap hle
  | cancelActive id old hpending hsequence =>
      refine h.quiet (.cancelActive id old hpending hsequence)
        (hran htrace (hsilent (by simp))) fun timer object hheap _ _ => ⟨?_, fun _ => .inr rfl⟩
      simp only [activeCancelled, Function.update_apply] at hheap
      split_ifs at hheap
      exact hheap
  | cancelAbsent id habsent hissued =>
      exact h.quiet (.cancelAbsent id habsent hissued) (hran htrace (hsilent (by simp)))
        fun timer object hheap _ _ => ⟨hheap, fun _ => .inr rfl⟩
  | handleRead now hidle =>
      exact h.quiet (.handleRead now hidle) (hran htrace (hsilent (by simp)))
        fun timer object hheap _ _ => ⟨hheap, fun hbusy => absurd hidle hbusy⟩
  | runTimer b member rest hbatch htodo hmember => exact h.runTimer hs hbatch htodo hmember
  | reset clock b hbatch htodo =>
      refine h.quiet (.reset clock b hbatch htodo) (hran htrace (hsilent (by simp))) ?_
      intro timer object hheap honce _
      rw [rearmed_heap] at hheap
      rcases heap_resetMembers hheap with ⟨hold, hnot⟩ | ⟨member, _, hrestarts, rfl, rfl⟩
      · refine ⟨hold, fun _ => .inl fun b' hb' hmem => ?_⟩
        obtain rfl : b' = b := Option.some.inj (hb'.symm.trans hbatch)
        exact hnot _ hmem rfl
      · -- a timer that is put back repeats
        have hrepeats : (restarted member.2 b.now).repeats = true := hrestarts.1
        simp [hrepeats] at honce

end Follow

/-! ## Runs -/

theorem initial_oneShots : OneShots {} := ⟨by simp [ranIn], by simp [oneShotsIn, ranIn], by simp⟩

/-- After a timer is gone its callback does not run. -/
theorem run_gone {s t : System} {labels : List Label} {sequence : ℕ} (hs : Sound s)
    (hgone : Gone sequence s) (hrun : Run Step s labels t) :
    ∀ ran ∈ ranIn (since s t), ran.2.sequence ≠ sequence := by
  have h : Sound t ∧ Gone sequence t ∧ ∃ more, t.queue.trace = s.queue.trace ++ more ∧
      ∀ ran ∈ ranIn more, ran.2.sequence ≠ sequence := by
    refine hrun.invariant (P := fun t => Sound t ∧ Gone sequence t ∧
      ∃ more, t.queue.trace = s.queue.trace ++ more ∧
        ∀ ran ∈ ranIn more, ran.2.sequence ≠ sequence)
      ⟨hs, hgone, [], (List.append_nil _).symm, by simp [ranIn]⟩ ?_
    rintro a label b ⟨ha, hgone_a, more, htrace, hmore⟩ hstep
    have houtcome := outcome_of_step ha hstep
    obtain ⟨events, hevents, hran⟩ := outcome_trace ha houtcome
    refine ⟨sound_outcome ha houtcome, hgone_a.outcome ha houtcome, more ++ events, ?_, ?_⟩
    · rw [hevents, htrace, List.append_assoc]
    · intro ran hmem
      rw [ranIn_append] at hmem
      rcases List.mem_append.1 hmem with hold | hnew
      · exact hmore ran hold
      · exact hgone_a.dead _ _ (hran ran hnew).2
  obtain ⟨_, _, more, htrace, hmore⟩ := h
  rwa [since_eq htrace]

/-- The timer `id`, pending in `s` and cancelled in a state `cancelling` of the
run, is not run by a `handleRead` that starts later. -/
def CancelledNotRun (s : System) : Prop :=
  ∀ (id : TimerId) (object : Timer), s.queue.Pending id.timer object →
    object.sequence = id.sequence →
    ∀ earlier cancelling cancelled between idle now reading later last,
      Run Step s earlier cancelling → Step cancelling (.cancelInLoop id) cancelled →
      Run Step cancelled between idle → Step idle (.handleRead now) reading →
      Run Step reading later last →
        ∀ ran ∈ ranIn (since idle last), ran.2.sequence ≠ id.sequence

theorem cancelled_not_run {s : System} (hs : Sound s) : CancelledNotRun s := by
  intro id object hpending hsequence earlier cancelling cancelled between idle now reading later
    last hearlier hcancel hbetween hread hlater
  have hinserted : Sound cancelling ∧ Inserted id cancelling := by
    refine hearlier.invariant (P := fun s => Sound s ∧ Inserted id s)
      ⟨hs, inserted_of_pending hs hpending hsequence⟩ ?_
    rintro a label b ⟨ha, hinserted⟩ hstep
    have houtcome := outcome_of_step ha hstep
    exact ⟨sound_outcome ha houtcome, hinserted.outcome ha houtcome⟩
  have hcancelled := hinserted.2.cancel hinserted.1 (outcome_of_step hinserted.1 hcancel)
  have hidle : Sound idle ∧ Cancelled id idle := by
    refine hbetween.invariant (P := fun s => Sound s ∧ Cancelled id s)
      ⟨sound_step hinserted.1 hcancel, hcancelled⟩ ?_
    rintro a label b ⟨ha, hcancelled⟩ hstep
    have houtcome := outcome_of_step ha hstep
    exact ⟨sound_outcome ha houtcome, hcancelled.outcome ha houtcome⟩
  -- the batch starts outside `handleRead`, where nothing holds the timer
  have hgone : Gone id.sequence idle := hidle.2.gone hread.1
  have hrun : Run Step idle (.handleRead now :: later) last :=
    (Run.single hread).append hlater
  exact run_gone hidle.1 hgone hrun

/-- From every reachable state, one `handleRead` with any callbacks fires exactly
the due timers and leaves exactly the right ones pending; what was added and
cancelled on the way is what the callbacks have asked for.  So in every run a
one-shot timer runs at most once, and a timer cancelled after it was inserted is
not run by a later `handleRead`. -/
theorem fires_exactly_due (labels : List Label) (s : System) (hrun : Run Step {} labels s) :
    (∀ now reading inner last clock after, Step s (.handleRead now) reading →
      Run (restrict Step Inner) reading inner last → Step last (.reset clock) after →
        FiresExactlyDue s after now (since s after) ∧ Records inner (since s after)) ∧
      (oneShotsIn s.queue.trace).Nodup ∧ CancelledNotRun s := by
  have h : Sound s ∧ OneShots s := by
    refine hrun.invariant (P := fun s => Sound s ∧ OneShots s) ⟨initial_sound, initial_oneShots⟩ ?_
    rintro a label b ⟨ha, honce⟩ hstep
    have houtcome := outcome_of_step ha hstep
    exact ⟨sound_outcome ha houtcome, oneShots_outcome honce ha houtcome⟩
  refine ⟨fun now reading inner last clock after hread hinner hreset =>
    ⟨batch_firesExactlyDue h.1 hread hinner hreset, ?_⟩, h.2.once, cancelled_not_run h.1⟩
  have hrecords := run_records h.1 (((Run.single hread).append
    (hinner.mono fun _ _ _ hstep => hstep.1)).snoc hreset)
  exact ⟨by simpa [Label.adds, List.filterMap_cons] using hrecords.added,
    by simpa [Label.cancels, List.filterMap_cons] using hrecords.cancelled⟩

/-- Both timers are due at 2000 and run, although the callback of the first cancels the
second. -/
theorem fires_exactly_due_one : ∃ after,
    FiresExactlyDue twoTimers after 2000 (since twoTimers after) ∧
      Records batchLabels (since twoTimers after) ∧
      (16, ⟨1000, 0, false, 1⟩) ∈ ranIn (since twoTimers after) ∧
      (17, ⟨1000, 500, true, 2⟩) ∈ ranIn (since twoTimers after) := by
  obtain ⟨reading, last, after, hread, hinner, hreset, -⟩ := run_batch
  obtain ⟨hfires, hrecords⟩ := (fires_exactly_due _ _ run_twoTimers).1 2000 reading batchLabels last
    2001 after hread (hinner.restrict_of_forall (by simp [Inner, batchLabels])) hreset
  refine ⟨after, hfires, hrecords, (hfires.ran_iff _ _).2 ⟨?_, by decide⟩,
    (hfires.ran_iff _ _).2 ⟨?_, by decide⟩⟩
  · simp [Pending, twoTimers, oneTimer, TimerQueue.newTimer]
  · simp [Pending, twoTimers, oneTimer, TimerQueue.newTimer]

end TimerSystem

end MuduoLite
