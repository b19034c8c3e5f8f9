import MuduoLite.Timer.Cancel

/-!
# No timer is dropped, and none runs too often

A timer that was added is `Live` as long as it waits in the queue or in the batch of a
`handleRead`.  It stops being live in two ways only (`live_outcome`): it was cancelled, or it
is a one-shot timer whose callback has run.  In particular a repeating timer that nobody
cancels goes on for ever.

From one run of a repeating timer to the next its expiration grows by the interval or more,
since `reset` restarts it from the time of the batch, which is not before the expiration.
-/

namespace MuduoLite

open Transition OrderedSet

namespace TimerSystem

open TimerQueue

section Accounting

variable {s t : System} {label : Label} {timer : ℕ} {object : Timer}

/-- The timer waits in the queue or in the batch in progress. -/
def Live (s : System) (timer : ℕ) (object : Timer) : Prop :=
  s.queue.Pending timer object ∨ (timer, object) ∈ s.held

/-- The same timer, restarted or not. -/
structure SameTimer (first second : Timer) : Prop where
  sequence_eq : second.sequence = first.sequence
  repeats_eq : second.repeats = first.repeats
  interval_eq : second.interval = first.interval

theorem SameTimer.refl (object : Timer) : SameTimer object object := ⟨rfl, rfl, rfl⟩

theorem SameTimer.trans {first second third : Timer} (h : SameTimer first second)
    (h' : SameTimer second third) : SameTimer first third :=
  ⟨h'.sequence_eq.trans h.sequence_eq, h'.repeats_eq.trans h.repeats_eq,
    h'.interval_eq.trans h.interval_eq⟩

/-- A timer that is not live any more has run or was cancelled. -/
def Finished (s : System) (timer : ℕ) (object : Timer) : Prop :=
  object.repeats = false ∧ (∃ ran ∈ ranIn s.queue.trace, ran.2.sequence = object.sequence) ∨
    ⟨timer, object.sequence⟩ ∈ cancelledIn s.queue.trace

theorem Finished.mono (h : Finished s timer object) {more : List Event}
    (htrace : t.queue.trace = s.queue.trace ++ more) : Finished t timer object := by
  refine h.imp ?_ ?_
  · rintro ⟨honce, ran, hran, hsequence⟩
    exact ⟨honce, ran, by simp [htrace, hran], hsequence⟩
  · intro hcancelled
    simp [htrace, hcancelled]

/-- What a batch knows about its timers: the callback of each has run or will, and those
in `cancelingTimers_` were cancelled. -/
structure BatchKnown (s : System) : Prop where
  started : ∀ b, s.batch = some b → ∀ member ∈ b.members,
    entryOf member ∈ b.todo ∨ member ∈ ranIn s.queue.trace
  canceling : ∀ active ∈ s.queue.cancelingTimers,
    ⟨active.1, active.2⟩ ∈ cancelledIn s.queue.trace
  due : ∀ b, s.batch = some b → ∀ member ∈ b.members, member.2.expiration ≤ b.now

theorem reset_cancelingTimers (q : TimerQueue) (now clock : ℤ) (held : List (ℕ × Timer)) :
    ((q.resetMembers now held).rearmed clock).cancelingTimers = q.cancelingTimers := by
  have hmembers : (q.resetMembers now held).cancelingTimers = q.cancelingTimers := by
    induction held generalizing q with
    | nil => rfl
    | cons member rest ih => rw [resetMembers_cons, ih, resetMember_cancelingTimers]
  unfold rearmed
  split
  · exact hmembers
  · split_ifs
    · exact hmembers
    · exact hmembers

theorem outcome_trace_append (hs : Sound s) (houtcome : Outcome s label t) :
    ∃ more, t.queue.trace = s.queue.trace ++ more := by
  obtain ⟨more, htrace, -⟩ := outcome_trace hs houtcome
  exact ⟨more, htrace⟩

/-- Members of a batch with the same entry are the same. -/
theorem eq_of_entryOf_eq (hs : Sound s) {first second : ℕ × Timer} (hfirst : first ∈ s.held)
    (hsecond : second ∈ s.held) (heq : entryOf first = entryOf second) : first = second := by
  have htimer : first.1 = second.1 := congrArg Entry.timer heq
  have hlive := hs.intact.held_live hfirst
  rw [htimer, hs.intact.held_live hsecond] at hlive
  exact Prod.ext htimer (Option.some.inj hlive).symm

theorem batchKnown_outcome (h : BatchKnown s) (hs : Sound s) (houtcome : Outcome s label t) :
    BatchKnown t := by
  have hkeep : t.batch = s.batch → (∀ active ∈ t.queue.cancelingTimers,
      active ∈ s.queue.cancelingTimers ∨ ⟨active.1, active.2⟩ ∈ cancelledIn t.queue.trace) →
        BatchKnown t := by
    intro hbatch hcanceling
    obtain ⟨more, htrace⟩ := outcome_trace_append hs houtcome
    refine ⟨?_, fun active hactive => ?_, hbatch ▸ h.due⟩
    · rw [hbatch, htrace]
      exact fun b hb member hmember => (h.started b hb member hmember).imp_right fun hran => by
        simp [hran]
    · rcases hcanceling active hactive with hold | hnew
      · simp [htrace, h.canceling active hold]
      · exact hnew
  cases houtcome with
  | newTimer timer when interval repeats hfree hrange => exact hkeep rfl fun _ => .inl
  | addTimerInLoop timer clock object hidle hwaiting hheap =>
      exact hkeep rfl fun active hactive => .inl (by simpa using hactive)
  | addTimer timer when interval repeats clock hfree hrange =>
      exact hkeep rfl fun active hactive => .inl (by simpa [TimerQueue.newTimer] using hactive)
  | cancelActive id object hpending hsequence => exact hkeep rfl fun _ => .inl
  | cancelAbsent id habsent hissued =>
      refine hkeep rfl fun active hactive => ?_
      dsimp only [absentCancelled] at hactive ⊢
      split_ifs at hactive
      · rcases Finset.mem_insert.1 hactive with rfl | hold
        · exact .inr (by simp [cancelledIn])
        · exact .inl hold
      · exact .inl hactive
  -- all of the new batch is still to run
  | handleRead now hidle =>
      refine ⟨?_, by simp [readTaken], ?_⟩
      · rintro b ⟨⟩ member hmember
        rw [← members_map_entryOf hs.intact.consistent hs.intact.allocated now]
        exact .inl (List.mem_map_of_mem hmember)
      · rintro b ⟨⟩ ⟨timer, object⟩ hmember
        exact ((mem_members hs.intact.consistent hs.intact.allocated).1 hmember).2
  -- the head of `todo` has run now
  | runTimer b member rest hbatch htodo hmember =>
      have hheld := System.held_eq hbatch
      refine ⟨?_, ?_, ?_⟩
      · rintro b' ⟨⟩ other hother
        rw [emit, ranIn_append, List.mem_append]
        rcases h.started b hbatch other hother with hwaits | hran
        · rw [htodo] at hwaits
          rcases List.mem_cons.1 hwaits with heq | hrest
          · rw [eq_of_entryOf_eq hs (hheld ▸ hother) (hheld ▸ hmember) heq]
            exact .inr (.inr (List.mem_singleton.2 rfl))
          · exact .inl hrest
        · exact .inr (.inl hran)
      · intro active hactive
        simpa [emit, cancelledIn] using h.canceling active hactive
      · rintro b' ⟨⟩
        exact h.due b hbatch
  | reset clock b hbatch htodo =>
      obtain ⟨more, htrace⟩ := outcome_trace_append hs (.reset clock b hbatch htodo)
      refine ⟨?_, fun active hactive => ?_, ?_⟩
      · rintro b' ⟨⟩
      · rw [reset_cancelingTimers] at hactive
        rw [htrace, cancelledIn_append]
        exact List.mem_append_left _ (h.canceling active hactive)
      · rintro b' ⟨⟩

/-- A live timer stays live, or it has run as a one-shot timer, or it was cancelled. -/
theorem live_outcome (hknown : BatchKnown s) (hs : Sound s) (houtcome : Outcome s label t)
    (hlive : Live s timer object) :
    (∃ after, Live t timer after ∧ SameTimer object after) ∨ Finished t timer object := by
  have hkept : (s.queue.Pending timer object → t.queue.Pending timer object) →
      t.held = s.held → (∃ after, Live t timer after ∧ SameTimer object after) ∨
        Finished t timer object := by
    intro hpending hheld
    exact .inl ⟨object, hlive.imp hpending (hheld ▸ ·), .refl object⟩
  cases houtcome with
  | newTimer other when interval repeats hfree hrange =>
      exact hkept (pending_newTimer (hs.intact.loose_of_free hfree) _ _ _).2 rfl
  | addTimerInLoop other clock added hidle hwaiting hheap =>
      exact hkept (fun h => (pending_timerAdded hheap).2 (.inl h)) rfl
  | addTimer other when interval repeats clock hfree hrange =>
      refine hkept (fun h => (pending_timerAdded (Function.update_self _ _ _)).2 (.inl ?_)) rfl
      exact (pending_newTimer (hs.intact.loose_of_free hfree) _ _ _).2 h
  | cancelActive id old hpending hsequence =>
      by_cases hid : (⟨timer, object.sequence⟩ : TimerId) = id
      · exact .inr (.inr (by simp [activeCancelled, cancelledIn, hid]))
      · exact hkept (fun h => (pending_activeCancelled hpending hsequence).2 ⟨h, hid⟩) rfl
  | cancelAbsent id habsent hissued => exact hkept (fun h => h) rfl
  -- what is due moves from the sets to the batch
  | handleRead now hidle =>
      have hpending : s.queue.Pending timer object :=
        hlive.resolve_right (by simp [System.held, hidle])
      refine .inl ⟨object, ?_, .refl object⟩
      rcases le_or_gt object.expiration now with hdue | hlater
      · exact .inr ((mem_members hs.intact.consistent hs.intact.allocated).2 ⟨hpending, hdue⟩)
      · exact .inl ((pending_readTaken hs.intact.consistent hs.intact.allocated).2
          ⟨hpending, hlater⟩)
  | runTimer b member rest hbatch htodo hmember =>
      exact hkept id (System.held_eq hbatch).symm
  | reset clock b hbatch htodo =>
      let called : TimerQueue := { s.queue with callingExpiredTimers := false }
      have hheld := System.held_eq hbatch
      have hcalled : Consistent called := hs.intact.consistent.congr rfl rfl rfl
      have hholds : Holds called b.members := by
        have h := hs.intact.owned.holds
        rw [hheld] at h
        exact ⟨h.live, h.loose, h.nodup⟩
      have hpending {after : Timer} :
          ((called.resetMembers b.now b.members).rearmed clock).Pending timer after ↔ _ :=
        (pending_rearmed clock).trans (pending_resetMembers hcalled hholds)
      -- a timer outside the batch stays; a member restarts, or it is finished
      rcases hlive with hold | hmember
      · exact .inl ⟨object, .inl (hpending.2 (.inl hold)), .refl object⟩
      · rw [hheld] at hmember
        by_cases hrestarts : called.Restarts timer object
        · exact .inl ⟨restarted object b.now,
            .inl (hpending.2 (.inr ⟨_, hmember, hrestarts, rfl, rfl⟩)), rfl, rfl, rfl⟩
        · obtain ⟨more, htrace⟩ := outcome_trace_append hs (.reset clock b hbatch htodo)
          refine .inr (Finished.mono (s := s) ?_ htrace)
          by_cases hcanceling : (timer, object.sequence) ∈ s.queue.cancelingTimers
          · exact .inr (hknown.canceling _ hcanceling)
          · -- it does not repeat, and its callback has run in this batch
            have honce : object.repeats = false := by
              by_contra hrepeats
              exact hrestarts ⟨by simpa using hrepeats, hcanceling⟩
            have hran := (hknown.started b hbatch _ hmember).resolve_left (by simp [htodo])
            exact .inl ⟨honce, _, hran, rfl⟩

/-- Every timer that was added is live or finished. -/
def Accounts (s : System) : Prop :=
  ∀ added ∈ addedIn s.queue.trace,
    (∃ object, Live s added.1 object ∧ SameTimer added.2 object) ∨ Finished s added.1 added.2

theorem accounts_outcome (h : Accounts s) (hknown : BatchKnown s) (hs : Sound s)
    (houtcome : Outcome s label t) : Accounts t := by
  intro added hadded
  obtain ⟨more, htrace⟩ := outcome_trace_append hs houtcome
  rcases outcome_added houtcome hadded with hold | hnew
  · rcases h added hold with ⟨object, hlive, hsame⟩ | hfinished
    · rcases live_outcome hknown hs houtcome hlive with ⟨after, hlive', hsame'⟩ | hfinished
      · exact .inl ⟨after, hlive', hsame.trans hsame'⟩
      · rw [Finished, hsame.sequence_eq, hsame.repeats_eq] at hfinished
        exact .inr hfinished
    · exact .inr (hfinished.mono htrace)
  · exact .inl ⟨added.2, .inl hnew, .refl _⟩

/-! ## The distance between two runs -/

/-- The callback of a timer that lives has run earlier than its present expiration says, by
its interval or more, unless it has just run in the batch in progress. -/
def Ahead (s : System) : Prop :=
  ∀ timer object, s.queue.heap timer = some object →
    ∀ ran ∈ ranIn s.queue.trace, ran.2.sequence = object.sequence →
      ran.2.expiration + ran.2.interval ≤ object.expiration ∨
        ran = (timer, object) ∧ ∃ b, s.batch = some b ∧ (timer, object) ∈ b.members ∧
          entryOf (timer, object) ∉ b.todo

/-- Two runs of one timer are at least its interval apart. -/
def Spaced (trace : List Event) : Prop :=
  (ranIn trace).Pairwise fun (first second : ℕ × Timer) =>
    first.2.sequence = second.2.sequence →
      first.2.expiration + first.2.interval ≤ second.2.expiration

/-- Steps that run no callback, change no timer, and leave the batch alone or start one. -/
theorem Ahead.quiet (h : Ahead s) (honce : OneShots s)
    (htrace : ranIn t.queue.trace = ranIn s.queue.trace)
    (hheap : ∀ timer object, t.queue.heap timer = some object →
      s.queue.heap timer = some object ∨ s.queue.numCreated < object.sequence)
    (hbatch : s.batch = none ∨ t.batch = s.batch) : Ahead t := by
  intro timer object hlive ran hran hsequence
  rw [htrace] at hran
  rcases hheap timer object hlive with hold | hnew
  · rcases h timer object hold ran hran hsequence with hle | ⟨heq, b, hb, hmember, hnot⟩
    · exact .inl hle
    · rcases hbatch with hidle | hsame
      · rw [hidle] at hb
        nomatch hb
      · exact .inr ⟨heq, b, hsame.trans hb, hmember, hnot⟩
  · have hle := honce.ran_le ran hran
    omega

theorem todo_nodup (hs : Sound s) {b : Batch} (hbatch : s.batch = some b) : b.todo.Nodup := by
  obtain ⟨hexpired, hsuffix⟩ := hs.expired b hbatch
  have hholds : Holds s.queue b.members := System.held_eq hbatch ▸ hs.intact.owned.holds
  have hnodup : (b.members.map entryOf).Nodup :=
    List.Nodup.of_map Entry.timer (by rw [List.map_map]; exact hholds.nodup)
  exact (hexpired ▸ hnodup).sublist hsuffix.sublist

theorem Ahead.runTimer (h : Ahead s) (hs : Sound s) {b : Batch} {member : ℕ × Timer}
    {rest : List Entry} (hbatch : s.batch = some b) (htodo : b.todo = entryOf member :: rest)
    (hmember : member ∈ b.members) (hspaced : Spaced s.queue.trace) :
    Ahead { s with
      queue := s.queue.emit (.ran member.1 member.2), batch := some { b with todo := rest } } ∧
      Spaced (s.queue.trace ++ [.ran member.1 member.2]) := by
  have hran : ranIn (s.queue.trace ++ [.ran member.1 member.2]) =
      ranIn s.queue.trace ++ [member] := ranIn_append _ _
  have hlive := hs.intact.held_live (System.held_eq hbatch ▸ hmember)
  have hnodup := todo_nodup hs hbatch
  rw [htodo] at hnodup
  -- the callback of the member has not run in this batch
  have hearlier (ran : ℕ × Timer) (hmem : ran ∈ ranIn s.queue.trace)
      (hsequence : ran.2.sequence = member.2.sequence) :
      ran.2.expiration + ran.2.interval ≤ member.2.expiration := by
    refine (h member.1 member.2 hlive ran hmem hsequence).resolve_right ?_
    rintro ⟨-, b', hb', -, hnot⟩
    obtain rfl : b' = b := Option.some.inj (hb'.symm.trans hbatch)
    exact hnot (htodo ▸ List.mem_cons_self)
  constructor
  · intro timer object hheap ran hmem hsequence
    simp only [emit, hran] at hmem
    rcases List.mem_append.1 hmem with hold | hnew
    · refine (h timer object hheap ran hold hsequence).imp_right ?_
      rintro ⟨heq, b', hb', hin, hnot⟩
      obtain rfl : b' = b := Option.some.inj (hb'.symm.trans hbatch)
      exact ⟨heq, _, rfl, hin, fun hrest => hnot (htodo ▸ List.mem_cons_of_mem _ hrest)⟩
    · obtain rfl := List.mem_singleton.1 hnew
      obtain rfl := hs.intact.allocated.sequence_inj _ _ _ _ hlive hheap hsequence
      obtain rfl : object = ran.2 := Option.some.inj (hheap.symm.trans hlive)
      exact .inr ⟨rfl, _, rfl, hmember, (List.nodup_cons.1 hnodup).1⟩
  · rw [Spaced, hran]
    refine List.pairwise_append.2 ⟨hspaced, List.pairwise_singleton _ _, ?_⟩
    intro ran hmem last hlast hsequence
    rw [List.mem_singleton.1 hlast] at hsequence ⊢
    exact hearlier ran hmem hsequence

theorem ahead_outcome (h : Ahead s) (hspaced : Spaced s.queue.trace) (honce : OneShots s)
    (hknown : BatchKnown s) (hs : Sound s) (houtcome : Outcome s label t) :
    Ahead t ∧ Spaced t.queue.trace := by
  have hnew (timer : ℕ) (when : ℤ) (interval : ℕ) (repeats : Bool) (other : ℕ) (object : Timer)
      (hheap : (s.queue.newTimer timer when interval repeats).heap other = some object) :
      s.queue.heap other = some object ∨ s.queue.numCreated < object.sequence := by
    simp only [TimerQueue.newTimer, Function.update_apply] at hheap
    split_ifs at hheap
    · exact .inr (Option.some.inj hheap ▸ Nat.lt_succ_self _)
    · exact .inl hheap
  obtain ⟨more, htrace, hmore⟩ := outcome_trace hs houtcome
  -- only `runTimer` runs a callback
  have hran (hlabel : label ≠ .runTimer) : ranIn t.queue.trace = ranIn s.queue.trace := by
    have hnone : ranIn more = [] :=
      List.eq_nil_iff_forall_not_mem.2 fun ran hmem => hlabel (hmore ran hmem).1
    rw [htrace, ranIn_append, hnone, List.append_nil]
  have hsame (hlabel : label ≠ .runTimer) (hahead : Ahead t) :
      Ahead t ∧ Spaced t.queue.trace := by
    rw [Spaced, hran hlabel]
    exact ⟨hahead, hspaced⟩
  cases houtcome with
  | newTimer timer when interval repeats hfree hrange =>
      exact hsame (by simp) (h.quiet honce (hran (by simp)) (hnew _ _ _ _) (.inr rfl))
  | addTimerInLoop timer clock object hidle hwaiting hheap =>
      refine hsame (by simp) (h.quiet honce (hran (by simp)) ?_ (.inr rfl))
      intro other added hadded
      rw [timerAdded_heap] at hadded
      exact .inl hadded
  | addTimer timer when interval repeats clock hfree hrange =>
      refine hsame (by simp) (h.quiet honce (hran (by simp)) ?_ (.inr rfl))
      intro other added hadded
      rw [timerAdded_heap] at hadded
      exact hnew _ _ _ _ _ _ hadded
  | cancelActive id object hpending hsequence =>
      refine hsame (by simp) (h.quiet honce (hran (by simp)) ?_ (.inr rfl))
      intro other left hleft
      simp only [activeCancelled, Function.update_apply] at hleft
      split_ifs at hleft
      exact .inl hleft
  | cancelAbsent id habsent hissued =>
      exact hsame (by simp) (h.quiet honce (hran (by simp)) (fun _ _ => .inl) (.inr rfl))
  | handleRead now hidle =>
      exact hsame (by simp) (h.quiet honce (hran (by simp)) (fun _ _ => .inl) (.inl hidle))
  | runTimer b member rest hbatch htodo hmember => exact h.runTimer hs hbatch htodo hmember hspaced
  | reset clock b hbatch htodo =>
      refine hsame (by simp) fun timer object hheap ran hmem hsequence => ?_
      rw [hran (by simp)] at hmem
      rw [rearmed_heap] at hheap
      rcases heap_resetMembers hheap with ⟨hold, hnot⟩ | ⟨member, hmember, -, rfl, rfl⟩
      · refine .inl ((h timer object hold ran hmem hsequence).resolve_right ?_)
        rintro ⟨-, b', hb', hin, -⟩
        obtain rfl : b' = b := Option.some.inj (hb'.symm.trans hbatch)
        exact hnot _ hin rfl
      · -- the timer restarts from the time of the batch, at which it was due
        have hlive := hs.intact.held_live (System.held_eq hbatch ▸ hmember)
        have hdue := hknown.due b hbatch member hmember
        refine .inl ?_
        dsimp only [restarted] at hsequence ⊢
        rcases h member.1 member.2 hlive ran hmem hsequence with hle | ⟨rfl, -⟩
        · omega
        · dsimp only
          omega

end Accounting

/-! ## Runs -/

/-- All that a run keeps. -/
structure Kept (s : System) : Prop where
  sound : Sound s
  oneShots : OneShots s
  known : BatchKnown s
  accounts : Accounts s
  ahead : Ahead s
  spaced : Spaced s.queue.trace

theorem initial_kept : Kept {} where
  sound := initial_sound
  oneShots := initial_oneShots
  known := ⟨by simp, by simp, by simp⟩
  accounts := by simp [Accounts, addedIn]
  ahead := by simp [Ahead]
  spaced := by simp [Spaced, ranIn]

theorem run_kept {labels : List Label} {s : System} (hrun : Run Step {} labels s) : Kept s := by
  refine hrun.invariant initial_kept ?_
  intro a label b h hstep
  have houtcome := outcome_of_step h.sound hstep
  obtain ⟨hahead, hspaced⟩ :=
    ahead_outcome h.ahead h.spaced h.oneShots h.known h.sound houtcome
  exact ⟨sound_outcome h.sound houtcome, oneShots_outcome h.oneShots h.sound houtcome,
    batchKnown_outcome h.known h.sound houtcome,
    accounts_outcome h.accounts h.known h.sound houtcome, hahead, hspaced⟩

/-- No timer is dropped.  In every run, whatever the callbacks add and cancel, a timer that
was added still waits, with its interval and its sequence, or it has run as a one-shot timer,
or it was cancelled; the timers added and cancelled are those of the labels. -/
theorem timers_accounted (labels : List Label) (s : System) (hrun : Run Step {} labels s) :
    Records labels s.queue.trace ∧
    ∀ added ∈ addedIn s.queue.trace,
      (∃ object, (s.queue.Pending added.1 object ∨ (added.1, object) ∈ s.held) ∧
        SameTimer added.2 object) ∨
      (added.2.repeats = false ∧
        ∃ ran ∈ ranIn s.queue.trace, ran.2.sequence = added.2.sequence) ∨
      ⟨added.1, added.2.sequence⟩ ∈ cancelledIn s.queue.trace :=
  ⟨run_records initial_sound hrun, (run_kept hrun).accounts⟩

/-- One of the three timers is cancelled. -/
theorem timers_accounted_one : ∃ after, (addedIn after.queue.trace).map Prod.fst = [16, 17, 18] ∧
    cancelledIn after.queue.trace = [⟨17, 2⟩] ∧ Accounts after := by
  obtain ⟨after, hrun, -⟩ := run_batch_pending
  obtain ⟨hrecords, haccounts⟩ := timers_accounted _ _ hrun
  exact ⟨after, hrecords.added, hrecords.cancelled, haccounts⟩

/-- In every run the expirations for which the callback of a timer runs are in order and at
least the interval of the timer apart. -/
theorem timers_spaced (labels : List Label) (s : System) (hrun : Run Step {} labels s) :
    (ranIn s.queue.trace).Pairwise fun (first second : ℕ × Timer) =>
      first.2.sequence = second.2.sequence →
        first.2.expiration + first.2.interval ≤ second.2.expiration :=
  (run_kept hrun).spaced

/-- The second timer is found expired at 2000, is due again at 2500 and is found at 3000. -/
theorem timers_spaced_first : ∃ s : System,
    [(17, ⟨1000, 500, true, 2⟩), (17, ⟨2500, 500, true, 2⟩)].Sublist (ranIn s.queue.trace) ∧
    (ranIn s.queue.trace).Pairwise fun (first second : ℕ × Timer) =>
      first.2.sequence = second.2.sequence →
        first.2.expiration + first.2.interval ≤ second.2.expiration := by
  have hsound := run_sound run_twoTimers
  obtain ⟨labels, middle, hmiddle, hidle, hfirst, hkept⟩ := exists_batch hsound rfl 2000 2001
  have hsound' := (run_events hsound hmiddle).1
  obtain ⟨labels', last, hlast, -, hsecond, -⟩ := exists_batch hsound' hidle 3000 3001
  have hpending : twoTimers.queue.Pending 17 ⟨1000, 500, true, 2⟩ := by
    simp [Pending, twoTimers, oneTimer, TimerQueue.newTimer]
  have hran := (hfirst.ran_iff 17 ⟨1000, 500, true, 2⟩).2 ⟨hpending, by decide⟩
  -- the first batch restarts it 500 after 2000
  have hrestarted : middle.queue.Pending 17 ⟨2500, 500, true, 2⟩ :=
    (hfirst.pending_iff _ _).2 (.inr ⟨_, hpending, by decide, rfl, by simp [hkept], rfl⟩)
  have hagain := (hsecond.ran_iff 17 ⟨2500, 500, true, 2⟩).2 ⟨hrestarted, by decide⟩
  refine ⟨last, ?_, timers_spaced _ _ ((run_twoTimers.append hmiddle).append hlast)⟩
  rw [trace_since hsound' hlast, trace_since hsound hmiddle, ranIn_append, ranIn_append]
  exact ((List.singleton_sublist.2 hran).trans (List.sublist_append_right _ _)).append
    (List.singleton_sublist.2 hagain)

end TimerSystem

end MuduoLite
