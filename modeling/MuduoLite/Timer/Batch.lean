import MuduoLite.Timer.Invariant

/-!
# One `handleRead`

Between `handleRead` and `reset` the batch is fixed and only its prefix that has
run grows.  `InBatch` describes a state of the batch by the state `before` it and
the events since: which timers are pending, and which members of the batch will
not be put back because their cancellation was noted in `cancelingTimers_`.
`FiresExactlyDue` is what this comes to at the end of the batch.
-/

namespace MuduoLite

open Transition OrderedSet

namespace TimerQueue

open Function (update update_of_ne update_self)

/-! ## Reading the trace -/

/-- The timers whose callbacks ran, with their pointers. -/
def ranIn (events : List Event) : List (ℕ × Timer) :=
  events.filterMap fun
    | .ran timer object => some (timer, object)
    | _ => none

def addedIn (events : List Event) : List (ℕ × Timer) :=
  events.filterMap fun
    | .added timer object => some (timer, object)
    | _ => none

def cancelledIn (events : List Event) : List TimerId :=
  events.filterMap fun
    | .cancelled id => some id
    | _ => none

section Append

variable (first second : List Event)

@[simp] theorem ranIn_append : ranIn (first ++ second) = ranIn first ++ ranIn second :=
  List.filterMap_append

@[simp] theorem addedIn_append : addedIn (first ++ second) = addedIn first ++ addedIn second :=
  List.filterMap_append

@[simp] theorem cancelledIn_append :
    cancelledIn (first ++ second) = cancelledIn first ++ cancelledIn second :=
  List.filterMap_append

end Append

/-- Events that are not about running, adding or cancelling. -/
structure Silent (events : List Event) : Prop where
  ran : ranIn events = []
  added : addedIn events = []
  cancelled : cancelledIn events = []

theorem Silent.append {first second : List Event} (hfirst : Silent first)
    (hsecond : Silent second) : Silent (first ++ second) :=
  ⟨by simp [hfirst.ran, hsecond.ran], by simp [hfirst.added, hsecond.added],
    by simp [hfirst.cancelled, hsecond.cancelled]⟩

section Trace

variable (q : TimerQueue) (timer : ℕ) (object : Timer) (now : ℤ)

theorem trace_timerAdded : ∃ events, Silent events ∧
    (q.timerAdded timer object now).trace = q.trace ++ .added timer object :: events := by
  unfold timerAdded
  dsimp only
  split_ifs
  · refine ⟨[.armed object.expiration now (howMuchTimeFromNow object.expiration now)],
      ⟨rfl, rfl, rfl⟩, ?_⟩
    simp [resetTimerfd, emit, inserted]
  · exact ⟨[], ⟨rfl, rfl, rfl⟩, rfl⟩

theorem trace_resetMembers (held : List (ℕ × Timer)) : ∃ events, Silent events ∧
    (q.resetMembers now held).trace = q.trace ++ events := by
  induction held generalizing q with
  | nil => exact ⟨[], ⟨rfl, rfl, rfl⟩, by simp [resetMembers]⟩
  | cons member rest ih =>
      obtain ⟨events, hsilent, htrace⟩ := ih (q.resetMember now member)
      have hmember : ∃ events, Silent events ∧
          (q.resetMember now member).trace = q.trace ++ events := by
        unfold resetMember
        split_ifs
        · exact ⟨[], ⟨rfl, rfl, rfl⟩, by simp [inserted]⟩
        · exact ⟨[.deleted _ _ _ _], ⟨rfl, rfl, rfl⟩, rfl⟩
      obtain ⟨events', hsilent', htrace'⟩ := hmember
      refine ⟨events' ++ events, hsilent'.append hsilent, ?_⟩
      rw [resetMembers_cons, htrace, htrace', List.append_assoc]

theorem trace_rearmed (clock : ℤ) : ∃ events, Silent events ∧
    (q.rearmed clock).trace = q.trace ++ events := by
  have hsame : ∃ events, Silent events ∧ q.trace = q.trace ++ events :=
    ⟨[], ⟨rfl, rfl, rfl⟩, by simp⟩
  unfold rearmed
  split
  · exact hsame
  · split_ifs
    · exact ⟨[.armed _ _ _], ⟨rfl, rfl, rfl⟩, rfl⟩
    · exact hsame

/-- `reset` deletes timers and arms the descriptor. -/
theorem trace_reset (held : List (ℕ × Timer)) (clock : ℤ) : ∃ events, Silent events ∧
    ((q.resetMembers now held).rearmed clock).trace = q.trace ++ events := by
  obtain ⟨deletions, hdeletions, htrace⟩ := trace_resetMembers q now held
  obtain ⟨arming, harming, htrace'⟩ := trace_rearmed (q.resetMembers now held) clock
  refine ⟨deletions ++ arming, hdeletions.append harming, ?_⟩
  rw [htrace', htrace, List.append_assoc]

end Trace

/-! ## The pending timers -/

section Pending

variable {q : TimerQueue} {timer other : ℕ} {object otherObject : Timer} {now : ℤ}

theorem pending_updateHeap (hloose : q.Loose timer) (value : Option Timer) :
    ({ q with heap := update q.heap timer value } : TimerQueue).Pending other object ↔
      q.Pending other object := by
  refine and_congr_left fun hactive => ?_
  have hne : other ≠ timer := hloose _ hactive
  simp only [update_of_ne hne]

theorem pending_newTimer (hloose : q.Loose timer) (when : ℤ) (interval : ℕ) (repeats : Bool) :
    (q.newTimer timer when interval repeats).Pending other object ↔ q.Pending other object :=
  pending_updateHeap hloose _

theorem pending_inserted (hheap : q.heap timer = some object) :
    (q.inserted timer object).Pending other otherObject ↔
      q.Pending other otherObject ∨ (other = timer ∧ otherObject = object) := by
  simp only [Pending, inserted, Finset.mem_insert, Prod.mk.injEq]
  constructor
  · rintro ⟨hother, ⟨rfl, _⟩ | hactive⟩
    · exact .inr ⟨rfl, Option.some.inj (hother.symm.trans hheap)⟩
    · exact .inl ⟨hother, hactive⟩
  · rintro (⟨hother, hactive⟩ | ⟨rfl, rfl⟩)
    · exact ⟨hother, .inr hactive⟩
    · exact ⟨hheap, .inl ⟨rfl, rfl⟩⟩

theorem pending_timerAdded (hheap : q.heap timer = some object) :
    (q.timerAdded timer object now).Pending other otherObject ↔
      q.Pending other otherObject ∨ (other = timer ∧ otherObject = object) := by
  rw [← pending_inserted hheap]
  simp only [Pending, timerAdded_heap, timerAdded_activeTimers, inserted]

theorem pending_activeCancelled {id : TimerId}
    (hpending : q.Pending id.timer object) (hsequence : object.sequence = id.sequence) :
    (q.activeCancelled id object).Pending other otherObject ↔
      q.Pending other otherObject ∧ (⟨other, otherObject.sequence⟩ : TimerId) ≠ id := by
  have hunique : ∀ otherObject, q.heap id.timer = some otherObject → otherObject = object :=
    fun _ hother => Option.some.inj (hother.symm.trans hpending.1)
  simp only [Pending, activeCancelled, Finset.mem_erase, Function.update_apply]
  constructor
  · rintro ⟨hother, hne, hactive⟩
    split_ifs at hother
    exact ⟨⟨hother, hactive⟩, fun heq => hne (by rw [← heq])⟩
  · rintro ⟨⟨hother, hactive⟩, hne⟩
    have htimer : other ≠ id.timer := by
      rintro rfl
      rw [hunique _ hother, hsequence] at hne
      exact hne rfl
    rw [if_neg htimer]
    exact ⟨hother, fun heq => htimer (congrArg Prod.fst heq), hactive⟩

theorem pending_readTaken (h : Consistent q) (ha : Allocated q) :
    (q.readTaken now).Pending timer object ↔ q.Pending timer object ∧ now < object.expiration := by
  have hdue : q.Pending timer object →
      (timer ∈ (q.due now).map Entry.timer ↔ object.expiration ≤ now) := by
    intro hpending
    constructor
    · intro hmem
      obtain ⟨entry, hentry, rfl⟩ := List.mem_map.1 hmem
      obtain ⟨hmem', hle⟩ := (mem_due h ha).1 hentry
      rw [h.entry_eq hpending.1 hmem' rfl] at hle
      exact hle
    · exact fun hle => List.mem_map_of_mem
        (f := Entry.timer) ((mem_due h ha).2 ⟨hpending.entry_mem h, hle⟩)
  constructor
  · rintro ⟨hheap, hactive⟩
    obtain ⟨hold, hnot⟩ := Finset.mem_filter.1 hactive
    exact ⟨⟨hheap, hold⟩, not_le.1 fun hle => hnot ((hdue ⟨hheap, hold⟩).2 hle)⟩
  · rintro ⟨hpending, hlater⟩
    exact ⟨hpending.1, Finset.mem_filter.2
      ⟨hpending.2, fun hmem => (not_le.2 hlater) ((hdue hpending).1 hmem)⟩⟩

theorem restarts_resetMember (member : ℕ × Timer) :
    (q.resetMember now member).Restarts other otherObject ↔ q.Restarts other otherObject := by
  simp [Restarts]

theorem pending_resetMember {member : ℕ × Timer} (hloose : q.Loose member.1) :
    (q.resetMember now member).Pending other otherObject ↔ q.Pending other otherObject ∨
      (q.Restarts member.1 member.2 ∧ other = member.1 ∧
        otherObject = restarted member.2 now) := by
  unfold resetMember
  split_ifs with hrestarts
  · rw [pending_inserted (update_self _ _ _), pending_updateHeap hloose]
    simp only [hrestarts, true_and]
  · simp only [hrestarts, false_and, or_false]
    exact pending_updateHeap hloose none

theorem pending_resetMembers (h : Consistent q) {held : List (ℕ × Timer)} (hheld : Holds q held) :
    (q.resetMembers now held).Pending other otherObject ↔ q.Pending other otherObject ∨
      ∃ member ∈ held, q.Restarts member.1 member.2 ∧ other = member.1 ∧
        otherObject = restarted member.2 now := by
  induction held generalizing q with
  | nil => simp [resetMembers]
  | cons member rest ih =>
      have hloose := hheld.loose member List.mem_cons_self
      rw [resetMembers_cons, ih (consistent_resetMember h hloose) (holds_resetMember hheld),
        pending_resetMember hloose]
      simp only [restarts_resetMember, List.mem_cons, exists_eq_or_imp, or_assoc]

theorem heap_resetMember (member : ℕ × Timer) : (q.resetMember now member).heap =
    update q.heap member.1
      (if q.Restarts member.1 member.2 then some (restarted member.2 now) else none) := by
  unfold resetMember
  split_ifs <;> rfl

/-- Where a live timer comes from after the loop of `reset`. -/
theorem heap_resetMembers {held : List (ℕ × Timer)}
    (hheap : (q.resetMembers now held).heap timer = some object) :
    (q.heap timer = some object ∧ ∀ member ∈ held, member.1 ≠ timer) ∨
      ∃ member ∈ held, q.Restarts member.1 member.2 ∧ timer = member.1 ∧
        object = restarted member.2 now := by
  induction held generalizing q with
  | nil => exact .inl ⟨hheap, by simp⟩
  | cons member rest ih =>
      rw [resetMembers_cons] at hheap
      rcases ih hheap with ⟨hold, hrest⟩ | ⟨other, hother, hrestarts, heq⟩
      · rw [heap_resetMember] at hold
        by_cases htimer : timer = member.1
        · rw [htimer, update_self] at hold
          split_ifs at hold with hrestarts
          exact .inr ⟨member, List.mem_cons_self, hrestarts, htimer, (Option.some.inj hold).symm⟩
        · rw [update_of_ne htimer] at hold
          exact .inl ⟨hold, List.forall_mem_cons.2 ⟨fun heq => htimer heq.symm, hrest⟩⟩
      · exact .inr ⟨other, List.mem_cons_of_mem _ hother, (restarts_resetMember member).1 hrestarts,
          heq⟩

@[simp] theorem resetMember_numCreated (member : ℕ × Timer) :
    (q.resetMember now member).numCreated = q.numCreated := by
  unfold resetMember
  split_ifs <;> rfl

@[simp] theorem resetMembers_numCreated (held : List (ℕ × Timer)) :
    (q.resetMembers now held).numCreated = q.numCreated := by
  induction held generalizing q with
  | nil => rfl
  | cons member rest ih => simp [ih]

@[simp] theorem rearmed_numCreated (clock : ℤ) : (q.rearmed clock).numCreated = q.numCreated := by
  unfold rearmed
  split
  · rfl
  · split_ifs <;> rfl

@[simp] theorem rearmed_heap (clock : ℤ) : (q.rearmed clock).heap = q.heap := by
  unfold rearmed
  split
  · rfl
  · split_ifs <;> rfl

@[simp] theorem rearmed_activeTimers (clock : ℤ) :
    (q.rearmed clock).activeTimers = q.activeTimers := by
  unfold rearmed
  split
  · rfl
  · split_ifs <;> rfl

theorem pending_rearmed (clock : ℤ) :
    (q.rearmed clock).Pending other otherObject ↔ q.Pending other otherObject := by
  simp [Pending]

end Pending

end TimerQueue

/-! ## One batch -/

namespace TimerSystem

open TimerQueue

/-- What `handleRead` at `now` does: the timers that were pending `before` and
due are run, in order, and afterwards the pending timers are the other ones and
the added ones, without the cancelled ones, and the repeating ones of the batch
that were not cancelled. -/
structure FiresExactlyDue (before after : System) (now : ℤ) (events : List Event) : Prop where
  ran_iff : ∀ timer object, (timer, object) ∈ ranIn events ↔
    before.queue.Pending timer object ∧ object.expiration ≤ now
  ran_once : ((ranIn events).map fun ran => ran.2.sequence).Nodup
  ran_in_order : (ranIn events).Pairwise fun first second =>
    first.2.expiration ≤ second.2.expiration
  added_not_run : ∀ added ∈ addedIn events, ∀ ran ∈ ranIn events,
    ran.2.sequence ≠ added.2.sequence
  pending_iff : ∀ timer object, after.queue.Pending timer object ↔
    ((before.queue.Pending timer object ∧ now < object.expiration) ∨
        (timer, object) ∈ addedIn events) ∧ ⟨timer, object.sequence⟩ ∉ cancelledIn events ∨
      ∃ old, before.queue.Pending timer old ∧ old.expiration ≤ now ∧ old.repeats = true ∧
        ⟨timer, old.sequence⟩ ∉ cancelledIn events ∧ object = restarted old now

/-- A state within the batch, after `events`. -/
structure InBatch (before s : System) (now : ℤ) (events : List Event) : Prop where
  trace_eq : s.queue.trace = before.queue.trace ++ events
  batch : ∃ b rest, s.batch = some b ∧ b.now = now ∧ b.members = before.queue.members now ∧
    b.members = ranIn events ++ rest ∧ b.todo = rest.map entryOf
  pending : ∀ timer object, s.queue.Pending timer object ↔
    ((before.queue.Pending timer object ∧ now < object.expiration) ∨
      (timer, object) ∈ addedIn events) ∧ ⟨timer, object.sequence⟩ ∉ cancelledIn events
  canceling : ∀ member ∈ before.queue.members now,
    (member.1, member.2.sequence) ∈ s.queue.cancelingTimers ↔
      ⟨member.1, member.2.sequence⟩ ∈ cancelledIn events
  cancelled_le : ∀ id ∈ cancelledIn events, id.sequence ≤ s.queue.numCreated
  created_le : before.queue.numCreated ≤ s.queue.numCreated
  added_new : ∀ added ∈ addedIn events, before.queue.numCreated < added.2.sequence

section Batch

variable {before s t : System} {now : ℤ} {events : List Event} {label : Label}

theorem inBatch_handleRead (h : Sound before) (now : ℤ) :
    InBatch before { before with
      queue := before.queue.readTaken now
      batch := some ⟨now, before.queue.due now, before.queue.due now, before.queue.members now⟩ }
      now [.readTimerfd now] where
  trace_eq := rfl
  batch := ⟨_, before.queue.members now, rfl, rfl, rfl, rfl,
    (members_map_entryOf h.intact.consistent h.intact.allocated now).symm⟩
  pending := by
    intro timer object
    rw [pending_readTaken h.intact.consistent h.intact.allocated]
    simp [addedIn, cancelledIn]
  canceling := by simp [readTaken, cancelledIn]
  cancelled_le := by simp [cancelledIn]
  created_le := le_rfl
  added_new := by simp [addedIn]

theorem InBatch.batch_ne (h : InBatch before s now events) : s.batch ≠ none := by
  obtain ⟨b, _, hbatch, _⟩ := h.batch
  simp [hbatch]

/-- Another thread's new timer is not pending yet. -/
theorem InBatch.newTimer (h : InBatch before s now events) (hs : Sound s) {timer : ℕ}
    (hfree : s.queue.heap timer = none) (when : ℤ) (interval : ℕ) (repeats : Bool) :
    InBatch before { s with
      queue := s.queue.newTimer timer when interval repeats
      waiting := timer :: s.waiting } now events where
  trace_eq := h.trace_eq
  batch := h.batch
  pending := fun other object =>
    (pending_newTimer (hs.intact.loose_of_free hfree) _ _ _).trans (h.pending other object)
  canceling := h.canceling
  cancelled_le := fun id hid => (h.cancelled_le id hid).trans (Nat.le_succ _)
  created_le := h.created_le.trans (Nat.le_succ _)
  added_new := h.added_new

theorem InBatch.addTimer (h : InBatch before s now events) (hs : Sound s) {timer : ℕ}
    (hfree : s.queue.heap timer = none) (when : ℤ) (interval : ℕ) (repeats : Bool) (clock : ℤ) :
    ∃ more, InBatch before { s with
      queue := (s.queue.newTimer timer when interval repeats).timerAdded timer
        ⟨when, interval, repeats, s.queue.numCreated + 1⟩ clock } now (events ++ more) := by
  let object : Timer := ⟨when, interval, repeats, s.queue.numCreated + 1⟩
  let created := s.queue.newTimer timer when interval repeats
  have hheap : created.heap timer = some object := Function.update_self _ _ _
  have hloose := hs.intact.loose_of_free hfree
  obtain ⟨armings, hsilent, htrace⟩ := trace_timerAdded created timer object clock
  have hran : ranIn (.added timer object :: armings) = [] := hsilent.ran
  have hadded : addedIn (.added timer object :: armings) = [(timer, object)] :=
    congrArg ((timer, object) :: ·) hsilent.added
  have hcancelled : cancelledIn (.added timer object :: armings) = [] := hsilent.cancelled
  refine ⟨.added timer object :: armings, ?_, ?_, ?_, ?_, ?_, ?_, ?_⟩
  all_goals simp only [ranIn_append, addedIn_append, cancelledIn_append, hran, hadded, hcancelled,
    List.append_nil]
  · rw [← List.append_assoc, ← h.trace_eq]
    exact htrace
  · exact h.batch
  · intro other otherObject
    -- the new sequence is not among the cancelled ones
    have hfresh : (⟨timer, object.sequence⟩ : TimerId) ∉ cancelledIn events := by
      intro hmem
      have hle : s.queue.numCreated + 1 ≤ s.queue.numCreated := h.cancelled_le _ hmem
      omega
    rw [pending_timerAdded hheap, pending_newTimer hloose, h.pending, List.mem_append,
      List.mem_singleton, Prod.mk.injEq]
    constructor
    · rintro (⟨hold, hnot⟩ | ⟨rfl, rfl⟩)
      · exact ⟨hold.imp_right .inl, hnot⟩
      · exact ⟨.inr (.inr ⟨rfl, rfl⟩), hfresh⟩
    · rintro ⟨hold | hadded_old | hnew, hnot⟩
      · exact .inl ⟨.inl hold, hnot⟩
      · exact .inl ⟨.inr hadded_old, hnot⟩
      · exact .inr hnew
  · intro member hmember
    rw [timerAdded_cancelingTimers]
    exact h.canceling member hmember
  · intro id hid
    rw [timerAdded_numCreated]
    exact (h.cancelled_le id hid).trans (Nat.le_succ _)
  · rw [timerAdded_numCreated]
    exact h.created_le.trans (Nat.le_succ _)
  · intro added hmem
    rcases List.mem_append.1 hmem with hold | hnew
    · exact h.added_new added hold
    · rw [List.mem_singleton.1 hnew]
      exact Nat.lt_succ_of_le h.created_le

theorem InBatch.cancelActive (h : InBatch before s now events) (hs : Sound s) {id : TimerId}
    {object : Timer} (hpending : s.queue.Pending id.timer object)
    (hsequence : object.sequence = id.sequence) :
    InBatch before { s with queue := s.queue.activeCancelled id object } now
      (events ++ [.cancelled id, .deleted id.timer object false true]) := by
  have hheld : ∀ member ∈ before.queue.members now,
      (⟨member.1, member.2.sequence⟩ : TimerId) ≠ id := by
    rintro member hmember rfl
    obtain ⟨b, _, hbatch, _, hmembers, _⟩ := h.batch
    have hmem : member ∈ s.held := by rwa [System.held_eq hbatch, hmembers]
    exact hs.intact.owned.holds.loose member hmem _ hpending.2 rfl
  have hran : ranIn [.cancelled id, .deleted id.timer object false true] = [] := rfl
  have hadded : addedIn [.cancelled id, .deleted id.timer object false true] = [] := rfl
  have hcancelled : cancelledIn [.cancelled id, .deleted id.timer object false true] = [id] := rfl
  refine ⟨?_, ?_, ?_, ?_, ?_, h.created_le, ?_⟩
  all_goals simp only [ranIn_append, addedIn_append, cancelledIn_append, hran, hadded, hcancelled,
    List.append_nil, List.mem_append, List.mem_singleton]
  · rw [← List.append_assoc, ← h.trace_eq]
    rfl
  · exact h.batch
  · intro other otherObject
    rw [pending_activeCancelled hpending hsequence, h.pending, not_or, and_assoc]
  · intro member hmember
    refine (h.canceling member hmember).trans (or_iff_left (hheld member hmember)).symm
  · rintro other (hold | rfl)
    · exact h.cancelled_le other hold
    · rw [← hsequence]
      exact hs.intact.allocated.sequence_le _ _ hpending.1
  · exact h.added_new

theorem InBatch.cancelAbsent (h : InBatch before s now events) (hs : Sound s) {id : TimerId}
    (habsent : (id.timer, id.sequence) ∉ s.queue.activeTimers)
    (hissued : id.sequence ≤ s.queue.numCreated) :
    InBatch before { s with queue := s.queue.absentCancelled id } now
      (events ++ [.cancelled id]) := by
  have hcalling : s.queue.callingExpiredTimers = true := by
    obtain ⟨b, _, hbatch, _⟩ := h.batch
    rw [hs.calling, hbatch]
    rfl
  have hran : ranIn [.cancelled id] = [] := rfl
  have hadded : addedIn [.cancelled id] = [] := rfl
  have hcancelled : cancelledIn [.cancelled id] = [id] := rfl
  refine ⟨?_, ?_, ?_, ?_, ?_, h.created_le, ?_⟩
  all_goals simp only [ranIn_append, addedIn_append, cancelledIn_append, hran, hadded, hcancelled,
    List.append_nil, List.mem_append, List.mem_singleton]
  · rw [← List.append_assoc, ← h.trace_eq]
    rfl
  · exact h.batch
  · intro other otherObject
    have hsame : (s.queue.absentCancelled id).Pending other otherObject ↔
        s.queue.Pending other otherObject := Iff.rfl
    rw [hsame, h.pending, not_or, ← and_assoc]
    refine ⟨fun hpending => ⟨hpending, ?_⟩, And.left⟩
    rintro rfl
    exact habsent ((h.pending other otherObject).2 hpending).2
  · intro member hmember
    have hinsert : (s.queue.absentCancelled id).cancelingTimers =
        Insert.insert (id.timer, id.sequence) s.queue.cancelingTimers := if_pos hcalling
    have hid : (member.1, member.2.sequence) = (id.timer, id.sequence) ↔
        (⟨member.1, member.2.sequence⟩ : TimerId) = id := by
      rw [Prod.mk.injEq, TimerId.mk.injEq]
    rw [hinsert, Finset.mem_insert, h.canceling member hmember, or_comm, hid]
  · rintro other (hold | rfl)
    · exact h.cancelled_le other hold
    · exact hissued
  · exact h.added_new

theorem InBatch.runTimer (h : InBatch before s now events) (hs : Sound s) {b : Batch}
    {member : ℕ × Timer} {rest : List Entry} (hbatch : s.batch = some b)
    (htodo : b.todo = entryOf member :: rest) (hmember : member ∈ b.members) :
    InBatch before { s with
      queue := s.queue.emit (.ran member.1 member.2)
      batch := some { b with todo := rest } } now (events ++ [.ran member.1 member.2]) := by
  obtain ⟨b', todo, hbatch', hnow, hmembers, hsplit, htodo'⟩ := h.batch
  obtain rfl : b' = b := Option.some.inj (hbatch'.symm.trans hbatch)
  obtain ⟨next, later, rfl⟩ : ∃ next later, todo = next :: later := by
    cases todo with
    | nil => simp [htodo] at htodo'
    | cons next later => exact ⟨next, later, rfl⟩
  rw [htodo, List.map_cons, List.cons.injEq] at htodo'
  -- the entry names the pointer, and the pointer the timer
  have hnext : next = member := by
    have hnext_mem : next ∈ s.held := by
      rw [System.held_eq hbatch, hsplit]
      simp
    have hmember_mem : member ∈ s.held := by rwa [System.held_eq hbatch]
    have htimer : next.1 = member.1 := (congrArg Entry.timer htodo'.1).symm
    have hlive := hs.intact.held_live hnext_mem
    rw [htimer, hs.intact.held_live hmember_mem] at hlive
    exact Prod.ext htimer (Option.some.inj hlive).symm
  subst hnext
  have hadded : addedIn [.ran next.1 next.2] = [] := rfl
  have hcancelled : cancelledIn [.ran next.1 next.2] = [] := rfl
  refine ⟨?_, ⟨_, later, rfl, hnow, hmembers, ?_, htodo'.2⟩, ?_, ?_, ?_, h.created_le, ?_⟩
  all_goals simp only [addedIn_append, cancelledIn_append, hadded, hcancelled, List.append_nil]
  · rw [← List.append_assoc, ← h.trace_eq]
    rfl
  · rw [hsplit, ranIn_append, List.append_assoc]
    rfl
  · exact h.pending
  · exact h.canceling
  · exact h.cancelled_le
  · exact h.added_new

theorem inBatch_outcome (h : InBatch before s now events) (hs : Sound s)
    (houtcome : Outcome s label t) (hinner : ∀ clock, label ≠ .reset clock) :
    ∃ more, InBatch before t now (events ++ more) := by
  cases houtcome with
  | newTimer timer when interval repeats hfree hrange =>
      exact ⟨[], by simpa using h.newTimer hs hfree when interval repeats⟩
  | addTimerInLoop timer clock object hidle hwaiting hheap => exact absurd hidle h.batch_ne
  | addTimer timer when interval repeats clock hfree hrange =>
      exact h.addTimer hs hfree when interval repeats clock
  | cancelActive id object hpending hsequence => exact ⟨_, h.cancelActive hs hpending hsequence⟩
  | cancelAbsent id habsent hissued => exact ⟨_, h.cancelAbsent hs habsent hissued⟩
  | handleRead now hidle => exact absurd hidle h.batch_ne
  | runTimer b member rest hbatch htodo hmember => exact ⟨_, h.runTimer hs hbatch htodo hmember⟩
  | reset clock b hbatch htodo => exact absurd rfl (hinner clock)

/-- The end of the batch. -/
theorem InBatch.firesExactlyDue (h : InBatch before s now events) (hbefore : Sound before)
    (hs : Sound s) {b : Batch} (hbatch : s.batch = some b) (htodo : b.todo = []) (clock : ℤ)
    {ending : List Event} (hsilent : Silent ending) :
    FiresExactlyDue before { s with
      queue := ({ s.queue with callingExpiredTimers := false }.resetMembers b.now
        b.members).rearmed clock
      batch := none } now (events ++ ending) := by
  obtain ⟨hran, hadded, hcancelled⟩ := hsilent
  obtain ⟨b', rest, hbatch', rfl, hmembers, hsplit, hrest⟩ := h.batch
  obtain rfl : b' = b := Option.some.inj (hbatch'.symm.trans hbatch)
  have hconsistent := hbefore.intact.consistent
  have hallocated := hbefore.intact.allocated
  -- all members have run
  have hall : ranIn events = before.queue.members b'.now := by
    obtain rfl : rest = [] := by rwa [htodo, eq_comm, List.map_eq_nil_iff] at hrest
    rw [← hmembers, hsplit, List.append_nil]
  have hmem (timer : ℕ) (object : Timer) : (timer, object) ∈ ranIn events ↔
      before.queue.Pending timer object ∧ object.expiration ≤ b'.now := by
    rw [hall, mem_members hconsistent hallocated]
  refine ⟨?_, ?_, ?_, ?_, ?_⟩
  all_goals simp only [ranIn_append, addedIn_append, cancelledIn_append, hran, hadded, hcancelled,
    List.append_nil]
  · exact hmem
  · have hnodup := due_nodup hconsistent b'.now
    rw [← members_map_fst hconsistent hallocated, ← hall] at hnodup
    refine List.Nodup.map_on (fun first hfirst second hsecond heq => ?_) hnodup.of_map
    have hfirst' := ((hmem _ _).1 hfirst).1.1
    have hsecond' := ((hmem _ _).1 hsecond).1.1
    have htimer := hallocated.sequence_inj _ _ _ _ hfirst' hsecond' heq
    rw [htimer, hsecond'] at hfirst'
    exact Prod.ext htimer (Option.some.inj hfirst').symm
  · have hsorted : (OrderedSet.before before.queue.timers ⟨b'.now, UINTPTR_MAX⟩).Pairwise (· ≤ ·) :=
      pairwise_before
    rw [← due, ← members_map_entryOf hconsistent hallocated, ← hall, List.pairwise_map] at hsorted
    exact hsorted.imp Entry.expiration_le
  · intro added hadded_mem ran hran_mem heq
    have hle := hallocated.sequence_le _ _ ((hmem _ _).1 hran_mem).1.1
    have hnew := h.added_new added hadded_mem
    omega
  · intro timer object
    let called : TimerQueue := { s.queue with callingExpiredTimers := false }
    have hholds : Holds called b'.members := by
      have hheld := System.held_eq hbatch ▸ hs.intact.owned.holds
      exact ⟨hheld.live, hheld.loose, hheld.nodup⟩
    have hcalled : Consistent called := hs.intact.consistent.congr rfl rfl rfl
    have hpending : called.Pending timer object ↔ s.queue.Pending timer object := Iff.rfl
    rw [pending_rearmed, pending_resetMembers hcalled hholds, hpending, h.pending]
    refine or_congr_right ⟨?_, ?_⟩
    · rintro ⟨member, hmember, ⟨hrepeats, hnot⟩, rfl, rfl⟩
      rw [hmembers] at hmember
      obtain ⟨hold, hdue⟩ := (mem_members hconsistent hallocated).1 hmember
      exact ⟨member.2, hold, hdue, hrepeats,
        fun hcancel => hnot ((h.canceling member hmember).2 hcancel), rfl⟩
    · rintro ⟨old, hold, hdue, hrepeats, hnot, rfl⟩
      have hmember := (mem_members hconsistent hallocated).2 ⟨hold, hdue⟩
      exact ⟨(timer, old), hmembers ▸ hmember, ⟨hrepeats,
        fun hcanceling => hnot ((h.canceling _ hmember).1 hcanceling)⟩, rfl, rfl⟩

/-- What happened on the way from `s` to `t`. -/
def since (s t : System) : List Event := t.queue.trace.drop s.queue.trace.length

theorem since_eq {more : List Event} (h : t.queue.trace = s.queue.trace ++ more) :
    since s t = more := by
  rw [since, h, List.drop_left]

/-! ### What the labels say -/

/-- The timer that a step inserts. -/
def Label.adds : Label → Option ℕ
  | .addTimerInLoop timer _ => some timer
  | .addTimer timer _ _ _ _ => some timer
  | _ => none

/-- The timer that a step is to cancel. -/
def Label.cancels : Label → Option TimerId
  | .cancelInLoop id => some id
  | _ => none

/-- The events have the insertions and cancellations of the labels. -/
structure Records (labels : List Label) (events : List Event) : Prop where
  added : (addedIn events).map Prod.fst = labels.filterMap Label.adds
  cancelled : cancelledIn events = labels.filterMap Label.cancels

theorem Records.append {first second : List Label} {events more : List Event}
    (h : Records first events) (h' : Records second more) :
    Records (first ++ second) (events ++ more) where
  added := by rw [addedIn_append, List.map_append, List.filterMap_append, h.added, h'.added]
  cancelled := by rw [cancelledIn_append, List.filterMap_append, h.cancelled, h'.cancelled]

theorem records_outcome (houtcome : Outcome s label t) :
    ∃ more, t.queue.trace = s.queue.trace ++ more ∧ Records [label] more := by
  have hquiet {more : List Event} (hsilent : Silent more)
      (hlabel : label.adds = none ∧ label.cancels = none) : Records [label] more :=
    ⟨by rw [hsilent.added, List.filterMap_cons_none hlabel.1]; rfl,
      by rw [hsilent.cancelled, List.filterMap_cons_none hlabel.2]; rfl⟩
  have hadded {timer : ℕ} {object : Timer} {armings : List Event} (hsilent : Silent armings)
      (hadds : label.adds = some timer) (hcancels : label.cancels = none) :
      Records [label] (.added timer object :: armings) := by
    constructor
    · rw [← List.singleton_append, addedIn_append, hsilent.added, List.filterMap_cons_some hadds]
      rfl
    · rw [← List.singleton_append, cancelledIn_append, hsilent.cancelled,
        List.filterMap_cons_none hcancels]
      rfl
  cases houtcome with
  | newTimer timer when interval repeats hfree hrange =>
      exact ⟨[], (List.append_nil _).symm, hquiet ⟨rfl, rfl, rfl⟩ ⟨rfl, rfl⟩⟩
  | addTimerInLoop timer clock object hidle hwaiting hheap =>
      obtain ⟨armings, hsilent, htrace⟩ := trace_timerAdded s.queue timer object clock
      exact ⟨_, htrace, hadded hsilent rfl rfl⟩
  | addTimer timer when interval repeats clock hfree hrange =>
      obtain ⟨armings, hsilent, htrace⟩ := trace_timerAdded
        (s.queue.newTimer timer when interval repeats) timer _ clock
      exact ⟨_, htrace, hadded hsilent rfl rfl⟩
  | cancelActive id object hpending hsequence => exact ⟨_, rfl, rfl, rfl⟩
  | cancelAbsent id habsent hissued => exact ⟨_, rfl, rfl, rfl⟩
  | handleRead now hidle => exact ⟨_, rfl, hquiet ⟨rfl, rfl, rfl⟩ ⟨rfl, rfl⟩⟩
  | runTimer b member rest hbatch htodo hmember => exact ⟨_, rfl, rfl, rfl⟩
  | reset clock b hbatch htodo =>
      obtain ⟨events, hsilent, htrace⟩ := trace_reset
        { s.queue with callingExpiredTimers := false } b.now b.members clock
      exact ⟨_, htrace, hquiet hsilent ⟨rfl, rfl⟩⟩

theorem run_events {labels : List Label} (hs : Sound s) (hrun : Run Step s labels t) :
    Sound t ∧ ∃ events, t.queue.trace = s.queue.trace ++ events ∧ Records labels events := by
  induction hrun with
  | nil => exact ⟨hs, [], (List.append_nil _).symm, rfl, rfl⟩
  | snoc _ hlast ih =>
      obtain ⟨hsound, events, htrace, hrecords⟩ := ih
      have houtcome := outcome_of_step hsound hlast
      obtain ⟨more, hmore, hlabel⟩ := records_outcome houtcome
      exact ⟨sound_outcome hsound houtcome, events ++ more,
        by rw [hmore, htrace, List.append_assoc], hrecords.append hlabel⟩

theorem trace_since {labels : List Label} (hs : Sound s) (hrun : Run Step s labels t) :
    t.queue.trace = s.queue.trace ++ since s t := by
  obtain ⟨-, events, htrace, -⟩ := run_events hs hrun
  rw [since_eq htrace, htrace]

theorem run_records {labels : List Label} (hs : Sound s) (hrun : Run Step s labels t) :
    Records labels (since s t) := by
  obtain ⟨-, events, htrace, hrecords⟩ := run_events hs hrun
  rwa [since_eq htrace]

/-- The steps between `handleRead` and `reset`. -/
def Inner (_ : System) (label : Label) : Prop := ∀ clock, label ≠ .reset clock

theorem batch_firesExactlyDue {first last : System} {inner : List Label} {clock : ℤ}
    (hsound : Sound before) (hread : Step before (.handleRead now) first)
    (hinner : Run (restrict Step Inner) first inner last) (hreset : Step last (.reset clock) t) :
    FiresExactlyDue before t now (since before t) := by
  have hfirst : Sound first ∧ ∃ events, InBatch before first now events := by
    have houtcome := outcome_of_step hsound hread
    refine ⟨sound_outcome hsound houtcome, ?_⟩
    cases houtcome with
    | handleRead _ hidle => exact ⟨_, inBatch_handleRead hsound now⟩
  have hlast : Sound last ∧ ∃ events, InBatch before last now events := by
    refine hinner.invariant (P := fun s => Sound s ∧ ∃ events, InBatch before s now events)
      hfirst ?_
    rintro a label c ⟨ha, events, hbatch⟩ ⟨hstep, hlabel⟩
    have houtcome := outcome_of_step ha hstep
    obtain ⟨more, hmore⟩ := inBatch_outcome hbatch ha houtcome hlabel
    exact ⟨sound_outcome ha houtcome, _, hmore⟩
  obtain ⟨hlast_sound, events, hevents⟩ := hlast
  cases outcome_of_step hlast_sound hreset with
  | reset _ b hbatch htodo =>
      let called : TimerQueue := { last.queue with callingExpiredTimers := false }
      obtain ⟨more, hsilent, htrace⟩ := trace_reset called b.now b.members clock
      have hfull : ((called.resetMembers b.now b.members).rearmed clock).trace =
          before.queue.trace ++ (events ++ more) := by
        rw [htrace, ← List.append_assoc, ← hevents.trace_eq]
      have hfires := hevents.firesExactlyDue hsound hlast_sound hbatch htodo clock hsilent
      rwa [since_eq hfull]

/-- The loop of `handleRead` runs the callbacks that are left. -/
theorem exists_runTimers {b : Batch} (h : Sound s) (hbatch : s.batch = some b) :
    ∃ t, Run Step s (List.replicate b.todo.length .runTimer) t ∧ Sound t ∧
      t.batch = some { b with todo := [] } := by
  obtain ⟨todo, htodo⟩ : ∃ todo, b.todo = todo := ⟨_, rfl⟩
  rw [htodo]
  induction todo generalizing s b with
  | nil => exact ⟨s, .nil, h, by rw [hbatch, ← htodo]⟩
  | cons it rest ih =>
      obtain ⟨next, hstep, hnext, hnext_batch, -⟩ := exists_runTimer h hbatch htodo
      obtain ⟨t, hrun, ht, hdone⟩ := ih hnext hnext_batch rfl
      exact ⟨t, (Run.single hstep).append hrun, ht, hdone⟩

/-- A `handleRead` whose callbacks add and cancel nothing. -/
theorem exists_batch (h : Sound s) (hidle : s.batch = none) (now clock : ℤ) :
    ∃ labels t, Run Step s labels t ∧ t.batch = none ∧ FiresExactlyDue s t now (since s t) ∧
      cancelledIn (since s t) = [] := by
  have hread : Enabled s (.handleRead now) := hidle
  obtain ⟨reading, hreading, houtcome⟩ := exec_outcome h hread
  have hreading_sound := sound_outcome h houtcome
  obtain ⟨b, hbatch⟩ : ∃ b, reading.batch = some b := by
    cases houtcome with
    | handleRead => exact ⟨_, rfl⟩
  obtain ⟨last, hinner, hlast, hdone⟩ := exists_runTimers hreading_sound hbatch
  have hreset : Enabled last (.reset clock) := ⟨_, hdone, rfl⟩
  obtain ⟨t, ht, houtcome⟩ := exec_outcome hlast hreset
  have hrun := ((Run.single ⟨hread, hreading⟩).append hinner).snoc ⟨hreset, ht⟩
  have hrunTimers : Run (restrict Step Inner) reading _ last :=
    hinner.restrict_of_forall fun label hmem _ => by
      rw [List.eq_of_mem_replicate hmem]
      exact fun _ => nofun
  refine ⟨_, t, hrun, ?_, batch_firesExactlyDue h ⟨hread, hreading⟩ hrunTimers ⟨hreset, ht⟩, ?_⟩
  · cases houtcome with
    | reset => rfl
  · rw [(run_records h hrun).cancelled, List.filterMap_eq_nil_iff]
    intro label hmem
    rcases List.mem_append.1 hmem with hmem | hmem
    · rcases List.mem_append.1 hmem with hmem | hmem
      · rw [List.mem_singleton.1 hmem]
        rfl
      · rw [List.eq_of_mem_replicate hmem]
        rfl
    · rw [List.mem_singleton.1 hmem]
      rfl

end Batch

/-- The timer that the callback has added waits in the queue. -/
theorem run_batch_pending : ∃ after, Run Step {} ([.addTimer 16 1000 0 false 1,
    .addTimer 17 1000 500 true 1, .handleRead 2000] ++ batchLabels ++ [.reset 2001]) after ∧
      after.batch = none ∧ ∃ object, after.queue.Pending 18 object := by
  obtain ⟨reading, last, after, hread, hinner, hreset, hidle⟩ := run_batch
  have hsound := run_sound run_twoTimers
  have hfires := batch_firesExactlyDue hsound hread
    (hinner.restrict_of_forall (by simp [Inner, batchLabels])) hreset
  have hrecords := run_records hsound (((Run.single hread).append hinner).snoc hreset)
  refine ⟨after, ((run_twoTimers.snoc hread).append hinner).snoc hreset, hidle, ?_⟩
  have hadded : 18 ∈ (addedIn (since twoTimers after)).map Prod.fst := by
    rw [hrecords.added]
    exact List.mem_singleton_self 18
  obtain ⟨⟨timer, object⟩, hmem, rfl⟩ := List.mem_map.1 hadded
  refine ⟨object, (hfires.pending_iff _ object).2 (.inl ⟨.inr hmem, ?_⟩)⟩
  rw [hrecords.cancelled]
  intro hcancelled
  have htimer : 18 = 17 := congrArg TimerId.timer (List.mem_singleton.1 hcancelled)
  exact absurd htimer (by decide)

end TimerSystem

end MuduoLite
