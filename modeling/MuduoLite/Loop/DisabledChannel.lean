import MuduoLite.Loop.ChannelTable

/-!
# Channels without interest

A channel that has lost its last interest should not be watched: the kernel reports
`EPOLLERR` and `EPOLLHUP` for an empty mask too.  `updateChannel` takes such a channel out
of the kernel's list if it is there, and puts it in if it is not.  So what a disabling
setter does depends on the index, and disabling a channel twice watches it again.
-/

namespace MuduoLite

open Transition

namespace Channel

/-! ## Setters that leave no interest -/

/-- The operations after which `events_` is `kNoneEvent`, but for `remove`. -/
def LeavesNone (c : Channel) : Operation → Prop
  | .disableReading => c.events &&& ~~~kReadEvent = kNoneEvent
  | .disableWriting => c.events &&& ~~~kWriteEvent = kNoneEvent
  | .disableAll => True
  | _ => False

section

variable {p : EPollPoller} {ptr : ℕ} {c : Channel} {operation : Operation}

theorem or_ne_kNoneEvent {events mask : EventMask} (h : mask ≠ kNoneEvent) :
    events ||| mask ≠ kNoneEvent := fun hnone => h (BitVec.or_eq_zero_iff.1 hnone).2

theorem events_of_setter (hsetter : operation ≠ .remove) :
    (c.perform p ptr operation).2.events = kNoneEvent ↔ c.LeavesNone operation := by
  cases operation with
  | enableReading =>
      rw [perform, enableReading, setEvents, EPollPoller.updateChannel_events]
      exact iff_of_false (or_ne_kNoneEvent (by decide)) id
  | disableReading => rw [perform, disableReading, setEvents, EPollPoller.updateChannel_events]; rfl
  | enableWriting =>
      rw [perform, enableWriting, setEvents, EPollPoller.updateChannel_events]
      exact iff_of_false (or_ne_kNoneEvent (by decide)) id
  | disableWriting => rw [perform, disableWriting, setEvents, EPollPoller.updateChannel_events]; rfl
  | disableAll =>
      rw [perform, disableAll, setEvents, EPollPoller.updateChannel_events]
      exact iff_of_true rfl trivial
  | remove => exact absurd rfl hsetter

/-- A setter that leaves no interest flips between watching and not watching. -/
theorem index_of_leavesNone (hnone : c.LeavesNone operation) :
    (c.perform p ptr operation).2.index = if c.index = .kAdded then .kDeleted else .kAdded := by
  have hsetter : operation ≠ .remove := by
    rintro rfl
    exact hnone
  have hevents : (c.perform p ptr operation).2.events = kNoneEvent :=
    (events_of_setter hsetter).2 hnone
  rcases perform_cases p ptr c operation with ⟨_, events, heq⟩ | ⟨hremove, _⟩
  · rw [heq, setEvents, EPollPoller.updateChannel_events] at hevents
    rw [heq, setEvents]
    exact EPollPoller.updateChannel_index_of_none p ptr (decide_eq_true hevents)
  · exact absurd hremove hsetter

theorem perform_remove_index : (c.perform p ptr .remove).2.index = .kNew := rfl

end

/-- A second `disableAll` undoes the first one: the channel changes its index, and the
kernel its mind. -/
theorem disableAll_disableAll {p : EPollPoller} {ptr : ℕ} {c : Channel}
    (h : EPollPoller.Mirrors p ptr c) :
    let once := c.disableAll p ptr
    let twice := once.2.disableAll once.1 ptr
    twice.2.index ≠ once.2.index ∧ (twice.1.interest c.fd ≠ once.1.interest c.fd) := by
  intro once twice
  have honce : EPollPoller.Mirrors once.1 ptr once.2 := (perform_mirrors h .disableAll).1
  have htwice : EPollPoller.Mirrors twice.1 ptr twice.2 := (perform_mirrors honce .disableAll).1
  have hfd : once.2.fd = c.fd := perform_fd .disableAll
  have hfd' : twice.2.fd = c.fd := (perform_fd .disableAll).trans hfd
  have hindex : twice.2.index = if once.2.index = .kAdded then .kDeleted else .kAdded :=
    index_of_leavesNone (show once.2.LeavesNone .disableAll from trivial)
  have hinterest := honce.interest_eq
  have hinterest' := htwice.interest_eq
  rw [hfd] at hinterest
  rw [hfd'] at hinterest'
  rw [hinterest, hinterest', hindex]
  by_cases hadded : once.2.index = .kAdded
  · simp [hadded]
  · rw [if_neg hadded, if_neg hadded, if_pos rfl]
    exact ⟨Ne.symm hadded, Option.some_ne_none _⟩

end Channel

namespace ChannelTable

/-! ## Runs -/

/-- No channel without interest is in the kernel's list. -/
def Quiet (s : ChannelTable) : Prop :=
  ∀ ptr c, s.channel ptr = some c → c.events = Channel.kNoneEvent →
    s.poller.interest c.fd = none

/-- A setter that leaves no interest is called only while the channel is added. -/
def DisablesAdded (s : ChannelTable) : Label → Prop
  | .call ptr operation => ∀ c, s.channel ptr = some c → c.LeavesNone operation → c.index = .kAdded
  | .poll _ => True

theorem Mirrored.quiet_iff {s : ChannelTable} (h : Mirrored s) : Quiet s ↔
    ∀ ptr c, s.channel ptr = some c → c.events = Channel.kNoneEvent → c.index ≠ .kAdded := by
  refine forall_congr' fun ptr => forall_congr' fun c => imp_congr_right fun hc =>
    imp_congr_right fun _ => ?_
  rw [(h.mirrors ptr c hc).interest_eq]
  split_ifs with hindex
  · simp [hindex]
  · simp [hindex]

/-- A step keeps the disabled channels unwatched if and only if it disables no channel that
is not watched. -/
theorem Mirrored.quiet_step_iff {s t : ChannelTable} {label : Label} (h : Mirrored s)
    (hquiet : Quiet s) (hstep : Step s label t) : Quiet t ↔ DisablesAdded s label := by
  rw [(h.step hstep).quiet_iff]
  rw [h.quiet_iff] at hquiet
  cases label with
  | poll events =>
      obtain ⟨_, rfl⟩ := hstep
      exact iff_of_true hquiet trivial
  | call ptr operation =>
      obtain ⟨c, hc, rfl⟩ := hstep
      constructor
      · intro hafter c' hc' hnone
        obtain rfl : c = c' := Option.some.inj (hc.symm.trans hc')
        have hsetter : operation ≠ .remove := by
          rintro rfl
          exact hnone
        have hindex := hafter ptr _ (s.perform_channel_self ptr c operation)
          ((Channel.events_of_setter hsetter).2 hnone)
        rw [Channel.index_of_leavesNone hnone] at hindex
        by_contra hadded
        exact hindex (if_neg hadded)
      · intro hadded other c' hc' hevents
        by_cases hother : other = ptr
        · subst hother
          rw [perform_channel_self] at hc'
          rw [← Option.some.inj hc'] at hevents ⊢
          by_cases hremove : operation = .remove
          · rw [hremove, Channel.perform_remove_index]
            decide
          · have hnone := (Channel.events_of_setter hremove).1 hevents
            rw [Channel.index_of_leavesNone hnone, if_pos (hadded c hc hnone)]
            decide
        · rw [perform_channel_of_ne s hother] at hc'
          exact hquiet other c' hc' hevents

/-- Unless a channel is disabled while it is not added, no disabled channel is watched.
Two calls of `disableAll` never leave what one leaves. -/
theorem disabled_quiet (s₀ : ChannelTable) (hstart : Start s₀) :
    (∀ labels s, Run (restrict Step DisablesAdded) s₀ labels s →
      Quiet s ∧ ∀ label t, Step s label t → (Quiet t ↔ DisablesAdded s label)) ∧
    ∀ labels s, Run Step s₀ labels s → ∀ ptr c, s.channel ptr = some c →
      let once := c.disableAll s.poller ptr
      let twice := once.2.disableAll once.1 ptr
      twice.2.index ≠ once.2.index ∧ twice.1.interest c.fd ≠ once.1.interest c.fd := by
  refine ⟨fun labels s hrun => ?_, fun labels s hrun ptr c hc => ?_⟩
  · have hnew : Quiet s₀ := hstart.mirrored.quiet_iff.2 fun ptr c hc _ => by
      rw [hstart.index_eq ptr c hc]
      decide
    have h : Mirrored s ∧ Quiet s :=
      hrun.invariant (P := fun s => Mirrored s ∧ Quiet s) ⟨hstart.mirrored, hnew⟩
        fun a label b ha hstep =>
          ⟨ha.1.step hstep.1, (ha.1.quiet_step_iff ha.2 hstep.1).2 hstep.2⟩
    exact ⟨h.2, fun label t => h.1.quiet_step_iff h.2⟩
  · have h : Mirrored s := hrun.invariant hstart.mirrored fun _ _ _ => Mirrored.step
    exact Channel.disableAll_disableAll (h.mirrors ptr c hc)

/-- A channel reads for a while and is disabled. -/
theorem disabled_quiet_once : ∃ s, Quiet s ∧ s.poller.channels 5 = some 0 := by
  let reading := twoChannels.perform 0 { fd := 5 } .enableReading
  have hread : Step twoChannels (.call 0 .enableReading) reading := ⟨_, rfl, rfl⟩
  have hdisable : Step reading (.call 0 .disableAll)
      (reading.perform 0 { fd := 5, events := Channel.kReadEvent, index := .kAdded } .disableAll) :=
    ⟨_, rfl, rfl⟩
  have hread' : DisablesAdded twoChannels (.call 0 .enableReading) := fun _ _ hnone => hnone.elim
  have hdisable' : DisablesAdded reading (.call 0 .disableAll) := by
    intro c hc _
    obtain rfl := Option.some.inj hc
    rfl
  exact ⟨_, ((disabled_quiet twoChannels twoChannels_start).1 _ _
    ((Run.single ⟨hread, hread'⟩).snoc ⟨hdisable, hdisable'⟩)).1, rfl⟩

/-- A new channel is disabled, as by an acceptor that never listened: the kernel watches it
now. -/
theorem disabled_channel_watched :
    ¬ ∀ (s₀ s : ChannelTable) (labels : List Label), Start s₀ → Run Step s₀ labels s →
      Quiet s := by
  intro hclaim
  have hstep : Step twoChannels (.call 0 .disableAll)
      (twoChannels.perform 0 { fd := 5 } .disableAll) := ⟨_, rfl, rfl⟩
  have hwatched := hclaim twoChannels _ _ twoChannels_start (Run.single hstep) 0
    { fd := 5, index := .kAdded } rfl rfl
  exact absurd hwatched (by decide)

end ChannelTable

end MuduoLite
