import MuduoLite.Library.Transition
import MuduoLite.Loop.Poller

/-!
# The channels of one poller

Any number of channels with distinct fds share an `EPollPoller`.  Their owners call the
interest setters and `remove` in any order, and the loop polls in between.  The table of
the poller, the kernel's interest list and the fields of the channels stay in agreement
(`MirrorsKernel`), so `epoll_ctl` never fails for the fd being absent or present.

`updateChannel` looks at the index first.  A channel that is in the kernel's list and has
lost its last interest leaves the list, but a channel that is not in it is added, also
when it has no interest (`EPollPoller.updateChannel_index_of_none`).  So disabling a
channel that is new or was disabled before makes the kernel watch it.
-/

namespace MuduoLite

open Transition
open Function (update)

/-- `Poller::hasChannel`. -/
def EPollPoller.hasChannel (p : EPollPoller) (ptr : ℕ) (c : Channel) : Bool :=
  p.channels c.fd = some ptr

namespace Channel

/-! ## Operations of a channel -/

variable (p : EPollPoller) (ptr : ℕ) (c : Channel)

/-- Store `events_` and call `update`, as every interest setter does. -/
def setEvents (events : EventMask) : EPollPoller × Channel :=
  p.updateChannel ptr { c with events := events }

def enableReading : EPollPoller × Channel := setEvents p ptr c (c.events ||| kReadEvent)

def disableReading : EPollPoller × Channel := setEvents p ptr c (c.events &&& ~~~kReadEvent)

def enableWriting : EPollPoller × Channel := setEvents p ptr c (c.events ||| kWriteEvent)

def disableWriting : EPollPoller × Channel := setEvents p ptr c (c.events &&& ~~~kWriteEvent)

def disableAll : EPollPoller × Channel := setEvents p ptr c kNoneEvent

def remove : EPollPoller × Channel := p.removeChannel ptr c

inductive Operation
  | enableReading
  | disableReading
  | enableWriting
  | disableWriting
  | disableAll
  | remove
  deriving DecidableEq, Repr

def perform : Operation → EPollPoller × Channel
  | .enableReading => enableReading p ptr c
  | .disableReading => disableReading p ptr c
  | .enableWriting => enableWriting p ptr c
  | .disableWriting => disableWriting p ptr c
  | .disableAll => disableAll p ptr c
  | .remove => remove p ptr c

/-- An operation stores some events and updates, or removes the channel. -/
theorem perform_cases (operation : Operation) :
    (operation ≠ .remove ∧ ∃ events, perform p ptr c operation = setEvents p ptr c events) ∨
      operation = .remove ∧ perform p ptr c operation = p.removeChannel ptr c := by
  cases operation with
  | enableReading => exact .inl ⟨by decide, _, rfl⟩
  | disableReading => exact .inl ⟨by decide, _, rfl⟩
  | enableWriting => exact .inl ⟨by decide, _, rfl⟩
  | disableWriting => exact .inl ⟨by decide, _, rfl⟩
  | disableAll => exact .inl ⟨by decide, _, rfl⟩
  | remove => exact .inr ⟨rfl, rfl⟩

variable {p ptr c}

theorem perform_fd (operation : Operation) : (perform p ptr c operation).2.fd = c.fd := by
  rcases perform_cases p ptr c operation with ⟨_, events, h⟩ | ⟨_, h⟩
  · rw [h, setEvents, EPollPoller.updateChannel_fd]
  · rw [h, EPollPoller.removeChannel]

theorem perform_mirrors (h : EPollPoller.Mirrors p ptr c) (operation : Operation) :
    EPollPoller.Mirrors (perform p ptr c operation).1 ptr (perform p ptr c operation).2 ∧
      EPollPoller.AgreesOff p (perform p ptr c operation).1 c.fd := by
  rcases perform_cases p ptr c operation with ⟨_, events, heq⟩ | ⟨_, heq⟩
  · rw [heq]
    exact EPollPoller.updateChannel_mirrors h events
  · rw [heq]
    exact EPollPoller.removeChannel_mirrors h

end Channel

/-! ## Channels and their poller -/

structure ChannelTable where
  poller : EPollPoller := {}
  /-- the channels by their pointers -/
  channel : ℕ → Option Channel
  /-- the channels that the last poll reported, with their `revents_` -/
  activeChannels : List (ℕ × EventMask) := []

namespace ChannelTable

inductive Label
  | call (ptr : ℕ) (operation : Channel.Operation)
  /-- `events` is what `epoll_wait` returned, by fd -/
  | poll (events : List (ℕ × EventMask))
  deriving DecidableEq, Repr

def perform (s : ChannelTable) (ptr : ℕ) (c : Channel) (operation : Channel.Operation) :
    ChannelTable :=
  let done := c.perform s.poller ptr operation
  { s with poller := done.1, channel := update s.channel ptr (some done.2) }

/-- `fillActiveChannels`: each event carries the `data.ptr` of its entry. -/
def fillActiveChannels (s : ChannelTable) (events : List (ℕ × EventMask)) :
    List (ℕ × EventMask) :=
  events.filterMap fun event => (s.poller.interest event.1).map fun entry => (entry.1, event.2)

/-- `EPOLLERR` and `EPOLLHUP` are reported whether asked for or not. -/
def Ready (s : ChannelTable) (event : ℕ × EventMask) : Prop :=
  ∃ ptr mask, s.poller.interest event.1 = some (ptr, mask) ∧
    event.2 &&& ~~~(mask ||| EPOLLERR ||| EPOLLHUP) = 0

def Step (s : ChannelTable) (label : Label) (t : ChannelTable) : Prop :=
  match label with
  | .call ptr operation => ∃ c, s.channel ptr = some c ∧ t = s.perform ptr c operation
  | .poll events =>
      (∀ event ∈ events, s.Ready event) ∧
        t = { s with activeChannels := s.fillActiveChannels events }

/-- New channels with distinct fds, and a poller that knows none of them. -/
structure Start (s : ChannelTable) : Prop where
  poller_eq : s.poller = {}
  distinct : ∀ ptr ptr' c c', s.channel ptr = some c → s.channel ptr' = some c' →
    c.fd = c'.fd → ptr = ptr'
  index_eq : ∀ ptr c, s.channel ptr = some c → c.index = .kNew

/-! ## The invariant -/

/-- Every channel is mirrored, the poller knows no other fd, and no `epoll_ctl` failed. -/
structure Mirrored (s : ChannelTable) : Prop where
  distinct : ∀ ptr ptr' c c', s.channel ptr = some c → s.channel ptr' = some c' →
    c.fd = c'.fd → ptr = ptr'
  mirrors : ∀ ptr c, s.channel ptr = some c → s.poller.Mirrors ptr c
  untouched : ∀ fd, (∀ ptr c, s.channel ptr = some c → c.fd ≠ fd) →
    s.poller.channels fd = none ∧ s.poller.interest fd = none
  failedCtl_eq : s.poller.failedCtl = []

theorem Start.mirrored {s : ChannelTable} (h : Start s) : Mirrored s where
  distinct := h.distinct
  mirrors := by
    intro ptr c hc
    have hindex : c.index = .kNew := h.index_eq ptr c hc
    exact ⟨by simp [h.poller_eq, hindex], by simp [h.poller_eq, hindex]⟩
  untouched := fun fd _ => by simp [h.poller_eq]
  failedCtl_eq := by rw [h.poller_eq]

theorem perform_channel_self (s : ChannelTable) (ptr : ℕ) (c : Channel)
    (operation : Channel.Operation) :
    (s.perform ptr c operation).channel ptr = some (c.perform s.poller ptr operation).2 :=
  Function.update_self _ _ _

theorem perform_channel_of_ne (s : ChannelTable) {ptr other : ℕ} (h : other ≠ ptr) (c : Channel)
    (operation : Channel.Operation) :
    (s.perform ptr c operation).channel other = s.channel other :=
  Function.update_of_ne h _ _

/-- A channel after an operation was there before, with the same fd. -/
theorem exists_of_perform {s : ChannelTable} {ptr : ℕ} {c : Channel} (hc : s.channel ptr = some c)
    {operation : Channel.Operation} {other : ℕ} {c' : Channel}
    (hc' : (s.perform ptr c operation).channel other = some c') :
    ∃ d, s.channel other = some d ∧ c'.fd = d.fd := by
  by_cases hother : other = ptr
  · subst hother
    rw [perform_channel_self] at hc'
    rw [← Option.some.inj hc']
    exact ⟨c, hc, Channel.perform_fd operation⟩
  · rw [perform_channel_of_ne s hother] at hc'
    exact ⟨c', hc', rfl⟩

theorem Mirrored.perform {s : ChannelTable} (h : Mirrored s) {ptr : ℕ} {c : Channel}
    (hc : s.channel ptr = some c) (operation : Channel.Operation) :
    Mirrored (s.perform ptr c operation) := by
  obtain ⟨hmirrors, hagrees⟩ := Channel.perform_mirrors (h.mirrors ptr c hc) operation
  refine ⟨?_, ?_, ?_, ?_⟩
  · intro first second c₁ c₂ h₁ h₂ hfd
    obtain ⟨d₁, h₁, hfd₁⟩ := exists_of_perform hc h₁
    obtain ⟨d₂, h₂, hfd₂⟩ := exists_of_perform hc h₂
    exact h.distinct first second d₁ d₂ h₁ h₂ (by rw [← hfd₁, ← hfd₂, hfd])
  · intro other c' hc'
    by_cases hother : other = ptr
    · subst hother
      rw [perform_channel_self] at hc'
      rw [← Option.some.inj hc']
      exact hmirrors
    · -- the fd of another channel is another fd
      rw [perform_channel_of_ne s hother] at hc'
      have hfd : c'.fd ≠ c.fd := fun heq => hother (h.distinct other ptr c' c hc' hc heq)
      exact hagrees.mirrors hfd (h.mirrors other c' hc')
  · intro fd hfd
    have hne : fd ≠ c.fd := by
      have := hfd ptr _ (perform_channel_self s ptr c operation)
      rw [Channel.perform_fd] at this
      exact this.symm
    have hbefore : ∀ other d, s.channel other = some d → d.fd ≠ fd := by
      intro other d hd
      by_cases hother : other = ptr
      · subst hother
        rw [hc] at hd
        rw [← Option.some.inj hd]
        exact hne.symm
      · exact hfd other d (by rw [perform_channel_of_ne s hother, hd])
    rw [← (h.untouched fd hbefore).1, ← (h.untouched fd hbefore).2]
    exact ⟨hagrees.channels_eq fd hne, hagrees.interest_eq fd hne⟩
  · exact hagrees.failedCtl_eq.trans h.failedCtl_eq

theorem Mirrored.step {s t : ChannelTable} {label : Label} (h : Mirrored s)
    (hstep : Step s label t) : Mirrored t := by
  cases label with
  | call ptr operation =>
      obtain ⟨c, hc, rfl⟩ := hstep
      exact h.perform hc operation
  | poll events =>
      obtain ⟨_, rfl⟩ := hstep
      exact ⟨h.distinct, h.mirrors, h.untouched, h.failedCtl_eq⟩

/-! ## The table, the kernel and the channels -/

/-- The table holds the channels that are not new, the kernel's list the channels that
are added, and every `epoll_ctl` so far was legal. -/
structure MirrorsKernel (s : ChannelTable) : Prop where
  hasChannel_iff : ∀ ptr c, s.channel ptr = some c →
    (s.poller.hasChannel ptr c = true ↔ c.index ≠ .kNew)
  channels_iff : ∀ fd ptr, s.poller.channels fd = some ptr ↔
    ∃ c, s.channel ptr = some c ∧ c.fd = fd ∧ c.index ≠ .kNew
  interest_iff : ∀ fd ptr mask, s.poller.interest fd = some (ptr, mask) ↔
    ∃ c, s.channel ptr = some c ∧ c.fd = fd ∧ c.index = .kAdded ∧ c.events = mask
  failedCtl_eq : s.poller.failedCtl = []

/-- An fd that the poller or the kernel knows is the fd of a channel. -/
theorem Mirrored.exists_channel {s : ChannelTable} (h : Mirrored s) {fd : ℕ}
    (hknown : s.poller.channels fd ≠ none ∨ s.poller.interest fd ≠ none) :
    ∃ ptr c, s.channel ptr = some c ∧ c.fd = fd := by
  by_contra hnone
  have huntouched := h.untouched fd fun ptr c hc hfd => hnone ⟨ptr, c, hc, hfd⟩
  rcases hknown with hchannels | hinterest
  · exact hchannels huntouched.1
  · exact hinterest huntouched.2

theorem Mirrored.channels_iff {s : ChannelTable} (h : Mirrored s) (fd ptr : ℕ) :
    s.poller.channels fd = some ptr ↔
      ∃ c, s.channel ptr = some c ∧ c.fd = fd ∧ c.index ≠ .kNew := by
  constructor
  · intro hptr
    obtain ⟨other, c, hc, rfl⟩ := h.exists_channel (.inl (hptr ▸ Option.some_ne_none ptr))
    rw [(h.mirrors other c hc).channels_eq] at hptr
    split_ifs at hptr with hindex
    obtain rfl := Option.some.inj hptr
    exact ⟨c, hc, rfl, hindex⟩
  · rintro ⟨c, hc, rfl, hindex⟩
    rw [(h.mirrors ptr c hc).channels_eq, if_neg hindex]

theorem Mirrored.interest_iff {s : ChannelTable} (h : Mirrored s) (fd ptr : ℕ) (mask : EventMask) :
    s.poller.interest fd = some (ptr, mask) ↔
      ∃ c, s.channel ptr = some c ∧ c.fd = fd ∧ c.index = .kAdded ∧ c.events = mask := by
  constructor
  · intro hentry
    obtain ⟨other, c, hc, rfl⟩ := h.exists_channel (.inr (hentry ▸ Option.some_ne_none _))
    rw [(h.mirrors other c hc).interest_eq] at hentry
    split_ifs at hentry with hindex
    obtain ⟨rfl, rfl⟩ := Prod.mk.inj (Option.some.inj hentry)
    exact ⟨c, hc, rfl, hindex, rfl⟩
  · rintro ⟨c, hc, rfl, hindex, rfl⟩
    rw [(h.mirrors ptr c hc).interest_eq, if_pos hindex]

theorem Mirrored.mirrorsKernel {s : ChannelTable} (h : Mirrored s) : MirrorsKernel s where
  hasChannel_iff := by
    intro ptr c hc
    rw [EPollPoller.hasChannel, decide_eq_true_iff, (h.mirrors ptr c hc).channels_eq]
    split_ifs with hindex
    · simp [hindex]
    · simp [hindex]
  channels_iff := h.channels_iff
  interest_iff := h.interest_iff
  failedCtl_eq := h.failedCtl_eq

/-- A reported channel is in the kernel's list, so it is added and in the table. -/
theorem Mirrored.channels_of_active {s : ChannelTable} (h : Mirrored s)
    {events : List (ℕ × EventMask)} {active : ℕ × EventMask}
    (hactive : active ∈ s.fillActiveChannels events) :
    ∃ fd, s.poller.channels fd = some active.1 := by
  obtain ⟨event, _, hentry⟩ := List.mem_filterMap.1 hactive
  obtain ⟨⟨ptr, mask⟩, hinterest, rfl⟩ := Option.map_eq_some_iff.1 hentry
  obtain ⟨c, hc, hfd, hindex, _⟩ := (h.interest_iff event.1 ptr mask).1 hinterest
  refine ⟨event.1, (h.channels_iff event.1 ptr).2 ⟨c, hc, hfd, ?_⟩⟩
  rw [hindex]
  decide

/-- Whatever the owners of the channels call, the table, the kernel and the channels agree,
and a poll reports channels of the table only. -/
theorem poller_mirrors (s₀ s : ChannelTable) (labels : List Label) (hstart : Start s₀)
    (hrun : Run Step s₀ labels s) :
    MirrorsKernel s ∧ ∀ events t, Step s (.poll events) t →
      ∀ active ∈ t.activeChannels, ∃ fd, t.poller.channels fd = some active.1 := by
  have h : Mirrored s := hrun.invariant hstart.mirrored fun _ _ _ => Mirrored.step
  refine ⟨h.mirrorsKernel, fun events t hstep active hactive => ?_⟩
  obtain ⟨_, rfl⟩ := hstep
  exact h.channels_of_active hactive

/-- Two channels with the fds 5 and 6. -/
def twoChannels : ChannelTable where
  channel := fun ptr => if ptr < 2 then some { fd := 5 + ptr } else none

theorem twoChannels_start : Start twoChannels where
  poller_eq := rfl
  distinct := by
    intro ptr ptr' c c' hc hc' hfd
    simp only [twoChannels, Option.ite_none_right_eq_some, Option.some.injEq] at hc hc'
    obtain ⟨_, rfl⟩ := hc
    obtain ⟨_, rfl⟩ := hc'
    exact Nat.add_left_cancel hfd
  index_eq := by
    intro ptr c hc
    simp only [twoChannels, Option.ite_none_right_eq_some, Option.some.injEq] at hc
    obtain ⟨_, rfl⟩ := hc
    rfl

/-- One channel starts reading and the other one writing. -/
theorem poller_mirrors_two : ∃ s, MirrorsKernel s ∧
    s.poller.interest 5 = some (0, Channel.kReadEvent) ∧
    s.poller.interest 6 = some (1, Channel.kWriteEvent) := by
  have hread : Step twoChannels (.call 0 .enableReading)
      (twoChannels.perform 0 { fd := 5 } .enableReading) := ⟨_, rfl, rfl⟩
  have hwrite : Step (twoChannels.perform 0 { fd := 5 } .enableReading) (.call 1 .enableWriting)
      ((twoChannels.perform 0 { fd := 5 } .enableReading).perform 1 { fd := 6 } .enableWriting) :=
    ⟨_, rfl, rfl⟩
  exact ⟨_, (poller_mirrors twoChannels _ _ twoChannels_start ((Run.single hread).snoc hwrite)).1,
    rfl, rfl⟩

end ChannelTable

end MuduoLite
