import Mathlib.Data.BitVec
import Mathlib.Logic.Function.Basic

/-!
# Channels and the epoll poller

A `Channel` holds an fd, the events its owner is interested in and the index the
poller keeps in it.  `EPollPoller` holds the table `channels` from fd to channel
and, in `interest`, what the kernel has been told through `epoll_ctl`.

A failing `epoll_ctl` leaves the kernel's list alone and is recorded in
`failedCtl`: for `EPOLL_CTL_ADD` and `EPOLL_CTL_MOD` the code exits the process
there (`LOG_FATAL`), for `EPOLL_CTL_DEL` it logs.

`Mirrors` says that the table, the kernel's list and the channel's own fields
agree.  Every operation of a channel keeps it, and while it holds no `epoll_ctl`
fails.
-/

namespace MuduoLite

abbrev EventMask := BitVec 32

def EPOLLIN : EventMask := 0x001

def EPOLLPRI : EventMask := 0x002

def EPOLLOUT : EventMask := 0x004

def EPOLLERR : EventMask := 0x008

def EPOLLHUP : EventMask := 0x010

/-- The state of a channel in its poller. -/
inductive Index
  | kNew
  | kAdded
  | kDeleted
  deriving DecidableEq, Repr

structure Channel where
  fd : ℕ
  events : EventMask := 0
  index : Index := .kNew
  tied : Bool := false
  deriving DecidableEq, Repr

namespace Channel

def kNoneEvent : EventMask := 0

def kReadEvent : EventMask := EPOLLIN ||| EPOLLPRI

def kWriteEvent : EventMask := EPOLLOUT

def isNoneEvent (c : Channel) : Bool := c.events = kNoneEvent

def isWriting (c : Channel) : Bool := c.events &&& kWriteEvent ≠ 0

def isReading (c : Channel) : Bool := c.events &&& kReadEvent ≠ 0

/-! ## The interest bits -/

theorem not_isNoneEvent_of_isReading {c : Channel} (h : c.isReading = true) :
    c.isNoneEvent = false := by
  simp only [isReading, isNoneEvent, ne_eq, decide_not, Bool.not_eq_eq_eq_not, Bool.not_true,
    decide_eq_false_iff_not] at h ⊢
  intro hnone
  simp [hnone, kNoneEvent] at h

theorem or_kWriteEvent_and (events : EventMask) :
    (events ||| kWriteEvent) &&& kWriteEvent ≠ 0 := by
  rw [BitVec.and_or_distrib_right, BitVec.and_self]
  intro h
  have hbit := congrArg (fun mask => mask.getLsbD 2) h
  simp [kWriteEvent, EPOLLOUT] at hbit

theorem or_kReadEvent_and (events : EventMask) :
    (events ||| kReadEvent) &&& kReadEvent ≠ 0 := by
  rw [BitVec.and_or_distrib_right, BitVec.and_self]
  intro h
  have hbit := congrArg (fun mask => mask.getLsbD 0) h
  simp [kReadEvent, EPOLLIN, EPOLLPRI] at hbit

theorem or_kWriteEvent_and_kReadEvent (events : EventMask) :
    (events ||| kWriteEvent) &&& kReadEvent = events &&& kReadEvent := by
  rw [BitVec.and_or_distrib_right]
  simp [kReadEvent, kWriteEvent, EPOLLIN, EPOLLPRI, EPOLLOUT]

theorem andNot_kWriteEvent_and_kReadEvent (events : EventMask) :
    (events &&& ~~~kWriteEvent) &&& kReadEvent = events &&& kReadEvent := by
  rw [BitVec.and_assoc]
  congr 1

theorem andNot_kWriteEvent_and (events : EventMask) :
    (events &&& ~~~kWriteEvent) &&& kWriteEvent = 0 := by
  rw [BitVec.and_assoc]
  simp [kWriteEvent, EPOLLOUT]

/-! ## Events -/

inductive Callback
  | closeCallback
  | errorCallback
  | readCallback
  | writeCallback
  deriving DecidableEq, Repr

/-- The callbacks that `handleEventWithGuard` runs for `revents`, in order. -/
def handleEventWithGuard (revents : EventMask) : List Callback :=
  (if revents &&& EPOLLHUP ≠ 0 ∧ revents &&& EPOLLIN = 0 then [.closeCallback] else []) ++
    (if revents &&& EPOLLERR ≠ 0 then [.errorCallback] else []) ++
    (if revents &&& (EPOLLIN ||| EPOLLPRI) ≠ 0 then [.readCallback] else []) ++
    (if revents &&& EPOLLOUT ≠ 0 then [.writeCallback] else [])

end Channel

/-! ## The poller -/

inductive CtlOp
  | EPOLL_CTL_ADD
  | EPOLL_CTL_MOD
  | EPOLL_CTL_DEL
  deriving DecidableEq, Repr

/-- The poller of one loop.  A channel pointer is a number. -/
structure EPollPoller where
  /-- `channels_`: fd to channel -/
  channels : ℕ → Option ℕ := fun _ => none
  /-- the kernel's interest list: fd to `data.ptr` and `events` -/
  interest : ℕ → Option (ℕ × EventMask) := fun _ => none
  /-- the `epoll_ctl` calls that failed, with their fd -/
  failedCtl : List (CtlOp × ℕ) := []

namespace EPollPoller

open Function (update)

/-- The kernel: `ADD` needs an absent fd, `MOD` and `DEL` a present one. -/
def epollCtl (interest : ℕ → Option (ℕ × EventMask)) (op : CtlOp) (fd : ℕ)
    (event : ℕ × EventMask) : Option (ℕ → Option (ℕ × EventMask)) :=
  match op, interest fd with
  | .EPOLL_CTL_ADD, none => some (update interest fd (some event))
  | .EPOLL_CTL_MOD, some _ => some (update interest fd (some event))
  | .EPOLL_CTL_DEL, some _ => some (update interest fd none)
  | _, _ => none

/-- `EPollPoller::update`. -/
def ctl (p : EPollPoller) (op : CtlOp) (ptr : ℕ) (c : Channel) : EPollPoller :=
  match epollCtl p.interest op c.fd (ptr, c.events) with
  | some interest => { p with interest := interest }
  | none => { p with failedCtl := p.failedCtl ++ [(op, c.fd)] }

def updateChannel (p : EPollPoller) (ptr : ℕ) (c : Channel) : EPollPoller × Channel :=
  match c.index with
  | .kNew =>
      let known := { p with channels := update p.channels c.fd (some ptr) }
      (known.ctl .EPOLL_CTL_ADD ptr c, { c with index := .kAdded })
  | .kDeleted => (p.ctl .EPOLL_CTL_ADD ptr c, { c with index := .kAdded })
  | .kAdded =>
      if c.isNoneEvent then (p.ctl .EPOLL_CTL_DEL ptr c, { c with index := .kDeleted })
      else (p.ctl .EPOLL_CTL_MOD ptr c, c)

def removeChannel (p : EPollPoller) (ptr : ℕ) (c : Channel) : EPollPoller × Channel :=
  let erased := { p with channels := update p.channels c.fd none }
  let deleted := if c.index = .kAdded then erased.ctl .EPOLL_CTL_DEL ptr c else erased
  (deleted, { c with index := .kNew })

/-! ## The poller mirrors the kernel -/

/-- At the fd of `c` the table and the kernel's list say what the channel's own
fields say. -/
structure Mirrors (p : EPollPoller) (ptr : ℕ) (c : Channel) : Prop where
  channels_eq : p.channels c.fd = if c.index = .kNew then none else some ptr
  interest_eq : p.interest c.fd = if c.index = .kAdded then some (ptr, c.events) else none

/-- `q` differs from `p` at most at `fd`, and no `epoll_ctl` failed on the way. -/
structure AgreesOff (p q : EPollPoller) (fd : ℕ) : Prop where
  channels_eq : ∀ other, other ≠ fd → q.channels other = p.channels other
  interest_eq : ∀ other, other ≠ fd → q.interest other = p.interest other
  failedCtl_eq : q.failedCtl = p.failedCtl

theorem AgreesOff.refl (p : EPollPoller) (fd : ℕ) : AgreesOff p p fd :=
  ⟨fun _ _ => rfl, fun _ _ => rfl, rfl⟩

theorem AgreesOff.trans {p q r : EPollPoller} {fd : ℕ} (hpq : AgreesOff p q fd)
    (hqr : AgreesOff q r fd) : AgreesOff p r fd :=
  ⟨fun other h => (hqr.channels_eq other h).trans (hpq.channels_eq other h),
    fun other h => (hqr.interest_eq other h).trans (hpq.interest_eq other h),
    hqr.failedCtl_eq.trans hpq.failedCtl_eq⟩

/-- A channel whose fd was left alone is still mirrored. -/
theorem AgreesOff.mirrors {p q : EPollPoller} {fd ptr : ℕ} {c : Channel} (h : AgreesOff p q fd)
    (hfd : c.fd ≠ fd) (hmirror : Mirrors p ptr c) : Mirrors q ptr c :=
  ⟨(h.channels_eq _ hfd).trans hmirror.channels_eq,
    (h.interest_eq _ hfd).trans hmirror.interest_eq⟩

/-- Changing `events` and calling `updateChannel`, as every interest setter does,
keeps the mirror: the index decides between `ADD`, `MOD` and `DEL`, and the
chosen one is legal. -/
theorem updateChannel_mirrors {p : EPollPoller} {ptr : ℕ} {c : Channel} (h : Mirrors p ptr c)
    (events : EventMask) :
    Mirrors (p.updateChannel ptr { c with events := events }).1 ptr
        (p.updateChannel ptr { c with events := events }).2 ∧
      AgreesOff p (p.updateChannel ptr { c with events := events }).1 c.fd := by
  obtain ⟨hchannels, hinterest⟩ := h
  cases hindex : c.index with
  | kNew =>
      simp only [hindex, ↓reduceIte, reduceCtorEq] at hchannels hinterest
      simp only [updateChannel, ctl, epollCtl, hinterest]
      refine ⟨⟨by simp, by simp⟩, ⟨?_, ?_, rfl⟩⟩ <;> intro other hother <;> simp [hother]
  | kDeleted =>
      simp only [hindex, ↓reduceIte, reduceCtorEq] at hchannels hinterest
      simp only [updateChannel, ctl, epollCtl, hinterest]
      refine ⟨⟨by simp [hchannels], by simp⟩, ⟨fun _ _ => rfl, ?_, rfl⟩⟩
      intro other hother
      simp [hother]
  | kAdded =>
      simp only [hindex, ↓reduceIte, reduceCtorEq] at hchannels hinterest
      simp only [updateChannel, ctl, epollCtl, hinterest]
      split_ifs
      · refine ⟨⟨by simp [hchannels], by simp⟩, ⟨fun _ _ => rfl, ?_, rfl⟩⟩
        intro other hother
        simp [hother]
      · refine ⟨⟨by simp [hchannels], by simp⟩, ⟨fun _ _ => rfl, ?_, rfl⟩⟩
        intro other hother
        simp [hother]

theorem removeChannel_mirrors {p : EPollPoller} {ptr : ℕ} {c : Channel} (h : Mirrors p ptr c) :
    Mirrors (p.removeChannel ptr c).1 ptr (p.removeChannel ptr c).2 ∧
      AgreesOff p (p.removeChannel ptr c).1 c.fd := by
  obtain ⟨hchannels, hinterest⟩ := h
  by_cases hindex : c.index = .kAdded
  · simp only [hindex, ↓reduceIte] at hinterest
    simp only [removeChannel, hindex, ctl, epollCtl, hinterest, ↓reduceIte]
    refine ⟨⟨by simp, by simp⟩, ⟨?_, ?_, rfl⟩⟩ <;> intro other hother <;> simp [hother]
  · simp only [hindex, ↓reduceIte] at hinterest
    simp only [removeChannel, hindex, ↓reduceIte]
    refine ⟨⟨by simp, by simp [hinterest]⟩, ⟨?_, fun _ _ => rfl, rfl⟩⟩
    intro other hother
    simp [hother]

/-! ## What `updateChannel` does to the channel itself -/

@[simp] theorem updateChannel_fd (p : EPollPoller) (ptr : ℕ) (c : Channel) :
    (p.updateChannel ptr c).2.fd = c.fd := by
  unfold updateChannel
  split <;> (try split_ifs) <;> rfl

@[simp] theorem updateChannel_events (p : EPollPoller) (ptr : ℕ) (c : Channel) :
    (p.updateChannel ptr c).2.events = c.events := by
  unfold updateChannel
  split <;> (try split_ifs) <;> rfl

@[simp] theorem updateChannel_isWriting (p : EPollPoller) (ptr : ℕ) (c : Channel) :
    (p.updateChannel ptr c).2.isWriting = c.isWriting := by
  simp only [Channel.isWriting, updateChannel_events]

@[simp] theorem updateChannel_isReading (p : EPollPoller) (ptr : ℕ) (c : Channel) :
    (p.updateChannel ptr c).2.isReading = c.isReading := by
  simp only [Channel.isReading, updateChannel_events]

/-- With some interest left a channel is in the kernel's list afterwards. -/
theorem updateChannel_index_of_interest (p : EPollPoller) (ptr : ℕ) {c : Channel}
    (h : c.isNoneEvent = false) : (p.updateChannel ptr c).2.index = .kAdded := by
  unfold updateChannel
  split
  · rfl
  · rfl
  · simpa [h]

/-- Without interest a channel leaves the kernel's list only if it was in it. -/
theorem updateChannel_index_of_none (p : EPollPoller) (ptr : ℕ) {c : Channel}
    (h : c.isNoneEvent = true) :
    (p.updateChannel ptr c).2.index = if c.index = .kAdded then .kDeleted else .kAdded := by
  unfold updateChannel
  split <;> simp_all

end EPollPoller

end MuduoLite
