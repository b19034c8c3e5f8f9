import Mathlib.Data.Prod.Lex
import Mathlib.Logic.Function.Basic
import MuduoLite.Library.OrderedSet

/-!
# The timer queue

`TimerQueue` keeps its timers in two sets, `timers` by expiration and
`activeTimers` by pointer.  The timers themselves live in a `heap`; a pointer is
a number and the allocator may hand out an address again after it was freed.
Every operation yields an `Option`: `none` stands for a failed `assert` and for a
use of a pointer to a deleted timer.  Clock readings are arguments.  Times are
whole microseconds and do not overflow.

`handleRead` runs callbacks of the user, which may call back into the queue.  It
is cut there: `handleRead` below goes up to the loop over the expired timers,
`runTimer` starts one callback, and `reset` comes after the loop.

`trace` records what happens, for the statements about whole runs.
-/

namespace MuduoLite

open OrderedSet

structure Timer where
  expiration : ℤ
  /-- the microseconds that `addTime` adds, when the timer repeats -/
  interval : ℕ
  repeats : Bool
  sequence : ℕ
  deriving DecidableEq, Repr

structure TimerId where
  timer : ℕ
  sequence : ℕ
  deriving DecidableEq, Repr

/-- An element of `timers_`. -/
structure Entry where
  expiration : ℤ
  timer : ℕ
  deriving DecidableEq, Repr

namespace Entry

/-- The order of `std::pair`. -/
def key (entry : Entry) : Lex (ℤ × ℕ) := toLex (entry.expiration, entry.timer)

theorem key_injective : Function.Injective key := by
  rintro ⟨expiration, timer⟩ ⟨expiration', timer'⟩ h
  simpa [key] using h

instance : LinearOrder Entry := LinearOrder.lift' key key_injective

theorem le_iff {first second : Entry} : first ≤ second ↔ first.expiration < second.expiration ∨
    first.expiration = second.expiration ∧ first.timer ≤ second.timer :=
  Prod.Lex.toLex_le_toLex

theorem lt_iff {first second : Entry} : first < second ↔ first.expiration < second.expiration ∨
    first.expiration = second.expiration ∧ first.timer < second.timer :=
  Prod.Lex.toLex_lt_toLex

theorem expiration_le {first second : Entry} (h : first ≤ second) :
    first.expiration ≤ second.expiration := by
  rcases le_iff.1 h with hlt | ⟨heq, _⟩
  · exact hlt.le
  · exact heq.le

end Entry

/-- An element of `activeTimers_`: a pointer and the sequence of its timer. -/
abbrev ActiveTimer := ℕ × ℕ

structure Timespec where
  tv_sec : ℤ
  tv_nsec : ℤ
  deriving DecidableEq, Repr

inductive Event
  | added (timer : ℕ) (object : Timer)
  | cancelled (id : TimerId)
  | ran (timer : ℕ) (object : Timer)
  /-- with the answers to: is the pointer in `timers_`, is it in `activeTimers_`? -/
  | deleted (timer : ℕ) (object : Timer) (inTimers inActiveTimers : Bool)
  | readTimerfd (now : ℤ)
  | armed (expiration now : ℤ) (value : Timespec)
  deriving DecidableEq, Repr

structure TimerQueue where
  timers : Finset Entry := ∅
  activeTimers : Finset ActiveTimer := ∅
  callingExpiredTimers : Bool := false
  cancelingTimers : Finset ActiveTimer := ∅
  heap : ℕ → Option Timer := fun _ => none
  /-- `s_numCreated_` -/
  numCreated : ℕ := 0
  /-- the expiration the timerfd was last armed for, if it was armed since its last read -/
  armedFor : Option ℤ := none
  trace : List Event := []

namespace TimerQueue

open Function (update)

def UINTPTR_MAX : ℕ := 2 ^ 64 - 1

def kMicroSecondsPerSecond : ℤ := 1000 * 1000

def emit (q : TimerQueue) (event : Event) : TimerQueue := { q with trace := q.trace ++ [event] }

/-! ## Timers -/

/-- `new Timer(cb, when, interval)` at a free address. -/
def newTimer (q : TimerQueue) (timer : ℕ) (when : ℤ) (interval : ℕ) (repeats : Bool) :
    TimerQueue :=
  { q with
    heap := update q.heap timer (some ⟨when, interval, repeats, q.numCreated + 1⟩)
    numCreated := q.numCreated + 1 }

def deleteTimer (q : TimerQueue) (timer : ℕ) : Option TimerQueue := do
  let object ← q.heap timer
  let freed := { q with heap := update q.heap timer none }
  return freed.emit (.deleted timer object (∃ entry ∈ q.timers, entry.timer = timer)
    (∃ active ∈ q.activeTimers, active.1 = timer))

/-- `Timer::restart`. -/
def restart (q : TimerQueue) (timer : ℕ) (now : ℤ) : Option TimerQueue := do
  let object ← q.heap timer
  let expiration := if object.repeats then now + object.interval else 0
  return { q with heap := update q.heap timer (some { object with expiration := expiration }) }

/-! ## The timerfd -/

/-- The microseconds are positive, so C++ rounds as Lean does. -/
def howMuchTimeFromNow (when now : ℤ) : Timespec :=
  let microseconds := if when - now < 100 then 100 else when - now
  ⟨microseconds / kMicroSecondsPerSecond, microseconds % kMicroSecondsPerSecond * 1000⟩

def resetTimerfd (q : TimerQueue) (expiration now : ℤ) : TimerQueue :=
  { q with armedFor := some expiration }.emit
    (.armed expiration now (howMuchTimeFromNow expiration now))

/-! ## Adding and cancelling -/

/-- Is a timer that expires at `when` earlier than all of `timers_`? -/
def isEarliest (q : TimerQueue) (when : ℤ) : Bool :=
  match begin? q.timers with
  | none => true
  | some first => when < first.expiration

def insert (q : TimerQueue) (timer : ℕ) : Option (TimerQueue × Bool) := do
  guard (q.timers.card = q.activeTimers.card)
  let object ← q.heap timer
  let earliestChanged := q.isEarliest object.expiration
  guard (⟨object.expiration, timer⟩ ∉ q.timers)
  guard ((timer, object.sequence) ∉ q.activeTimers)
  let inserted := { q with
    timers := Insert.insert ⟨object.expiration, timer⟩ q.timers
    activeTimers := Insert.insert (timer, object.sequence) q.activeTimers }
  guard (inserted.timers.card = inserted.activeTimers.card)
  return (inserted, earliestChanged)

def addTimerInLoop (q : TimerQueue) (timer : ℕ) (now : ℤ) : Option TimerQueue := do
  let (inserted, earliestChanged) ← q.insert timer
  let object ← inserted.heap timer
  let added := inserted.emit (.added timer object)
  return if earliestChanged then added.resetTimerfd object.expiration now else added

/-- `cancelInLoop` where it finds the timer.  The timer is deleted before the
iterator into `activeTimers_` is erased. -/
def cancelActive (q : TimerQueue) (id : TimerId) : Option TimerQueue := do
  let object ← q.heap id.timer
  guard (⟨object.expiration, id.timer⟩ ∈ q.timers)
  let erased := { q with timers := q.timers.erase ⟨object.expiration, id.timer⟩ }
  let deleted ← erased.deleteTimer id.timer
  return { deleted with activeTimers := deleted.activeTimers.erase (id.timer, id.sequence) }

def cancelInLoop (q : TimerQueue) (id : TimerId) : Option TimerQueue := do
  guard (q.timers.card = q.activeTimers.card)
  let called := q.emit (.cancelled id)
  let result ←
    if (id.timer, id.sequence) ∈ called.activeTimers then called.cancelActive id
    else if called.callingExpiredTimers then
      some { called with
        cancelingTimers := Insert.insert (id.timer, id.sequence) called.cancelingTimers }
    else some called
  guard (result.timers.card = result.activeTimers.card)
  return result

/-! ## Expiry -/

/-- The loop of `getExpired`. -/
def eraseActive (q : TimerQueue) : List Entry → Option TimerQueue
  | [] => some q
  | it :: rest => do
      let object ← q.heap it.timer
      guard ((it.timer, object.sequence) ∈ q.activeTimers)
      eraseActive { q with activeTimers := q.activeTimers.erase (it.timer, object.sequence) } rest

def getExpired (q : TimerQueue) (now : ℤ) : Option (List Entry × TimerQueue) := do
  guard (q.timers.card = q.activeTimers.card)
  let sentry : Entry := ⟨now, UINTPTR_MAX⟩
  let rest := lowerBound q.timers sentry
  guard (∀ first ∈ begin? rest, now < first.expiration)
  let expired := before q.timers sentry
  let erased ← { q with timers := rest }.eraseActive expired
  guard (erased.timers.card = erased.activeTimers.card)
  return (expired, erased)

/-- `handleRead` up to the loop over the expired timers. -/
def handleRead (q : TimerQueue) (now : ℤ) : Option (List Entry × TimerQueue) := do
  let read := { q with armedFor := none }.emit (.readTimerfd now)
  let (expired, taken) ← read.getExpired now
  return (expired, { taken with callingExpiredTimers := true, cancelingTimers := ∅ })

/-- One round of that loop starts the callback of a timer. -/
def runTimer (q : TimerQueue) (it : Entry) : Option TimerQueue := do
  let object ← q.heap it.timer
  return q.emit (.ran it.timer object)

/-- One round of the loop of `reset`. -/
def resetOne (q : TimerQueue) (it : Entry) (now : ℤ) : Option TimerQueue := do
  let object ← q.heap it.timer
  if object.repeats ∧ (it.timer, object.sequence) ∉ q.cancelingTimers then
    let restarted ← q.restart it.timer now
    let (inserted, _) ← restarted.insert it.timer
    return inserted
  else q.deleteTimer it.timer

def resetAll (q : TimerQueue) (now : ℤ) : List Entry → Option TimerQueue
  | [] => some q
  | it :: rest => do
      let done ← q.resetOne it now
      resetAll done now rest

/-- `handleRead` after the loop; `clock` is the reading in `howMuchTimeFromNow`. -/
def reset (q : TimerQueue) (expired : List Entry) (now clock : ℤ) : Option TimerQueue := do
  let called := { q with callingExpiredTimers := false }
  let done ← called.resetAll now expired
  match begin? done.timers with
  | none => return done
  | some first =>
      let object ← done.heap first.timer
      -- `nextExpire.valid()`
      return if 0 < object.expiration then done.resetTimerfd object.expiration clock else done

end TimerQueue

/-! ## The loop and its users -/

namespace TimerSystem

/-- A `handleRead` in progress. -/
structure Batch where
  now : ℤ
  expired : List Entry
  /-- the expired timers whose callback has not started -/
  todo : List Entry
  /-- the expired timers as they were when `getExpired` took them out -/
  members : List (ℕ × Timer)

structure System where
  queue : TimerQueue := {}
  /-- the timers of other threads whose `addTimerInLoop` functor has not run -/
  waiting : List ℕ := []
  batch : Option Batch := none

/-- `newTimer` is the first half of `addTimer` on another thread, and
`addTimerInLoop` its functor; `addTimer` is the whole of it on the loop thread,
between two events or in a callback.  Between `handleRead` and `reset` the loop
thread runs nothing but the callbacks. -/
inductive Label
  | newTimer (timer : ℕ) (when : ℤ) (interval : ℕ) (repeats : Bool)
  | addTimerInLoop (timer : ℕ) (clock : ℤ)
  | addTimer (timer : ℕ) (when : ℤ) (interval : ℕ) (repeats : Bool) (clock : ℤ)
  | cancelInLoop (id : TimerId)
  | handleRead (now : ℤ)
  | runTimer
  | reset (clock : ℤ)
  deriving DecidableEq, Repr

/-- The allocator hands out addresses that are free. -/
def Allocates (s : System) (timer : ℕ) : Prop :=
  s.queue.heap timer = none ∧ 0 < timer ∧ timer < TimerQueue.UINTPTR_MAX

/-- The steps the environment can ask for.  A `TimerId` comes from a timer that
exists or has existed. -/
def Enabled (s : System) : Label → Prop
  | .newTimer timer _ _ _ => Allocates s timer
  | .addTimerInLoop timer _ => s.batch = none ∧ timer ∈ s.waiting
  | .addTimer timer _ _ _ _ => Allocates s timer
  | .cancelInLoop id => id.sequence ≤ s.queue.numCreated
  | .handleRead _ => s.batch = none
  | .runTimer => ∃ b, s.batch = some b ∧ b.todo ≠ []
  | .reset _ => ∃ b, s.batch = some b ∧ b.todo = []

def exec (s : System) : Label → Option System
  | .newTimer timer when interval repeats =>
      some { s with
        queue := s.queue.newTimer timer when interval repeats
        waiting := timer :: s.waiting }
  | .addTimerInLoop timer clock => do
      let queue ← s.queue.addTimerInLoop timer clock
      return { s with queue := queue, waiting := s.waiting.erase timer }
  | .addTimer timer when interval repeats clock => do
      let queue ← (s.queue.newTimer timer when interval repeats).addTimerInLoop timer clock
      return { s with queue := queue }
  | .cancelInLoop id => do
      let queue ← s.queue.cancelInLoop id
      return { s with queue := queue }
  | .handleRead now => do
      let (expired, queue) ← s.queue.handleRead now
      let members := expired.filterMap fun it => (s.queue.heap it.timer).map (it.timer, ·)
      return { s with queue := queue, batch := some ⟨now, expired, expired, members⟩ }
  | .runTimer => do
      let b ← s.batch
      let it ← b.todo.head?
      let queue ← s.queue.runTimer it
      return { s with queue := queue, batch := some { b with todo := b.todo.tail } }
  | .reset clock => do
      let b ← s.batch
      let queue ← s.queue.reset b.expired b.now clock
      return { s with queue := queue, batch := none }

def Step (s : System) (label : Label) (t : System) : Prop :=
  Enabled s label ∧ exec s label = some t

end TimerSystem

end MuduoLite
