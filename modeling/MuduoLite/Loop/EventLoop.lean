import Mathlib.Data.Finset.Basic
import MuduoLite.Library.BatchQueue
import MuduoLite.Library.Transition

/-!
# The event loop and its functor queue

`EventLoop::loop` polls, handles the channels that the poll has reported and runs a
batch of functors, over and over.  Functors are queued by any thread at any time:
by other threads, and by the loop thread from the callbacks of its channels and
from running functors.

A step is one access to data that threads share: to `pendingFunctors_`, which a
mutex protects, to the flags, and to the counter of the eventfd.  So a thread that
queues a functor makes two steps, its push and its write to the eventfd, and all
other threads run in between.  The body of a callback or a functor is not modelled;
whatever it queues is queued by steps of its own before the loop goes on.

Writes to the eventfd succeed.  The poll reports any channels at any time.
-/

namespace MuduoLite

/-- Where the loop thread is. -/
inductive LoopPhase
  /-- not in `loop` -/
  | stopped
  /-- at the test of `quit_` -/
  | testing
  | polling
  | handling
  /-- in `doPendingFunctors`, before the swap -/
  | swapping
  /-- in `doPendingFunctors`, after the swap -/
  | calling
  deriving DecidableEq, Repr

/-- A channel that a poll has reported. -/
inductive ActiveChannel
  | wakeupChannel
  | channel (fd : ℕ)
  deriving DecidableEq, Repr

/-- An event loop for functors of type `F`, used by other threads of type `T`. -/
structure EventLoop (F T : Type*) where
  looping : Bool := false
  quit : Bool := false
  callingPendingFunctors : Bool := false
  /-- `pendingFunctors_` and the local `functors` of `doPendingFunctors` -/
  functors : BatchQueue F := {}
  activeChannels : List ActiveChannel := []
  /-- the counter of `wakeupFd_` -/
  wakeupFd : ℕ := 0
  phase : LoopPhase := .stopped
  /-- is the loop thread between its push and its `wakeup`? -/
  waking : Bool := false
  /-- the other threads between their push and their `wakeup` -/
  wakingThreads : Finset T := ∅
  /-- the other threads between their store to `quit_` and their `wakeup` -/
  quittingThreads : Finset T := ∅
  /-- all functors, in the order of their pushes -/
  queued : List F := []
  /-- the functors that were called, in order -/
  executed : List F := []

namespace EventLoop

variable {F T : Type*}

/-! ## Steps -/

/-- The steps of the loop thread, and those of another thread (`From`). -/
inductive Label (F T : Type*)
  | loop
  | testQuit
  | poll (active : List ActiveChannel)
  | handleEvent
  | doPendingFunctors
  | swap
  | run
  | finish
  | queueInLoop (functor : F)
  | wakeup
  | quit
  | queueInLoopFrom (thread : T) (functor : F)
  | quitFrom (thread : T)
  | wakeupFrom (thread : T)

/-- The critical section of `queueInLoop`. -/
def push (l : EventLoop F T) (functor : F) : EventLoop F T :=
  { l with functors := l.functors.enqueue [functor], queued := l.queued ++ [functor] }

/-- `handleRead` of the loop: a read resets the counter. -/
def handleRead (l : EventLoop F T) : EventLoop F T := { l with wakeupFd := 0 }

/-- `handleEvent` of a channel; what the callbacks of the user queue comes later. -/
def handleEvent (l : EventLoop F T) : ActiveChannel → EventLoop F T
  | .wakeupChannel => l.handleRead
  | .channel _ => l

variable [DecidableEq T]

inductive Step (l : EventLoop F T) : Label F T → EventLoop F T → Prop
  | loop (hphase : l.phase = .stopped) :
      Step l .loop { l with looping := true, quit := false, phase := .testing }
  | testQuit (hphase : l.phase = .testing) :
      Step l .testQuit
        (if l.quit then { l with looping := false, phase := .stopped }
        else { l with activeChannels := [], phase := .polling })
  | poll (active : List ActiveChannel) (hphase : l.phase = .polling) :
      Step l (.poll active) { l with activeChannels := active, phase := .handling }
  | handleEvent {channel : ActiveChannel} {rest : List ActiveChannel}
      (hphase : l.phase = .handling) (hwaking : l.waking = false)
      (hactive : l.activeChannels = channel :: rest) :
      Step l .handleEvent ({ l with activeChannels := rest }.handleEvent channel)
  | doPendingFunctors (hphase : l.phase = .handling) (hwaking : l.waking = false)
      (hactive : l.activeChannels = []) :
      Step l .doPendingFunctors { l with callingPendingFunctors := true, phase := .swapping }
  | swap (hphase : l.phase = .swapping) :
      Step l .swap { l with functors := l.functors.swap, phase := .calling }
  | run {functor : F} {rest : List F} (hphase : l.phase = .calling) (hwaking : l.waking = false)
      (htodo : l.functors.todo = functor :: rest) :
      Step l .run { l with functors := l.functors.advance, executed := l.executed ++ [functor] }
  | finish (hphase : l.phase = .calling) (hwaking : l.waking = false)
      (htodo : l.functors.todo = []) :
      Step l .finish
        { l with
          functors := l.functors.finish, callingPendingFunctors := false, phase := .testing }
  /-- The push on the loop thread, which writes to the eventfd only while functors run. -/
  | queueInLoop (functor : F) (hphase : l.phase = .stopped ∨ l.phase = .handling ∨
      l.phase = .calling) (hwaking : l.waking = false) :
      Step l (.queueInLoop functor) { l.push functor with waking := l.callingPendingFunctors }
  | wakeup (hwaking : l.waking = true) :
      Step l .wakeup { l with wakeupFd := l.wakeupFd + 1, waking := false }
  | quit (hphase : l.phase = .stopped ∨ l.phase = .handling ∨ l.phase = .calling)
      (hwaking : l.waking = false) : Step l .quit { l with quit := true }
  | queueInLoopFrom (thread : T) (functor : F)
      (hthread : thread ∉ l.wakingThreads ∪ l.quittingThreads) :
      Step l (.queueInLoopFrom thread functor)
        { l.push functor with wakingThreads := insert thread l.wakingThreads }
  | quitFrom (thread : T) (hthread : thread ∉ l.wakingThreads ∪ l.quittingThreads) :
      Step l (.quitFrom thread)
        { l with quit := true, quittingThreads := insert thread l.quittingThreads }
  | wakeupFrom (thread : T) (hthread : thread ∈ l.wakingThreads ∪ l.quittingThreads) :
      Step l (.wakeupFrom thread)
        { l with
          wakeupFd := l.wakeupFd + 1
          wakingThreads := l.wakingThreads.erase thread
          quittingThreads := l.quittingThreads.erase thread }

end EventLoop

end MuduoLite
