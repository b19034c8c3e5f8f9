import MuduoLite.Loop.EventLoopThread
import MuduoLite.Loop.FunctorQueue
import MuduoLite.Server.Model

/-!
# The destructor of the server

`~TcpServer` runs on the thread of the base loop, outside of its loop or in one of its
callbacks or functors.  It hands a `connectDestroyed` to the loop of every connection in
`connections_`, one after the other.  Then the members are destroyed, among them the
thread pool: every `EventLoopThread` quits its loop and joins its thread.

All other threads run in between.  A connection that closes calls `removeConnection` on
its own thread, with a raw pointer to the server, which queues a functor with that pointer
to the base loop.

The loops of the pool are `EventLoopThread`s owned by the base thread; a step is one of
theirs, one of the base loop, or one of the destructor.  What a thread does between the
two steps of a `queueInLoop` is restricted only where it is the base thread in the
destructor or an I/O thread in `removeConnection`.
-/

namespace MuduoLite

namespace Server

open Function (update)

inductive Thread
  | base
  | io (loop : ℕ)
  | user (id : ℕ)
  deriving DecidableEq, Repr

/-- The functors of the base loop: those addressed to the server, and any others. -/
inductive BaseFunctor
  | removeConnectionInLoop (c : ℕ)
  | user (id : ℕ)
  deriving DecidableEq, Repr

def BaseFunctor.isRemove : BaseFunctor → Bool
  | .removeConnectionInLoop _ => true
  | .user _ => false

/-- The threads of the pool in the order of their destruction, and the loop of each
connection. -/
structure IoPool where
  threads : List ℕ
  loopOf : ℕ → ℕ
  nodup : threads.Nodup
  loopOf_mem : ∀ c, loopOf c ∈ threads

inductive DestructorPhase
  | notStarted
  /-- in the loop over `connections_`, with the connections still to come -/
  | handing (rest : List ℕ)
  /-- in the `wakeup` of a `queueInLoop` there -/
  | waking (loop : ℕ) (rest : List ℕ)
  /-- in the destructor of the pool, with the threads still to be destroyed -/
  | destroying (rest : List ℕ)
  | destroyed
  deriving DecidableEq, Repr

/-- Is the base thread not in the destructor? -/
def DestructorPhase.IsOutside (phase : DestructorPhase) : Prop :=
  phase = .notStarted ∨ phase = .destroyed

structure Teardown where
  base : EventLoop BaseFunctor Thread := {}
  io : ℕ → EventLoopThread IoFunctor Thread := fun _ => {}
  phase : DestructorPhase := .notStarted
  /-- `connections_` when the destructor started, in the order of its loop -/
  connections : List ℕ := []
  /-- the connections whose `connectDestroyed` was handed over, with its position in the
  queue of their loop -/
  handed : List (ℕ × ℕ) := []

namespace Teardown

/-! ## Steps -/

inductive Label
  | base (label : EventLoop.Label BaseFunctor Thread)
  | io (loop : ℕ) (label : EventLoopThread.Label IoFunctor Thread)
  /-- `handleClose` of a connection calls `removeConnection` -/
  | close (c : ℕ)
  | destroy (connections : List ℕ)
  | hand
  | wakeup
  | destroyPool
  | next
  | finish

/-- The base loop goes on while its thread is not in the destructor; removals are queued by
`close` only. -/
def MayBase (s : Teardown) : EventLoop.Label BaseFunctor Thread → Prop
  | .queueInLoopFrom thread functor => thread ≠ .base ∧ functor.isRemove = false
  | .quitFrom thread => thread ≠ .base
  | .wakeupFrom _ => True
  | .queueInLoop functor => s.phase.IsOutside ∧ functor.isRemove = false
  | _ => s.phase.IsOutside

/-- An I/O loop goes on while its thread is not in `removeConnection`; the base thread
calls a method of it before the destructor, and quits it in the destructor. -/
def MayLoop (s : Teardown) (loop : ℕ) : EventLoop.Label IoFunctor Thread → Prop
  | .queueInLoopFrom thread _ => thread = .base → s.phase = .notStarted
  | .quitFrom thread => thread = .base → s.phase = .notStarted ∨ (s.io loop).owner = .destroying
  | .wakeupFrom thread => thread = .base → ∀ rest, s.phase ≠ .waking loop rest
  | _ => .io loop ∉ s.base.wakingThreads

def MayIo (s : Teardown) (loop : ℕ) : EventLoopThread.Label IoFunctor Thread → Prop
  | .start => s.phase = .notStarted
  | .returnLoop => s.phase = .notStarted
  | .publish => True
  | .clear => True
  | .eventLoop label => s.MayLoop loop label
  | .destroy => ∃ rest, s.phase = .destroying (loop :: rest)
  | .join => ∃ rest, s.phase = .destroying (loop :: rest)

def setIo (s : Teardown) (loop : ℕ) (t : EventLoopThread IoFunctor Thread) : Teardown :=
  { s with io := update s.io loop t }

@[simp] theorem setIo_io_self (s : Teardown) (loop : ℕ) (t : EventLoopThread IoFunctor Thread) :
    (s.setIo loop t).io loop = t := Function.update_self _ _ _

theorem setIo_io_of_ne (s : Teardown) {loop other : ℕ} (h : loop ≠ other)
    (t : EventLoopThread IoFunctor Thread) : (s.setIo other t).io loop = s.io loop :=
  Function.update_of_ne h _ _

inductive Step (pool : IoPool) (s : Teardown) : Label → Teardown → Prop
  | base (label : EventLoop.Label BaseFunctor Thread) {l : EventLoop BaseFunctor Thread}
      (hmay : s.MayBase label) (hstep : s.base.Step label l) :
      Step pool s (.base label) { s with base := l }
  | io (loop : ℕ) (label : EventLoopThread.Label IoFunctor Thread)
      {t : EventLoopThread IoFunctor Thread} (hmay : s.MayIo loop label)
      (hstep : EventLoopThread.Step .base (s.io loop) label t) :
      Step pool s (.io loop label) (s.setIo loop t)
  | close (c : ℕ) {l : EventLoop BaseFunctor Thread}
      (hphase : (s.io (pool.loopOf c)).eventLoop.phase = .handling)
      (hwaking : (s.io (pool.loopOf c)).eventLoop.waking = false)
      (hstep : s.base.Step (.queueInLoopFrom (.io (pool.loopOf c)) (.removeConnectionInLoop c)) l) :
      Step pool s (.close c) { s with base := l }
  | destroy (connections : List ℕ) (hphase : s.phase = .notStarted)
      (hbase : s.base.phase = .stopped ∨ s.base.phase = .handling ∨ s.base.phase = .calling)
      (hwaking : s.base.waking = false)
      (howner : ∀ loop ∈ pool.threads, (s.io loop).owner = .returned)
      (hidle : ∀ loop, .base ∉ (s.io loop).eventLoop.wakingThreads) :
      Step pool s (.destroy connections)
        { s with phase := .handing connections, connections := connections }
  | hand {c : ℕ} {rest : List ℕ} {t : EventLoopThread IoFunctor Thread}
      (hphase : s.phase = .handing (c :: rest))
      (hstep : EventLoopThread.Step .base (s.io (pool.loopOf c))
        (.eventLoop (.queueInLoopFrom .base (.connectDestroyed c))) t) :
      Step pool s .hand
        { s.setIo (pool.loopOf c) t with
          phase := .waking (pool.loopOf c) rest
          handed := (c, (s.io (pool.loopOf c)).eventLoop.queued.length) :: s.handed }
  | wakeup {loop : ℕ} {rest : List ℕ} {t : EventLoopThread IoFunctor Thread}
      (hphase : s.phase = .waking loop rest)
      (hstep : EventLoopThread.Step .base (s.io loop) (.eventLoop (.wakeupFrom .base)) t) :
      Step pool s .wakeup { s.setIo loop t with phase := .handing rest }
  | destroyPool (hphase : s.phase = .handing []) :
      Step pool s .destroyPool { s with phase := .destroying pool.threads }
  | next {loop : ℕ} {rest : List ℕ} (hphase : s.phase = .destroying (loop :: rest))
      (hgone : (s.io loop).owner = .joined ∨ (s.io loop).owner = .detached) :
      Step pool s .next { s with phase := .destroying rest }
  | finish (hphase : s.phase = .destroying []) :
      Step pool s .finish { s with phase := .destroyed }

end Teardown

end Server

end MuduoLite
