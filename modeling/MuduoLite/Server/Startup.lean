import MuduoLite.Server.Acceptor

/-!
# Starting the server

Any thread may call `TcpServer::start`, any number of times.  The counter `started_` lets the
first call through, which starts the threads of the pool one after the other, each with its
loop, and then has the base loop run `Acceptor::listen`: at once if the caller is the base loop
thread, else as a functor.

The stages of this are a small system of their own (`Stage`).  As long as the counter does not
wrap around, the server goes through them once (`At`), and what it does is what a server does
that has been started beforehand (`start_refines`), also where `numThreads` is not positive and
`getNextLoop` throws for every client.
-/

namespace MuduoLite

namespace Startup

open Transition

variable {H : Type*}

/-! ## Calls of `start` -/

/-- Where a call is that the counter has let through. -/
inductive Phase
  /-- in the loop of `EventLoopThreadPool::start`, at thread `i` -/
  | pool (i : ℕ)
  /-- `threadPool_->start` has returned -/
  | listen

structure State (H : Type*) where
  acceptor : Acceptor.State H
  /-- the number of calls, and `started_`, which counts them as an `int` -/
  calls : ℕ := 0
  started : BitVec 32 := 0
  starting : List Phase := []
  /-- those of the functors of the base loop that run `Acceptor::listen` -/
  listens : BatchQueue Unit := {}
  /-- the loops for which `threadInitCallback_` has been called -/
  inits : List (Option ℕ) := []

/-- A server after the constructor and `setThreadNum`. -/
def State.start [LinearOrder H] (name : List Char) (hashFunction : List Char → H)
    (numThreads : ℤ) (fds : Finset ℕ) : State H where
  acceptor :=
    { threadPool := (EventLoopThreadPool.new none name hashFunction).setThreadNum numThreads
      fds := fds
      others := fds }

def State.setThreadPool (s : State H) (threadPool : EventLoopThreadPool H (Option ℕ)) : State H :=
  { s with acceptor := { s.acceptor with threadPool := threadPool } }

/-- `threadInitCallback_` is called for `loop`, if there is one. -/
def State.init (s : State H) (cb : Bool) (loop : Option ℕ) : State H :=
  { s with inits := if cb then s.inits ++ [loop] else s.inits }

def State.listen (s : State H) : State H :=
  { s with acceptor := { s.acceptor with listenning := true } }

/-- An acceptor that has the pool `threadPool` when it starts to listen. -/
def seen (threadPool : EventLoopThreadPool H (Option ℕ)) (a : Acceptor.State H) :
    Acceptor.State H :=
  if a.listenning then a else { a with threadPool := threadPool }

theorem seen_of_listenning {a : Acceptor.State H} (h : a.listenning = true)
    (threadPool : EventLoopThreadPool H (Option ℕ)) : seen threadPool a = a := if_pos h

theorem seen_of_not_listenning {a : Acceptor.State H} (h : a.listenning = false)
    (threadPool : EventLoopThreadPool H (Option ℕ)) :
    seen threadPool a = { a with threadPool := threadPool } := if_neg (by simp [h])

inductive Label
  | start
  | startThread
  | finishPool
  | runInLoop (inLoop : Bool)
  | runListen
  | acceptor (label : Acceptor.Label)

/-- A step of a call that the counter has let through, or of its functor. -/
def Label.isOwn : Label → Bool
  | .startThread | .finishPool | .runInLoop _ | .runListen => true
  | _ => false

/-- `Acceptor::listen` runs. -/
def Label.isListen : Label → Bool
  | .runInLoop true | .runListen => true
  | _ => false

/-- What the step is for the acceptor. -/
def Label.acts : Label → Option Acceptor.Label
  | .runInLoop true | .runListen => some .listen
  | .acceptor label => some label
  | _ => none

inductive Step [LinearOrder H] (server : TcpServer) (cb : Bool) (s : State H) :
    Label → State H → Prop
  | start (hstarted : s.started = 0) :
      Step server cb s .start
        { s.setThreadPool { s.acceptor.threadPool with started := true } with
          calls := s.calls + 1
          started := s.started + 1
          starting := s.starting ++ [.pool 0] }
  | startAgain (hstarted : s.started ≠ 0) :
      Step server cb s .start { s with calls := s.calls + 1, started := s.started + 1 }
  /-- `startLoop` returns when the thread has a loop and has called the callback for it. -/
  | startThread {before after : List Phase} {i : ℕ}
      (hstarting : s.starting = before ++ .pool i :: after)
      (hi : i < s.acceptor.threadPool.numThreads) :
      Step server cb s .startThread
        (({ s with starting := before ++ Phase.pool (i + 1) :: after }.setThreadPool
          (s.acceptor.threadPool.startThread i (some s.acceptor.threadPool.loops.length))).init
            cb (some s.acceptor.threadPool.loops.length))
  | finishPool {before after : List Phase} {i : ℕ}
      (hstarting : s.starting = before ++ .pool i :: after)
      (hi : ¬ i < s.acceptor.threadPool.numThreads) :
      Step server cb s .finishPool
        ({ s with starting := before ++ Phase.listen :: after }.init
          (s.acceptor.threadPool.numThreads = 0 ∧ cb) none)
  /-- The caller is the base loop thread. -/
  | listen {before after : List Phase} (hstarting : s.starting = before ++ .listen :: after) :
      Step server cb s (.runInLoop true) { s with starting := before ++ after }.listen
  | queueListen {before after : List Phase} (hstarting : s.starting = before ++ .listen :: after) :
      Step server cb s (.runInLoop false)
        { s with starting := before ++ after, listens := s.listens.enqueue [()] }
  | runListen {rest : List Unit} (hbase : s.acceptor.server.base.calling = true)
      (htodo : s.listens.todo = () :: rest) :
      Step server cb s .runListen { s with listens := s.listens.advance }.listen
  | baseSwap {t : Acceptor.State H}
      (hstep : Acceptor.Step server s.acceptor (.server .baseSwap) t) :
      Step server cb s (.acceptor (.server .baseSwap))
        { s with acceptor := t, listens := s.listens.swap }
  | baseFinish {t : Acceptor.State H} (htodo : s.listens.todo = [])
      (hstep : Acceptor.Step server s.acceptor (.server .baseFinish) t) :
      Step server cb s (.acceptor (.server .baseFinish))
        { s with acceptor := t, listens := s.listens.finish }
  /-- Any other step of the acceptor, the kernel and the server. -/
  | acceptor {label : Acceptor.Label} {t : Acceptor.State H} (hlisten : label ≠ .listen)
      (hswap : label ≠ .server .baseSwap) (hfinish : label ≠ .server .baseFinish)
      (hstep : Acceptor.Step server s.acceptor label t) :
      Step server cb s (.acceptor label) { s with acceptor := t }

/-- The counter does not wrap around. -/
def CountsOn (s : State H) (label : Label) : Prop := label = .start → s.calls < 2 ^ 32

/-! ## The stages of starting -/

inductive Stage
  | unstarted
  | pool (i : ℕ)
  | listen
  | queued
  | listening

namespace Stage

/-- One call goes through the stages of a server with `n` threads, the others do nothing. -/
inductive Step (n : ℕ) : Stage → Label → Stage → Prop
  | start : Step n .unstarted .start (.pool 0)
  | startAgain {stage : Stage} (hstage : stage ≠ .unstarted) : Step n stage .start stage
  | startThread {i : ℕ} (hi : i < n) : Step n (.pool i) .startThread (.pool (i + 1))
  | finishPool : Step n (.pool n) .finishPool .listen
  | listen : Step n .listen (.runInLoop true) .listening
  | queueListen : Step n .listen (.runInLoop false) .queued
  | runListen : Step n .queued .runListen .listening
  | acceptor (stage : Stage) {label : Acceptor.Label} (hlisten : label ≠ .listen) :
      Step n stage (.acceptor label) stage

/-- How many own steps lead here, at most. -/
def own (n : ℕ) : Stage → ℕ
  | .unstarted => 0
  | .pool i => i
  | .listen => n + 1
  | .queued => n + 2
  | .listening => n + 3

def isListening : Stage → Bool
  | .listening => true
  | _ => false

theorem isListening_eq_false {stage : Stage} (h : stage ≠ .listening) :
    stage.isListening = false := by
  cases stage with
  | listening => exact absurd rfl h
  | _ => rfl

def starting : Stage → List Phase
  | .pool i => [.pool i]
  | .listen => [.listen]
  | _ => []

def waiting : Stage → List Unit
  | .queued => [()]
  | _ => []

/-- What is counted along a run of the stages. -/
structure Counted (n : ℕ) (labels : List Label) (stage : Stage) : Prop where
  own_le : labels.countP Label.isOwn ≤ stage.own n
  listens_eq : labels.countP Label.isListen = stage.isListening.toNat
  started_iff : .start ∈ labels ↔ stage ≠ .unstarted

namespace Counted

variable {n : ℕ} {labels : List Label} {stage stage' : Stage}

theorem nil (n : ℕ) : Counted n [] .unstarted where
  own_le := le_rfl
  listens_eq := rfl
  started_iff := iff_of_false List.not_mem_nil (fun h => h rfl)

theorem snoc_of (h : Counted n labels stage) {label : Label}
    (hown : stage.own n + label.isOwn.toNat ≤ stage'.own n)
    (hlistens : stage.isListening.toNat + label.isListen.toNat = stage'.isListening.toNat)
    (hstarted : stage ≠ .unstarted ∨ .start = label ↔ stage' ≠ .unstarted) :
    Counted n (labels ++ [label]) stage' where
  own_le := by
    have hlast : [label].countP Label.isOwn = label.isOwn.toNat := by
      cases hlabel : label.isOwn <;> simp [hlabel]
    have hle := h.own_le
    rw [List.countP_append, hlast]
    omega
  listens_eq := by
    have hlast : [label].countP Label.isListen = label.isListen.toNat := by
      cases hlabel : label.isListen <;> simp [hlabel]
    rw [List.countP_append, hlast, h.listens_eq, hlistens]
  started_iff := by
    rw [List.mem_append, List.mem_singleton, h.started_iff, hstarted]

theorem snoc (h : Counted n labels stage) {label : Label} (hstep : Step n stage label stage') :
    Counted n (labels ++ [label]) stage' := by
  cases hstep with
  | start => exact h.snoc_of le_rfl rfl (by simp)
  | startAgain hstage => exact h.snoc_of le_rfl rfl (by simp [hstage])
  | startThread hi => exact h.snoc_of le_rfl rfl (by simp)
  | finishPool => exact h.snoc_of le_rfl rfl (by simp)
  | listen => exact h.snoc_of (Nat.le_succ (n + 2)) rfl (by simp)
  | queueListen => exact h.snoc_of le_rfl rfl (by simp)
  | runListen => exact h.snoc_of le_rfl rfl (by simp)
  | acceptor => exact h.snoc_of le_rfl rfl (by simp)

end Counted

end Stage

/-! ## A server at a stage -/

section Threads

variable [LinearOrder H] (pool : EventLoopThreadPool H (Option ℕ))

/-- The pool once `i` threads have been started. -/
def threads (i : ℕ) : EventLoopThreadPool H (Option ℕ) :=
  EventLoopThreadPool.startThreads some { pool with started := true } i

theorem threads_numThreads (i : ℕ) : (threads pool i).numThreads = pool.numThreads := by
  induction i with
  | zero => rfl
  | succ i ih => exact ih

theorem threads_baseLoop (i : ℕ) : (threads pool i).baseLoop = pool.baseLoop := by
  induction i with
  | zero => rfl
  | succ i ih => exact ih

/-- A pool as its constructor leaves it. -/
structure Fresh : Prop where
  baseLoop_eq : pool.baseLoop = none
  loops_eq : pool.loops = []

variable {pool} in
theorem Fresh.threads_loops (h : Fresh pool) (i : ℕ) :
    (threads pool i).loops = (List.range i).map some := by
  rw [threads, EventLoopThreadPool.startThreads_loops, h.loops_eq, List.nil_append]

def Stage.threadPool : Stage → EventLoopThreadPool H (Option ℕ)
  | .unstarted => pool
  | .pool i => threads pool i
  | .listen | .queued | .listening => threads pool pool.numThreads.toNat

def Stage.inits (cb : Bool) : Stage → List (Option ℕ)
  | .unstarted => []
  | .pool i => if cb then (List.range i).map some else []
  | .listen | .queued | .listening =>
      (if cb then (List.range pool.numThreads.toNat).map some else []) ++ (pool.start some cb).2

end Threads

/-- The server is at a stage of a call that starts the threads of `pool`. -/
structure At [LinearOrder H] (pool : EventLoopThreadPool H (Option ℕ)) (cb : Bool) (s : State H)
    (stage : Stage) : Prop where
  bound : ∀ i, stage = .pool i → i ≤ pool.numThreads.toNat
  started_eq : s.started = BitVec.ofNat 32 s.calls
  calls_iff : 0 < s.calls ↔ stage ≠ .unstarted
  starting_eq : s.starting = stage.starting
  waiting_eq : s.listens.waiting = stage.waiting
  calling : s.listens.todo ≠ [] → s.acceptor.server.base.calling = true
  listenning_eq : s.acceptor.listenning = stage.isListening
  threadPool_eq : stage ≠ .listening → s.acceptor.threadPool = stage.threadPool pool
  inits_eq : s.inits = stage.inits pool cb

theorem server_calling_of_step {server : TcpServer} {s t : Server.State} {label : Server.Label}
    (hswap : label ≠ .baseSwap) (hfinish : label ≠ .baseFinish)
    (hstep : Server.Step server s label t) : t.base.calling = s.base.calling := by
  cases hstep with
  | baseSwap => exact absurd rfl hswap
  | baseFinish => exact absurd rfl hfinish
  | _ => rfl

theorem calling_of_step [LinearOrder H] {server : TcpServer} {s t : Acceptor.State H}
    {label : Acceptor.Label} (hswap : label ≠ .server .baseSwap)
    (hfinish : label ≠ .server .baseFinish) (hstep : Acceptor.Step server s label t) :
    t.server.base.calling = s.server.base.calling := by
  cases hstep with
  | destroy c hconn hstep =>
      exact server_calling_of_step (by simp) (by simp) hstep
  | server _ _ hstep =>
      exact server_calling_of_step (fun heq => hswap (congrArg _ heq))
        (fun heq => hfinish (congrArg _ heq)) hstep
  | _ => rfl

section BeforeListening

variable [LinearOrder H] {server : TcpServer} {s t : Acceptor.State H} {label : Acceptor.Label}

theorem listenning_of_step (hlisten : label ≠ .listen) (hstep : Acceptor.Step server s label t) :
    t.listenning = s.listenning := by
  cases hstep with
  | listen => exact absurd rfl hlisten
  | _ => rfl

theorem threadPool_of_step (hclosed : s.listenning = false)
    (hstep : Acceptor.Step server s label t) : t.threadPool = s.threadPool := by
  cases hstep with
  | newConnection connfd hbase hlisten =>
      rw [hclosed] at hlisten
      exact Bool.noConfusion hlisten
  | _ => rfl

/-- A server that does not listen never asks the pool for a loop. -/
theorem step_withThreadPool (hclosed : s.listenning = false)
    (hstep : Acceptor.Step server s label t) (pool : EventLoopThreadPool H (Option ℕ)) :
    Acceptor.Step server { s with threadPool := pool } label { t with threadPool := pool } := by
  have hopen : s.listenning ≠ true := by simp [hclosed]
  cases hstep with
  | listen => exact .listen
  | arrive peerAddr hlisten => exact absurd hlisten hopen
  | acceptError hbase hlisten => exact absurd hlisten hopen
  | newConnection connfd hbase hlisten => exact absurd hlisten hopen
  | newConnectionThrows connfd hbase hlisten => exact absurd hlisten hopen
  | destroy c hconn hstep => exact .destroy c hconn hstep
  | openFile fd hfd => exact .openFile fd hfd
  | closeFile fd hfd => exact .closeFile fd hfd
  | server hnew hdestroy hstep => exact .server hnew hdestroy hstep

theorem seen_step (hlisten : label ≠ .listen) (hstep : Acceptor.Step server s label t)
    (pool : EventLoopThreadPool H (Option ℕ)) :
    Acceptor.Step server (seen pool s) label (seen pool t) := by
  have hsame := listenning_of_step hlisten hstep
  cases hopen : s.listenning with
  | true =>
      rw [hopen] at hsame
      rwa [seen_of_listenning hopen, seen_of_listenning hsame]
  | false =>
      rw [hopen] at hsame
      rw [seen_of_not_listenning hopen, seen_of_not_listenning hsame]
      exact step_withThreadPool hopen hstep pool

end BeforeListening

namespace At

variable [LinearOrder H] {server : TcpServer} {pool : EventLoopThreadPool H (Option ℕ)}
  {cb : Bool} {s t : State H} {stage : Stage}

/-- At most one call has been let through. -/
theorem eq_of_starting (h : At pool cb s stage) {before after : List Phase} {phase : Phase}
    (hstarting : s.starting = before ++ phase :: after) :
    before = [] ∧ after = [] ∧ stage.starting = [phase] := by
  have hlength : stage.starting.length ≤ 1 := by cases stage <;> simp [Stage.starting]
  rw [h.starting_eq] at hstarting
  rw [hstarting, List.length_append, List.length_cons] at hlength
  have hbefore : before = [] := List.eq_nil_of_length_eq_zero (by omega)
  have hafter : after = [] := List.eq_nil_of_length_eq_zero (by omega)
  subst hbefore hafter
  exact ⟨rfl, rfl, hstarting⟩

theorem eq_pool (h : At pool cb s stage) {before after : List Phase} {i : ℕ}
    (hstarting : s.starting = before ++ .pool i :: after) :
    before = [] ∧ after = [] ∧ stage = .pool i := by
  obtain ⟨hbefore, hafter, heq⟩ := h.eq_of_starting hstarting
  refine ⟨hbefore, hafter, ?_⟩
  cases stage with
  | pool j => simpa [Stage.starting] using heq
  | _ => simp [Stage.starting] at heq

theorem eq_listen (h : At pool cb s stage) {before after : List Phase}
    (hstarting : s.starting = before ++ .listen :: after) :
    before = [] ∧ after = [] ∧ stage = .listen := by
  obtain ⟨hbefore, hafter, heq⟩ := h.eq_of_starting hstarting
  refine ⟨hbefore, hafter, ?_⟩
  cases stage with
  | listen => rfl
  | _ => simp [Stage.starting] at heq

/-- The counter is zero for the first call alone. -/
theorem started_eq_zero_iff (h : At pool cb s stage) (hcalls : s.calls < 2 ^ 32) :
    s.started = 0 ↔ stage = .unstarted := by
  have hiff : s.started = 0 ↔ s.calls = 0 := by
    rw [h.started_eq, ← BitVec.toNat_inj, BitVec.toNat_ofNat, Nat.mod_eq_of_lt hcalls]
    rfl
  rw [hiff, ← not_iff_not, ← ne_eq, ← Nat.pos_iff_ne_zero, h.calls_iff]

theorem eq_queued (h : At pool cb s stage) {rest : List Unit}
    (htodo : s.listens.todo = () :: rest) : stage = .queued := by
  have hwaiting := BatchQueue.waiting_advance s.listens htodo
  rw [h.waiting_eq] at hwaiting
  cases stage with
  | queued => rfl
  | _ => simp [Stage.waiting] at hwaiting

/-- The counter is zero again after `2 ^ 32` calls, and the next one starts more threads. -/
theorem exists_start_again (h : At pool cb s .listening) (hcalls : s.calls = 2 ^ 32) :
    ∃ t, Step server cb s .start t ∧ t.starting = [.pool 0] := by
  have hstarted : s.started = 0 := by
    rw [h.started_eq, hcalls]
    rfl
  have hnone : s.starting = [] := h.starting_eq
  exact ⟨_, .start hstarted, congrArg (· ++ [Phase.pool 0]) hnone⟩

theorem numThreads_eq (h : At pool cb s stage) (hlisten : stage ≠ .listening) :
    s.acceptor.threadPool.numThreads = pool.numThreads := by
  rw [h.threadPool_eq hlisten]
  cases stage with
  | unstarted => rfl
  | _ => exact threads_numThreads pool _

theorem calls_succ (h : At pool cb s stage) : s.started + 1 = BitVec.ofNat 32 (s.calls + 1) := by
  rw [BitVec.ofNat_add, ← h.started_eq]
  rfl

theorem start (h : At pool cb s .unstarted) :
    At pool cb
      { s.setThreadPool { s.acceptor.threadPool with started := true } with
        calls := s.calls + 1
        started := s.started + 1
        starting := s.starting ++ [.pool 0] } (.pool 0) where
  bound := fun i hi => Stage.pool.inj hi ▸ Nat.zero_le _
  started_eq := h.calls_succ
  calls_iff := iff_of_true (Nat.succ_pos _) (by simp)
  starting_eq := congrArg (· ++ [Phase.pool 0]) h.starting_eq
  waiting_eq := h.waiting_eq
  calling := h.calling
  listenning_eq := h.listenning_eq
  threadPool_eq := by
    intro _
    have hpool : s.acceptor.threadPool = pool := h.threadPool_eq (by simp)
    exact hpool ▸ rfl
  inits_eq := h.inits_eq.trans (ite_self []).symm

theorem startThread {i : ℕ} (h : At pool cb s (.pool i)) (hfresh : Fresh pool)
    (hi : i < pool.numThreads.toNat) :
    At pool cb
      (({ s with starting := [Phase.pool (i + 1)] }.setThreadPool
        (s.acceptor.threadPool.startThread i (some s.acceptor.threadPool.loops.length))).init
          cb (some s.acceptor.threadPool.loops.length)) (.pool (i + 1)) := by
  have hpool : s.acceptor.threadPool = threads pool i := h.threadPool_eq (by simp)
  have hlength : s.acceptor.threadPool.loops.length = i := by
    rw [hpool, hfresh.threads_loops, List.length_map, List.length_range]
  refine
    { bound := fun j hj => Stage.pool.inj hj ▸ hi
      started_eq := h.started_eq
      calls_iff := iff_of_true (h.calls_iff.2 (by simp)) (by simp)
      starting_eq := rfl
      waiting_eq := h.waiting_eq
      calling := h.calling
      listenning_eq := h.listenning_eq
      threadPool_eq := fun _ => ?_
      inits_eq := ?_ }
  · show s.acceptor.threadPool.startThread i _ = threads pool (i + 1)
    rw [hlength, hpool]
    rfl
  · show (if cb then s.inits ++ [some _] else s.inits) = _
    rw [hlength, h.inits_eq]
    cases cb <;> simp [Stage.inits, List.range_succ]

theorem finishPool (h : At pool cb s (.pool pool.numThreads.toNat)) (hfresh : Fresh pool) :
    At pool cb
      ({ s with starting := [Phase.listen] }.init (s.acceptor.threadPool.numThreads = 0 ∧ cb)
        none) .listen := by
  refine
    { bound := fun j hj => nomatch hj
      started_eq := h.started_eq
      calls_iff := iff_of_true (h.calls_iff.2 (by simp)) (by simp)
      starting_eq := rfl
      waiting_eq := h.waiting_eq
      calling := h.calling
      listenning_eq := h.listenning_eq
      threadPool_eq := fun _ => h.threadPool_eq (by simp)
      inits_eq := ?_ }
  show (if decide _ then s.inits ++ [none] else s.inits) = _
  rw [h.numThreads_eq (by simp), h.inits_eq, Stage.inits, Stage.inits, EventLoopThreadPool.start,
    hfresh.baseLoop_eq]
  by_cases hbase : pool.numThreads = 0 ∧ cb = true <;> simp [hbase]

theorem queueListen (h : At pool cb s .listen) :
    At pool cb { s with starting := [], listens := s.listens.enqueue [()] } .queued where
  bound := fun j hj => nomatch hj
  started_eq := h.started_eq
  calls_iff := iff_of_true (h.calls_iff.2 (by simp)) (by simp)
  starting_eq := rfl
  waiting_eq := by
    rw [BatchQueue.waiting_enqueue, h.waiting_eq]
    rfl
  calling := h.calling
  listenning_eq := h.listenning_eq
  threadPool_eq := fun _ => h.threadPool_eq (by simp)
  inits_eq := h.inits_eq

/-- `Acceptor::listen`, called at once or as a functor. -/
theorem listen (h : At pool cb s stage) (hstage : stage = .listen ∨ stage = .queued)
    {starting : List Phase} {listens : BatchQueue Unit} (hstarting : starting = [])
    (hwaiting : listens.waiting = [])
    (hcalling : listens.todo ≠ [] → s.acceptor.server.base.calling = true) :
    At pool cb { s with starting := starting, listens := listens }.listen .listening where
  bound := fun j hj => nomatch hj
  started_eq := h.started_eq
  calls_iff := by
    refine iff_of_true (h.calls_iff.2 ?_) (by simp)
    rcases hstage with rfl | rfl <;> simp
  starting_eq := hstarting
  waiting_eq := hwaiting
  calling := hcalling
  listenning_eq := rfl
  threadPool_eq := fun hne => absurd rfl hne
  inits_eq := by
    rw [State.listen, h.inits_eq]
    rcases hstage with rfl | rfl <;> rfl

theorem baseSwap (h : At pool cb s stage) {a : Acceptor.State H}
    (hstep : Acceptor.Step server s.acceptor (.server .baseSwap) a) :
    At pool cb { s with acceptor := a, listens := s.listens.swap } stage := by
  cases hstep with
  | server _ _ hstep =>
      cases hstep with
      | baseSwap hbase =>
          have htodo : s.listens.todo = [] := by
            by_contra hne
            rw [h.calling hne] at hbase
            exact Bool.noConfusion hbase
          exact { h with
            waiting_eq := (s.listens.waiting_swap htodo).trans h.waiting_eq
            calling := fun _ => rfl }

theorem baseFinish (h : At pool cb s stage) {a : Acceptor.State H} (htodo : s.listens.todo = [])
    (hstep : Acceptor.Step server s.acceptor (.server .baseFinish) a) :
    At pool cb { s with acceptor := a, listens := s.listens.finish } stage := by
  cases hstep with
  | server _ _ hstep =>
      cases hstep with
      | baseFinish hbase _ => exact { h with calling := fun hne => absurd htodo hne }

theorem acceptor (h : At pool cb s stage) {label : Acceptor.Label} {a : Acceptor.State H}
    (hlisten : label ≠ .listen) (hswap : label ≠ .server .baseSwap)
    (hfinish : label ≠ .server .baseFinish) (hstep : Acceptor.Step server s.acceptor label a) :
    At pool cb { s with acceptor := a } stage :=
  { h with
    calling := fun hne => (calling_of_step hswap hfinish hstep).trans (h.calling hne)
    listenning_eq := (listenning_of_step hlisten hstep).trans h.listenning_eq
    threadPool_eq := by
      intro hne
      refine (threadPool_of_step ?_ hstep).trans (h.threadPool_eq hne)
      rw [h.listenning_eq, Stage.isListening_eq_false hne] }

/-- The server goes from stage to stage. -/
theorem step {label : Label} (h : At pool cb s stage) (hfresh : Fresh pool)
    (hcounts : CountsOn s label) (hstep : Step server cb s label t) :
    ∃ stage', Stage.Step pool.numThreads.toNat stage label stage' ∧ At pool cb t stage' := by
  cases hstep with
  | start hstarted =>
      obtain rfl : stage = .unstarted := (h.started_eq_zero_iff (hcounts rfl)).1 hstarted
      exact ⟨_, .start, h.start⟩
  | startAgain hstarted =>
      have hstage : stage ≠ .unstarted :=
        mt (h.started_eq_zero_iff (hcounts rfl)).2 hstarted
      exact ⟨_, .startAgain hstage,
        { h with
          started_eq := h.calls_succ
          calls_iff := iff_of_true (Nat.succ_pos _) hstage }⟩
  | @startThread before after i hstarting hi =>
      obtain ⟨rfl, rfl, rfl⟩ := h.eq_pool hstarting
      rw [h.numThreads_eq (by simp)] at hi
      have hlt : i < pool.numThreads.toNat := by omega
      exact ⟨_, .startThread hlt, h.startThread hfresh hlt⟩
  | @finishPool before after i hstarting hi =>
      obtain ⟨rfl, rfl, rfl⟩ := h.eq_pool hstarting
      have hbound := h.bound i rfl
      rw [h.numThreads_eq (by simp)] at hi
      obtain rfl : i = pool.numThreads.toNat := by omega
      exact ⟨_, .finishPool, h.finishPool hfresh⟩
  | listen hstarting =>
      obtain ⟨rfl, rfl, rfl⟩ := h.eq_listen hstarting
      exact ⟨_, .listen, h.listen (.inl rfl) rfl h.waiting_eq h.calling⟩
  | queueListen hstarting =>
      obtain ⟨rfl, rfl, rfl⟩ := h.eq_listen hstarting
      exact ⟨_, .queueListen, h.queueListen⟩
  | runListen hbase htodo =>
      have hwaiting := BatchQueue.waiting_advance s.listens htodo
      obtain rfl := h.eq_queued htodo
      rw [h.waiting_eq] at hwaiting
      exact ⟨_, .runListen, h.listen (.inr rfl) h.starting_eq (List.cons.inj hwaiting).2.symm
        fun _ => hbase⟩
  | baseSwap hstep => exact ⟨stage, .acceptor stage (by simp), h.baseSwap hstep⟩
  | baseFinish htodo hstep => exact ⟨stage, .acceptor stage (by simp), h.baseFinish htodo hstep⟩
  | acceptor hlisten hswap hfinish hstep =>
      exact ⟨stage, .acceptor stage hlisten, h.acceptor hlisten hswap hfinish hstep⟩

theorem seen_eq (h : At pool cb s stage) (hlisten : stage ≠ .listening)
    (threadPool : EventLoopThreadPool H (Option ℕ)) :
    seen threadPool s.acceptor = { s.acceptor with threadPool := threadPool } :=
  seen_of_not_listenning (h.listenning_eq.trans (Stage.isListening_eq_false hlisten)) threadPool

/-- `Acceptor::listen` runs when the whole pool has been started. -/
theorem seen_listen (h : At pool cb s stage) (hstage : stage = .listen ∨ stage = .queued) :
    Acceptor.Step server (seen (threads pool pool.numThreads.toNat) s.acceptor) .listen
      { s.acceptor with listenning := true } := by
  have hlisten : stage ≠ .listening := by rcases hstage with rfl | rfl <;> simp
  have hpool : s.acceptor.threadPool = threads pool pool.numThreads.toNat := by
    rw [h.threadPool_eq hlisten]
    rcases hstage with rfl | rfl <;> rfl
  rw [h.seen_eq hlisten, ← hpool]
  exact .listen

theorem own_le (h : At pool cb s stage) :
    stage.own pool.numThreads.toNat ≤ pool.numThreads.toNat + 3 := by
  cases stage with
  | unstarted => exact Nat.zero_le _
  | pool i => exact (h.bound i rfl).trans (Nat.le_add_right _ 3)
  | _ => simp [Stage.own]

/-- Until the server listens, nobody sees how far its pool is. -/
theorem stutters {label : Label} (h : At pool cb s stage) (hcounts : CountsOn s label)
    (hstep : Step server cb s label t) :
    Stutters (Acceptor.Step server) (seen (threads pool pool.numThreads.toNat) s.acceptor)
      label.acts (seen (threads pool pool.numThreads.toNat) t.acceptor) := by
  cases hstep with
  | start hstarted =>
      obtain rfl : stage = .unstarted := (h.started_eq_zero_iff (hcounts rfl)).1 hstarted
      have hclosed : s.acceptor.listenning = false := h.listenning_eq
      simp [Stutters, Label.acts, seen, State.setThreadPool, hclosed]
  | startAgain hstarted => rfl
  | startThread hstarting hi =>
      obtain ⟨-, -, rfl⟩ := h.eq_pool hstarting
      have hclosed : s.acceptor.listenning = false := h.listenning_eq
      simp [Stutters, Label.acts, seen, State.setThreadPool, State.init, hclosed]
  | finishPool hstarting hi => rfl
  | listen hstarting => exact h.seen_listen (.inl (h.eq_listen hstarting).2.2)
  | queueListen hstarting => rfl
  | runListen hbase htodo => exact h.seen_listen (.inr (h.eq_queued htodo))
  | baseSwap hstep => exact seen_step (by simp) hstep _
  | baseFinish htodo hstep => exact seen_step (by simp) hstep _
  | acceptor hlisten hswap hfinish hstep => exact seen_step hlisten hstep _

end At

/-! ## Runs -/

/-- A server that has not been started. -/
theorem at_start [LinearOrder H] (name : List Char) (hashFunction : List Char → H)
    (numThreads : ℤ) (cb : Bool) (fds : Finset ℕ) :
    At ((EventLoopThreadPool.new none name hashFunction).setThreadNum numThreads) cb
      (.start name hashFunction numThreads fds) .unstarted where
  bound := fun _ hi => nomatch hi
  started_eq := rfl
  calls_iff := iff_of_false (lt_irrefl 0) (fun hne => hne rfl)
  starting_eq := rfl
  waiting_eq := rfl
  calling := fun hne => absurd rfl hne
  listenning_eq := rfl
  threadPool_eq := fun _ => rfl
  inits_eq := rfl

/-- The callback for new loops has been called for the loops of the pool. -/
theorem inits_listening [LinearOrder H] (name : List Char) (hashFunction : List Char → H)
    (numThreads : ℤ) (cb : Bool) :
    Stage.inits ((EventLoopThreadPool.new none name hashFunction).setThreadNum numThreads) cb
        .listening =
      if cb = true ∧ 0 ≤ numThreads then
        (EventLoopThreadPool.startedPool none name hashFunction numThreads some cb).getAllLoops
      else [] := by
  set pool := (EventLoopThreadPool.new none name hashFunction).setThreadNum numThreads
  have hloops : (threads pool numThreads.toNat).loops = (List.range numThreads.toNat).map some :=
    Fresh.threads_loops ⟨rfl, rfl⟩ numThreads.toNat
  have hbase : (threads pool numThreads.toNat).baseLoop = none := threads_baseLoop pool _
  have hall : (EventLoopThreadPool.startedPool none name hashFunction numThreads some
        cb).getAllLoops =
      if ((List.range numThreads.toNat).map some).isEmpty then [none]
      else (List.range numThreads.toNat).map some := by
    show (if (threads pool numThreads.toNat).loops.isEmpty then
      [(threads pool numThreads.toNat).baseLoop] else (threads pool numThreads.toNat).loops) = _
    rw [hloops, hbase]
  have hinits : Stage.inits pool cb .listening =
      (if cb = true then (List.range numThreads.toNat).map some else []) ++
        if numThreads = 0 ∧ cb = true then [none] else [] := rfl
  rw [hinits, hall]
  cases cb with
  | false => simp
  | true =>
      -- a negative number, the base loop alone, and the loops of the threads
      rcases lt_trichotomy numThreads 0 with hneg | rfl | hpos
      · have hzero : numThreads.toNat = 0 := by omega
        simp [hzero, hneg.ne, hneg.not_ge]
      · rfl
      · have hsome : numThreads.toNat ≠ 0 := by omega
        simp [hsome, hpos.ne', hpos.le]

section Runs

variable [LinearOrder H] {server : TcpServer} {name : List Char} {hashFunction : List Char → H}
  {numThreads : ℤ} {cb : Bool} {fds : Finset ℕ} {labels : List Label} {t u : State H}

theorem exists_stage (hrun : Run (restrict (Step server cb) CountsOn)
      (.start name hashFunction numThreads fds) labels t) :
    ∃ stage,
      At ((EventLoopThreadPool.new none name hashFunction).setThreadNum numThreads) cb t stage ∧
      Stage.Counted numThreads.toNat labels stage ∧
      Run (Acceptor.Step server) (.start name hashFunction numThreads cb fds)
        (labels.filterMap Label.acts)
        (seen (EventLoopThreadPool.startedPool none name hashFunction numThreads some cb)
          t.acceptor) := by
  induction hrun with
  | nil => exact ⟨.unstarted, at_start name hashFunction numThreads cb fds, .nil _, .nil⟩
  | snoc _ hlast ih =>
      obtain ⟨stage, hat, hcounted, hseen⟩ := ih
      obtain ⟨stage', hnext, hat'⟩ := hat.step ⟨rfl, rfl⟩ hlast.2 hlast.1
      exact ⟨stage', hat', hcounted.snoc hnext,
        hseen.snoc_stutters (hat.stutters hlast.2 hlast.1)⟩

/-- A started server is what `start` makes, whoever calls it and how often.  In any run of the
server in which any threads call `start`, fewer than `2 ^ 32` times before each call, the
acceptor and the server do what they would do if the pool had been started beforehand and
`Acceptor::listen` were yet to run; it runs at most once, and by then the callback for new
loops has been called once for each loop of the pool (never if their number is negative). -/
theorem start_refines (server : TcpServer) (name : List Char) (hashFunction : List Char → H)
    (numThreads : ℤ) (cb : Bool) (fds : Finset ℕ) (labels : List Label) (t : State H)
    (hrun : Run (restrict (Step server cb) CountsOn)
      (.start name hashFunction numThreads fds) labels t) :
    Run (Acceptor.Step server) (.start name hashFunction numThreads cb fds)
        (labels.filterMap Label.acts)
        (seen (EventLoopThreadPool.startedPool none name hashFunction numThreads some cb)
          t.acceptor) ∧
      labels.countP Label.isListen ≤ 1 ∧
      (t.acceptor.listenning = true → t.inits =
        if cb = true ∧ 0 ≤ numThreads then
          (EventLoopThreadPool.startedPool none name hashFunction numThreads some cb).getAllLoops
        else []) := by
  obtain ⟨stage, hat, hcounted, hseen⟩ := exists_stage hrun
  refine ⟨hseen, hcounted.listens_eq ▸ Bool.toNat_le _, fun hlisten => ?_⟩
  rw [hat.listenning_eq] at hlisten
  obtain rfl : stage = .listening := by
    by_contra hne
    rw [Stage.isListening_eq_false hne] at hlisten
    exact Bool.noConfusion hlisten
  exact hat.inits_eq.trans (inits_listening name hashFunction numThreads cb)

end Runs

/-- Two threads call `start` for a server with one thread; then a client connects. -/
theorem run_starting : ∃ (server : TcpServer) (labels : List Label) (t : State (Fin (2 ^ 64))),
    Run (restrict (Step server true) CountsOn) (.start ['p'] RingConsistency.byLength 1 {3})
      labels t ∧
      .start ∈ labels ∧ t.acceptor.listenning = true ∧ t.acceptor.peerAddrs.length = 1 := by
  let server : TcpServer := .new ⟨0x901F, #v[0, 0, 0, 0]⟩ ['s'] false
  let client : InetAddress := ⟨0x901F, #v[127, 0, 0, 1]⟩
  let start : State (Fin (2 ^ 64)) := .start ['p'] RingConsistency.byLength 1 {3}
  have hother {s : State (Fin (2 ^ 64))} {label : Label} (h : .start ≠ label) :
      CountsOn s label := fun heq => absurd heq.symm h
  obtain ⟨i, -, hget⟩ := EventLoopThreadPool.startedPool_lands none ['p']
    RingConsistency.byLength some true (show 0 < (1 : ℤ) by decide) client.toIp
  have hfirst : Run (restrict (Step server true) CountsOn) start [.start] _ :=
    .single ⟨.start rfl, fun _ => by decide⟩
  have hthread := (hfirst.snoc
    ⟨.startThread (show _ = [] ++ Phase.pool 0 :: [] from rfl) (by decide), hother (by simp)⟩).snoc
      ⟨.startAgain (by decide), fun _ => by decide⟩
  have hqueued := (hthread.snoc
    ⟨.finishPool (show _ = [] ++ Phase.pool 1 :: [] from rfl) (by decide), hother (by simp)⟩).snoc
      ⟨.queueListen (show _ = [] ++ Phase.listen :: [] from rfl), hother (by simp)⟩
  have hlistening := ((hqueued.snoc ⟨.baseSwap (.server (by simp) (by simp) (.baseSwap rfl)),
    hother (by simp)⟩).snoc ⟨.runListen rfl rfl, hother (by simp)⟩).snoc
      ⟨.baseFinish rfl (.server (by simp) (by simp) (.baseFinish rfl rfl)), hother (by simp)⟩
  have hrun := (hlistening.snoc ⟨.acceptor (by simp) (by simp) (by simp) (.arrive client rfl),
    hother (by simp)⟩).snoc ⟨.acceptor (by simp) (by simp) (by simp)
      (.newConnection 5 rfl rfl rfl (show 5 ∉ {3} by decide) hget (by decide)), hother (by simp)⟩
  exact ⟨_, _, _, hrun, by simp, rfl, rfl⟩

/-- The client that connects is one of a server that has been started. -/
theorem start_refines_first : ∃ (server : TcpServer) (labels : List Acceptor.Label)
    (t : Acceptor.State (Fin (2 ^ 64))),
    Run (Acceptor.Step server) (.start ['p'] RingConsistency.byLength 1 true {3}) labels t ∧
      t.listenning = true ∧ t.peerAddrs.length = 1 := by
  obtain ⟨server, labels, t, hrun, -, hlisten, hpeers⟩ := run_starting
  have hseen := (start_refines server _ _ _ _ _ labels t hrun).1
  rw [seen_of_listenning hlisten] at hseen
  exact ⟨server, _, _, hseen, hlisten, hpeers⟩

end Startup

end MuduoLite
