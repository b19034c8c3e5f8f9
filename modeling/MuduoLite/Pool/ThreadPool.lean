import Mathlib.Data.Int.Notation
import MuduoLite.Pool.RingConsistency

/-!
# The thread pool

`EventLoopThreadPool` starts `numThreads` threads with a loop each, and assigns a key to
one of the loops through a hash ring of the names of the threads.  A pool without threads
is meant to run everything on the base loop: `start` calls the callback for it, and
`getAllLoops` returns it.  `getNextLoop` asks the ring all the same, and the ring of such
a pool is empty.

With at least one thread the ring is never in the way, whatever the hash function: the
names are added and never removed, so collisions only move points between threads.
-/

namespace MuduoLite

/-- A pool for hashes in `H` and loops of type `Loop`. -/
structure EventLoopThreadPool (H Loop : Type*) where
  baseLoop : Loop
  name : List Char
  started : Bool := false
  numThreads : ℤ := 0
  /-- `threads_`, by the names of the threads -/
  threads : List (List Char) := []
  loops : List Loop := []
  hash : ConsistentHash H
  threadNameToLoop : Finmap (fun _ : List Char => Loop) := ∅

namespace EventLoopThreadPool

variable {H Loop : Type*}

/-! ## Operations -/

/-- The constructor; a node has three virtual nodes. -/
def new (baseLoop : Loop) (name : List Char) (hashFunction : List Char → H) :
    EventLoopThreadPool H Loop where
  baseLoop := baseLoop
  name := name
  hash := { numReplicas := 3, hashFunction := hashFunction }

def setThreadNum (pool : EventLoopThreadPool H Loop) (numThreads : ℤ) :
    EventLoopThreadPool H Loop :=
  { pool with numThreads := numThreads }

/-- What is left of a string that is passed as `c_str()`. -/
def c_str (text : List Char) : List Char := text.takeWhile (· ≠ Char.ofNat 0)

/-- The name of thread `i`, printed into `name_.size() + 32` bytes. -/
def threadName (pool : EventLoopThreadPool H Loop) (i : ℕ) : List Char :=
  (c_str pool.name ++ Nat.toDigits 10 i).take (pool.name.length + 31)

def getAllLoops (pool : EventLoopThreadPool H Loop) : List Loop :=
  if pool.loops.isEmpty then [pool.baseLoop] else pool.loops

variable [LinearOrder H]

/-- The body of the loop of `start`; `loop` is what `startLoop` returns. -/
def startThread (pool : EventLoopThreadPool H Loop) (i : ℕ) (loop : Loop) :
    EventLoopThreadPool H Loop :=
  { pool with
    threads := pool.threads ++ [pool.threadName i]
    loops := pool.loops ++ [loop]
    hash := pool.hash.addNode (pool.threadName i)
    threadNameToLoop := pool.threadNameToLoop.insert (pool.threadName i) loop }

/-- The loop of `start`, from thread 0 on. -/
def startThreads (startLoop : ℕ → Loop) (pool : EventLoopThreadPool H Loop) :
    ℕ → EventLoopThreadPool H Loop
  | 0 => pool
  | n + 1 => (startThreads startLoop pool n).startThread n (startLoop n)

/-- `start`, and the loops for which it calls `cb` itself; `startLoop i` is the loop of
thread `i`. -/
def start (pool : EventLoopThreadPool H Loop) (startLoop : ℕ → Loop) (cb : Bool) :
    EventLoopThreadPool H Loop × List Loop :=
  (startThreads startLoop { pool with started := true } pool.numThreads.toNat,
    if pool.numThreads = 0 ∧ cb then [pool.baseLoop] else [])

/-- `getNextLoop`, with the texts that it logs; the search may change the ring. -/
def getNextLoop (pool : EventLoopThreadPool H Loop) (key : List Char) :
    Except ConsistentHash.GetNodeError (Loop × List String × EventLoopThreadPool H Loop) :=
  match pool.hash.getNode key with
  | .error e => .error e
  | .ok (threadName, hash) =>
      match pool.threadNameToLoop.lookup threadName with
      | some loop => .ok (loop, [], { pool with hash := hash })
      | none =>
          .ok (pool.baseLoop, ["EventLoopThreadPool::getNextLoop ERROR"],
            { pool with hash := hash })

/-! ## Started pools -/

/-- The nodes of the ring are the names in the map, whose loops are loops of the pool. -/
structure Named (pool : EventLoopThreadPool H Loop) : Prop where
  sound : RingConsistency.Sound ⟨pool.hash, pool.threadNameToLoop.keys⟩
  mem_loops : ∀ name loop, pool.threadNameToLoop.lookup name = some loop → loop ∈ pool.loops

theorem Named.startThread {pool : EventLoopThreadPool H Loop} (h : Named pool) (i : ℕ)
    (loop : Loop) : Named (pool.startThread i loop) where
  sound := by
    have hkeys : (pool.startThread i loop).threadNameToLoop.keys =
        insert (pool.threadName i) pool.threadNameToLoop.keys := by
      ext name
      rw [Finset.mem_insert, Finmap.mem_keys, Finmap.mem_keys]
      exact Finmap.mem_insert
    rw [hkeys]
    exact h.sound.addNode (pool.threadName i)
  mem_loops := by
    intro name other hlookup
    apply List.mem_append.2
    by_cases hname : name = pool.threadName i
    · right
      rw [hname, EventLoopThreadPool.startThread, Finmap.lookup_insert] at hlookup
      exact List.mem_singleton.2 (Option.some.inj hlookup).symm
    · left
      rw [EventLoopThreadPool.startThread, Finmap.lookup_insert_of_ne _ hname] at hlookup
      exact h.mem_loops name other hlookup

theorem startThread_hash_ne_empty {pool : EventLoopThreadPool H Loop}
    (hreplicas : 0 < pool.hash.numReplicas) (i : ℕ) (loop : Loop) :
    (pool.startThread i loop).hash.circle ≠ ∅ := by
  intro hempty
  have hmem : pool.hash.hashFunction (ConsistentHash.vnode (pool.threadName i) 0) ∈
      pool.hash.hashes (pool.threadName i) :=
    List.mem_map_of_mem (List.mem_range.2 hreplicas)
  have hlookup := pool.hash.addNode_lookup (pool.threadName i) (pool.hash.hashFunction
    (ConsistentHash.vnode (pool.threadName i) 0))
  rw [if_pos hmem] at hlookup
  exact Option.some_ne_none _ (hlookup.symm.trans (hempty ▸ Finmap.lookup_empty _))

section StartThreads

variable {pool : EventLoopThreadPool H Loop} (startLoop : ℕ → Loop) (n : ℕ)

theorem Named.startThreads (h : Named pool) : Named (startThreads startLoop pool n) := by
  induction n with
  | zero => exact h
  | succ n ih => exact ih.startThread n (startLoop n)

theorem startThreads_numReplicas :
    (startThreads startLoop pool n).hash.numReplicas = pool.hash.numReplicas := by
  induction n with
  | zero => rfl
  | succ n ih => exact (ConsistentHash.addNode_numReplicas _ _).trans ih

theorem startThreads_loops :
    (startThreads startLoop pool n).loops = pool.loops ++ (List.range n).map startLoop := by
  induction n with
  | zero => exact (List.append_nil _).symm
  | succ n ih =>
      rw [List.range_succ, List.map_append, ← List.append_assoc, ← ih]
      rfl

end StartThreads

/-! ## The loop of a key -/

/-- `getNextLoop` returns one of the loops of the pool, not by the fallback that logs an
error, and leaves the pool alone. -/
def Lands (pool : EventLoopThreadPool H Loop) (key : List Char) : Prop :=
  ∃ loop ∈ pool.getAllLoops, pool.getNextLoop key = .ok (loop, [], pool)

theorem Named.lands {pool : EventLoopThreadPool H Loop} (h : Named pool)
    (hsome : pool.hash.circle ≠ ∅) (key : List Char) : Lands pool key := by
  obtain ⟨name, hname, hget⟩ := h.sound.getNode_live hsome key
  obtain ⟨loop, hlookup⟩ := Finmap.mem_iff.1 (Finmap.mem_keys.1 hname)
  have hloop : loop ∈ pool.loops := h.mem_loops name loop hlookup
  refine ⟨loop, ?_, ?_⟩
  · rwa [getAllLoops, if_neg (by simpa using List.ne_nil_of_mem hloop)]
  · simp only [getNextLoop, hget, hlookup]

/-- A pool after `setThreadNum` and `start`. -/
def startedPool (baseLoop : Loop) (name : List Char) (hashFunction : List Char → H)
    (numThreads : ℤ) (startLoop : ℕ → Loop) (cb : Bool) : EventLoopThreadPool H Loop :=
  ((new baseLoop name hashFunction).setThreadNum numThreads |>.start startLoop cb).1

/-- With threads, `start` leaves the loops of its threads, and every key lands on one. -/
theorem startedPool_lands (baseLoop : Loop) (name : List Char) (hashFunction : List Char → H)
    {numThreads : ℤ} (startLoop : ℕ → Loop) (cb : Bool) (hthreads : 0 < numThreads)
    (key : List Char) : ∃ i < numThreads.toNat,
      (startedPool baseLoop name hashFunction numThreads startLoop cb).getNextLoop key =
        .ok (startLoop i, [], startedPool baseLoop name hashFunction numThreads startLoop cb) := by
  obtain ⟨n, hn⟩ : ∃ n, numThreads.toNat = n + 1 := ⟨numThreads.toNat - 1, by omega⟩
  let created : EventLoopThreadPool H Loop :=
    { (new baseLoop name hashFunction).setThreadNum numThreads with started := true }
  have hnamed : Named created :=
    { sound := RingConsistency.start_sound 3 hashFunction
      mem_loops := fun name loop hlookup => by simp [created, new, setThreadNum] at hlookup }
  have hpool : startedPool baseLoop name hashFunction numThreads startLoop cb =
      startThreads startLoop created (n + 1) := congrArg (startThreads startLoop created) hn
  have hsome : (startThreads startLoop created (n + 1)).hash.circle ≠ ∅ := by
    apply startThread_hash_ne_empty
    rw [startThreads_numReplicas]
    exact Nat.succ_pos 2
  have hloops : (startThreads startLoop created (n + 1)).getAllLoops =
      (List.range (n + 1)).map startLoop := by
    have hnone : created.loops = [] := rfl
    rw [getAllLoops, startThreads_loops, hnone, List.nil_append, if_neg (by simp)]
  obtain ⟨loop, hloop, hget⟩ := (hnamed.startThreads startLoop (n + 1)).lands hsome key
  rw [hloops, List.mem_map] at hloop
  obtain ⟨i, hi, rfl⟩ := hloop
  exact ⟨i, hn ▸ List.mem_range.1 hi, by rw [hpool, hget]⟩

/-- Without threads the ring is empty, and its search throws for every key. -/
theorem startedPool_throws (baseLoop : Loop) (name : List Char) (hashFunction : List Char → H)
    {numThreads : ℤ} (startLoop : ℕ → Loop) (cb : Bool) (hthreads : numThreads ≤ 0)
    (key : List Char) : ∃ error,
      (startedPool baseLoop name hashFunction numThreads startLoop cb).getNextLoop key =
        .error error := by
  have hpool : startedPool baseLoop name hashFunction numThreads startLoop cb =
      { (new baseLoop name hashFunction).setThreadNum numThreads with started := true } :=
    congrArg (startThreads startLoop _) (Int.toNat_of_nonpos hthreads)
  rw [hpool]
  exact ⟨_, rfl⟩

/-- The loops of a started pool are those of its threads, or the base loop if it has none;
every key lands in the pool if and only if the pool has threads. -/
theorem getNextLoop_lands_iff (baseLoop : Loop) (name : List Char) (hashFunction : List Char → H)
    (numThreads : ℤ) (startLoop : ℕ → Loop) (cb : Bool) :
    (startedPool baseLoop name hashFunction numThreads startLoop cb).getAllLoops =
        (if 0 < numThreads then (List.range numThreads.toNat).map startLoop else [baseLoop]) ∧
      ∀ key, Lands (startedPool baseLoop name hashFunction numThreads startLoop cb) key ↔
        0 < numThreads := by
  set pool := startedPool baseLoop name hashFunction numThreads startLoop cb
  let created : EventLoopThreadPool H Loop :=
    { (new baseLoop name hashFunction).setThreadNum numThreads with started := true }
  have hpool : pool = startThreads startLoop created numThreads.toNat := rfl
  have hnamed : Named created :=
    { sound := RingConsistency.start_sound 3 hashFunction
      mem_loops := fun name loop hlookup => by simp [created, new, setThreadNum] at hlookup }
  have hloops : pool.loops = (List.range numThreads.toNat).map startLoop := by
    rw [hpool, startThreads_loops]
    rfl
  cases hn : numThreads.toNat with
  | zero =>
      -- no thread was started: the ring is empty and the search throws
      have hnot : ¬ 0 < numThreads := by omega
      rw [hn] at hpool
      refine ⟨by rw [if_neg hnot, hpool]; rfl, fun key => iff_of_false ?_ hnot⟩
      rintro ⟨loop, _, hget⟩
      obtain ⟨error, hthrows⟩ := startedPool_throws baseLoop name hashFunction startLoop cb
        (not_lt.1 hnot) key
      cases hthrows.symm.trans hget
  | succ n =>
      have hpos : 0 < numThreads := by omega
      refine ⟨?_, fun key => iff_of_true ?_ hpos⟩
      · rw [if_pos hpos, getAllLoops, hloops, hn, if_neg (by simp)]
      · have hsome : pool.hash.circle ≠ ∅ := by
          rw [hpool, hn]
          apply startThread_hash_ne_empty
          rw [startThreads_numReplicas]
          exact Nat.succ_pos 2
        exact Named.lands (hpool ▸ hnamed.startThreads startLoop numThreads.toNat) hsome key

/-- A pool of the default size: no loop is found for any key. -/
theorem getNextLoop_throws :
    ¬ ∀ (Loop : Type) (baseLoop : Loop) (name : List Char)
      (hashFunction : List Char → Fin (2 ^ 64)) (numThreads : ℤ) (startLoop : ℕ → Loop) (cb : Bool)
      (key : List Char),
      Lands (startedPool baseLoop name hashFunction numThreads startLoop cb) key := by
  intro hclaim
  obtain ⟨loop, _, hget⟩ :=
    hclaim ℕ 0 ['p'] RingConsistency.byLength 0 (fun i => i + 1) false ['k']
  cases hget

end EventLoopThreadPool

end MuduoLite
