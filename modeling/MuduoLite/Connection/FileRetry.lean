import Mathlib.Algebra.BigOperators.Intervals
import MuduoLite.Connection.Quiescence

/-!
# How long `sendFileInLoop` queues itself

`sendFileInLoop` queues itself with the rest of its range until nothing is left or the
socket is broken.  A call of `sendfile` that transfers nothing leaves as much as before:
at the end of the file it returns `0`, and an error other than `EPIPE` and `ECONNRESET`
is treated like `EWOULDBLOCK`.  If the kernel stays with that answer the functor is
queued for ever.

The connection stays connected with an empty output buffer here, and is the only one to
transfer the file.  Other events of the connection, and the callbacks that wait in its
queue, may come in between.
-/

namespace MuduoLite

open Transition

namespace FileRetry

/-! ## The kernel -/

/-- The file and how the calls of `sendfile` on it go, one after the other. -/
structure Kernel where
  length : ℕ
  /-- how many bytes a call transfers if there are as many -/
  amount : ℕ → ℕ
  amount_pos : ∀ attempt, 0 < amount attempt
  /-- the first call that fails, as all later ones do, and the error -/
  failure : Option (ℕ × Errno) := none
  failure_ne : ∀ first, failure ≠ some (first, .EWOULDBLOCK)

namespace Kernel

def error (k : Kernel) (attempt : ℕ) : Option Errno :=
  match k.failure with
  | some (first, errno) => if first ≤ attempt then some errno else none
  | none => none

/-- The bytes that a call transfers: some, while there are any. -/
def transfer (k : Kernel) (attempt offset count : ℕ) : ℕ :=
  min (k.amount attempt) (min count (k.length - offset))

def answer (k : Kernel) (attempt offset count : ℕ) : IoResult :=
  match k.error attempt with
  | some errno => .error errno
  | none => .bytes (k.transfer attempt offset count)

/-- The errors after which the code gives up. -/
def Broken (k : Kernel) : Prop :=
  ∃ first errno, k.failure = some (first, errno) ∧ (IoResult.error errno).isFault = true

/-- The range is empty, or the socket breaks, or the range is in the file and has been
transferred before the calls fail. -/
def Ends (k : Kernel) (attempt offset count : ℕ) : Prop :=
  count = 0 ∨ k.Broken ∨ offset + count ≤ k.length ∧
    ∀ first errno, k.failure = some (first, errno) →
      count ≤ ∑ i ∈ Finset.Ico attempt first, k.amount i

/-- What the functor that `sendFileInLoop` queues is called with. -/
def next (k : Kernel) (attempt offset count : ℕ) : Option (ℕ × ℕ) :=
  match k.answer attempt offset count with
  | .bytes n => if count - n = 0 then none else some (offset + n, count - n)
  | .error errno =>
      if (IoResult.error errno).isFault ∨ count = 0 then none else some (offset, count)

/-- An upper bound for the executions that are left. -/
def left (k : Kernel) (attempt count : ℕ) : ℕ :=
  match k.failure with
  | some (first, errno) => if (IoResult.error errno).isFault then first - attempt else count
  | none => count

variable {k : Kernel} {attempt offset count offset' count' : ℕ}

theorem error_eq_some_iff {errno : Errno} : k.error attempt = some errno ↔
    ∃ first, k.failure = some (first, errno) ∧ first ≤ attempt := by
  unfold error
  cases hfailure : k.failure with
  | none => simp
  | some failure =>
      obtain ⟨first, other⟩ := failure
      by_cases hfirst : first ≤ attempt
      · simp [hfirst]
      · simp [hfirst]

theorem lt_of_error_eq_none (herror : k.error attempt = none) {first : ℕ} {errno : Errno}
    (hfailure : k.failure = some (first, errno)) : attempt < first := by
  by_contra hle
  have hsome : k.error attempt = some errno :=
    error_eq_some_iff.2 ⟨first, hfailure, Nat.le_of_not_lt hle⟩
  rw [herror] at hsome
  cases hsome

theorem transfer_pos (k : Kernel) (attempt : ℕ) (hcount : 0 < count) (hoffset : offset < k.length) :
    0 < k.transfer attempt offset count :=
  lt_min (k.amount_pos attempt) (lt_min hcount (Nat.sub_pos_of_lt hoffset))

/-- What is left of the range after an execution that queues another one. -/
theorem next_eq_some (hnext : k.next attempt offset count = some (offset', count')) :
    0 < count ∧ ((∃ errno, k.error attempt = some errno ∧
        (IoResult.error errno).isFault = false ∧ offset' = offset ∧ count' = count) ∨
      k.error attempt = none ∧ offset' = offset + k.transfer attempt offset count ∧
        count' = count - k.transfer attempt offset count ∧ 0 < count') := by
  unfold next answer at hnext
  cases herror : k.error attempt with
  | some errno =>
      rw [herror] at hnext
      dsimp only at hnext
      split_ifs at hnext with hgive
      obtain ⟨rfl, rfl⟩ := Prod.mk.inj (Option.some.inj hnext)
      rw [not_or, Bool.not_eq_true] at hgive
      exact ⟨Nat.pos_of_ne_zero hgive.2, .inl ⟨errno, rfl, hgive.1, rfl, rfl⟩⟩
  | none =>
      rw [herror] at hnext
      dsimp only at hnext
      split_ifs at hnext with hdone
      obtain ⟨rfl, rfl⟩ := Prod.mk.inj (Option.some.inj hnext)
      exact ⟨by omega, .inr ⟨rfl, rfl, rfl, Nat.pos_of_ne_zero hdone⟩⟩

theorem broken_of_fault {errno : Errno} (herror : k.error attempt = some errno)
    (hfault : (IoResult.error errno).isFault = true) : k.Broken := by
  obtain ⟨first, hfailure, -⟩ := error_eq_some_iff.1 herror
  exact ⟨first, errno, hfailure, hfault⟩

theorem not_broken {errno : Errno} (herror : k.error attempt = some errno)
    (hfault : (IoResult.error errno).isFault = false) : ¬ k.Broken := by
  rintro ⟨first, other, hfailure, hbroken⟩
  obtain ⟨first', hfailure', -⟩ := error_eq_some_iff.1 herror
  obtain ⟨-, rfl⟩ := Prod.mk.inj (Option.some.inj (hfailure.symm.trans hfailure'))
  rw [hfault] at hbroken
  cases hbroken

/-- Once calls fail, and not for a broken socket, the transfer ends only if nothing is left. -/
theorem ends_iff_of_error {errno : Errno} (herror : k.error attempt = some errno)
    (hfault : (IoResult.error errno).isFault = false) :
    k.Ends attempt offset count ↔ count = 0 := by
  obtain ⟨first, hfailure, hfirst⟩ := error_eq_some_iff.1 herror
  refine ⟨fun hends => ?_, .inl⟩
  rcases hends with hzero | hbroken | ⟨-, hsum⟩
  · exact hzero
  · exact absurd hbroken (not_broken herror hfault)
  · have hle := hsum first errno hfailure
    rw [Finset.Ico_eq_empty_of_le hfirst, Finset.sum_empty] at hle
    exact Nat.le_zero.1 hle

/-- The functor is not queued again: one of the reasons holds. -/
theorem ends_of_next_eq_none (hnext : k.next attempt offset count = none) :
    k.Ends attempt offset count := by
  unfold next answer at hnext
  cases herror : k.error attempt with
  | some errno =>
      rw [herror] at hnext
      dsimp only at hnext
      split_ifs at hnext with hgive
      rcases hgive with hfault | hzero
      · exact .inr (.inl (broken_of_fault herror hfault))
      · exact .inl hzero
  | none =>
      rw [herror] at hnext
      dsimp only at hnext
      split_ifs at hnext with hdone
      rcases Nat.eq_zero_or_pos count with hzero | hpos
      · exact .inl hzero
      · have hle : count ≤ k.transfer attempt offset count := Nat.le_of_sub_eq_zero hdone
        unfold transfer at hle
        refine .inr (.inr ⟨by omega, fun first errno hfailure => ?_⟩)
        have hlt : attempt < first := lt_of_error_eq_none herror hfailure
        calc
          count ≤ k.amount attempt := by omega
          _ ≤ k.amount attempt + ∑ i ∈ Finset.Ico (attempt + 1) first, k.amount i :=
            Nat.le_add_right _ _
          _ = ∑ i ∈ Finset.Ico attempt first, k.amount i :=
            (Finset.sum_eq_sum_Ico_succ_bot hlt k.amount).symm

/-- An execution that queues another one changes nothing about the reasons. -/
theorem ends_next_iff (hnext : k.next attempt offset count = some (offset', count')) :
    k.Ends (attempt + 1) offset' count' ↔ k.Ends attempt offset count := by
  obtain ⟨hpos, ⟨errno, herror, hfault, rfl, rfl⟩ | ⟨herror, hoffset, hcount, hpos'⟩⟩ :=
    next_eq_some hnext
  · have herror' : k.error (attempt + 1) = some errno := by
      obtain ⟨first, hfailure, hfirst⟩ := error_eq_some_iff.1 herror
      exact error_eq_some_iff.2 ⟨first, hfailure, Nat.le_succ_of_le hfirst⟩
    rw [ends_iff_of_error herror hfault, ends_iff_of_error herror' hfault]
  · unfold transfer at hoffset hcount
    have hinside : offset' + count' ≤ k.length ↔ offset + count ≤ k.length := by omega
    have hzero : count' = 0 ↔ count = 0 := by omega
    unfold Ends
    rw [hinside, hzero]
    refine or_congr_right (or_congr_right (and_congr_right fun hlength => ?_))
    refine forall₃_congr fun first errno hfailure => ?_
    have hsum := Finset.sum_eq_sum_Ico_succ_bot (lt_of_error_eq_none herror hfailure) k.amount
    omega

/-- Until then every execution leaves less. -/
theorem left_next_lt (hends : k.Ends attempt offset count)
    (hnext : k.next attempt offset count = some (offset', count')) :
    k.left (attempt + 1) count' < k.left attempt count := by
  obtain ⟨hpos, ⟨errno, herror, hfault, -, -⟩ | ⟨herror, -, hcount, hpos'⟩⟩ := next_eq_some hnext
  · rw [ends_iff_of_error herror hfault] at hends
    omega
  · have hless (hinside : offset + count ≤ k.length) : count' < count := by
      have hsome : 0 < k.transfer attempt offset count := k.transfer_pos attempt hpos (by omega)
      omega
    unfold left
    cases hfailure : k.failure with
    | none =>
        rcases hends with hzero | ⟨first, errno, hsome, -⟩ | ⟨hinside, -⟩
        · omega
        · rw [hfailure] at hsome
          cases hsome
        · exact hless hinside
    | some failure =>
        obtain ⟨first, errno⟩ := failure
        have hfirst := lt_of_error_eq_none herror hfailure
        dsimp only
        split_ifs with hfault
        · omega
        · rcases hends with hzero | ⟨first', errno', hsome, hbroken⟩ | ⟨hinside, -⟩
          · omega
          · obtain ⟨-, rfl⟩ := Prod.mk.inj (Option.some.inj (hfailure.symm.trans hsome))
            exact absurd hbroken hfault
          · exact hless hinside

end Kernel

/-! ## The loop -/

structure System where
  conn : ConnState
  /-- how often `sendFileInLoop` has been executed -/
  attempts : ℕ := 0

inductive Label
  | callback (callback : Channel.Callback) (read : Buffer.ReadResult) (result : IoResult)
  | runFunctor (result : IoResult)
  deriving DecidableEq, Repr

/-- Does the functor call a callback of the user? -/
def isCallback : Functor → Bool
  | .writeComplete => true
  | .highWaterMark _ => true
  | _ => false

def System.pop (p : System) (rest : List Functor) : System :=
  { p with conn := { p.conn with pendingFunctors := rest } }

/-- Run the functor at the head of the queue, behind which `rest` waits. -/
def System.run (k : Kernel) (p : System) (functor : Functor) (rest : List Functor)
    (result : IoResult) : System :=
  match functor with
  | .sendFileInLoop fileDescriptor offset count =>
      { conn := (p.pop rest).conn.sendFileInLoop fileDescriptor offset count
          (k.answer p.attempts offset count)
        attempts := p.attempts + 1 }
  | _ => { p with conn := (p.pop rest).conn.runFunctor functor result }

inductive Step (k : Kernel) (p : System) : Label → System → Prop
  | callback (callback : Channel.Callback) (read : Buffer.ReadResult) (result : IoResult)
      (hharmless : Quiescence.HarmlessCallback read callback) :
      Step k p (.callback callback read result)
        { p with conn := p.conn.runCallback callback read result }
  | runFunctor (result : IoResult) {functor : Functor} {rest : List Functor}
      (hqueue : p.conn.pendingFunctors = functor :: rest) :
      Step k p (.runFunctor result) (p.run k functor rest result)

/-- The connection is connected, with nothing to send and nothing to do but to call the user. -/
structure Ready (s : ConnState) : Prop where
  connected : s.conn.state = .kConnected
  idle : s.isIdle = true
  queue : ∀ functor ∈ s.pendingFunctors, isCallback functor = true

/-- `sendFile` has been called, on the loop thread or on another one. -/
inductive Called (k : Kernel) (s : ConnState) (fileDescriptor offset count : ℕ) : System → Prop
  | inLoop : Called k s fileDescriptor offset count
      ⟨s.sendFile fileDescriptor offset count (k.answer 0 offset count), 1⟩
  | elsewhere : Called k s fileDescriptor offset count
      ⟨s.queueInLoop (.sendFileInLoop fileDescriptor offset count), 0⟩

/-- No run executes `sendFileInLoop` more than a certain number of times. -/
def Bounded (k : Kernel) (p : System) : Prop :=
  ∃ bound, ∀ labels q, Run (Step k) p labels q → q.attempts ≤ bound

/-! ## One functor in the queue -/

/-- The functor that `sendFileInLoop` queues, `pending` being what it is called with. -/
def queued (fileDescriptor : ℕ) (pending : Option (ℕ × ℕ)) : List Functor :=
  (pending.map fun range => .sendFileInLoop fileDescriptor range.1 range.2).toList

/-- The queue ends in the functor that goes on with the transfer, if one does. -/
structure Chain (fileDescriptor : ℕ) (pending : Option (ℕ × ℕ)) (s : ConnState) : Prop where
  connected : s.conn.state = .kConnected
  idle : s.isIdle = true
  queue : ∃ others, (∀ functor ∈ others, isCallback functor = true) ∧
    s.pendingFunctors = others ++ queued fileDescriptor pending

variable {k : Kernel} {p q : System} {s t : ConnState} {fileDescriptor offset count : ℕ}
  {pending : Option (ℕ × ℕ)} {label : Label}

theorem Chain.congr (h : Chain fileDescriptor pending s) (hstate : t.conn.state = s.conn.state)
    (hidle : t.isIdle = s.isIdle) (hqueue : t.pendingFunctors = s.pendingFunctors) :
    Chain fileDescriptor pending t where
  connected := hstate.trans h.connected
  idle := hidle.trans h.idle
  queue := hqueue ▸ h.queue

theorem Ready.queueInLoop (h : Ready s) (fileDescriptor offset count : ℕ) :
    Chain fileDescriptor (some (offset, count))
      (s.queueInLoop (.sendFileInLoop fileDescriptor offset count)) :=
  ⟨h.connected, h.idle, s.pendingFunctors, h.queue, rfl⟩

/-- `sendFileInLoop` on a connection that can send. -/
theorem exists_sendFileInLoop (hconnected : s.conn.state = .kConnected) (hidle : s.isIdle = true)
    (fileDescriptor attempt offset count : ℕ) :
    ∃ others, (∀ functor ∈ others, isCallback functor = true) ∧
      (s.sendFileInLoop fileDescriptor offset count
        (k.answer attempt offset count)).pendingFunctors =
          s.pendingFunctors ++ others ++ queued fileDescriptor (k.next attempt offset count) := by
  have hstate : s.conn.state ≠ .kDisconnecting := by simp [hconnected]
  unfold Kernel.next
  cases k.answer attempt offset count with
  | bytes n =>
      simp only [ConnState.sendFileInLoop, hstate, hidle, if_true, if_false]
      split_ifs with hdone
      · unfold ConnState.notifyWriteComplete
        split_ifs
        · exact ⟨[.writeComplete], by simp [isCallback], by simp [queued]⟩
        · exact ⟨[], by simp, by simp [queued]⟩
      · exact ⟨[], by simp, by simp [ConnState.requeueFile, hdone, queued]⟩
  | error errno =>
      simp only [ConnState.sendFileInLoop, hstate, hidle, if_true, if_false]
      refine ⟨[], by simp, ?_⟩
      by_cases hfault : (IoResult.error errno).isFault = true
      · simp [hfault, queued]
      · by_cases hzero : count = 0
        · simp [hfault, ConnState.requeueFile, hzero, queued]
        · simp [hfault, ConnState.requeueFile, hzero, queued]

/-- The rest of the range, if any, is behind the callbacks. -/
theorem Ready.sendFileInLoop (h : Ready s) (fileDescriptor attempt offset count : ℕ) :
    Chain fileDescriptor (k.next attempt offset count)
      (s.sendFileInLoop fileDescriptor offset count (k.answer attempt offset count)) := by
  obtain ⟨more, hmore, hqueue⟩ :=
    exists_sendFileInLoop (k := k) h.connected h.idle fileDescriptor attempt offset count
  refine ⟨?_, ?_, s.pendingFunctors ++ more, List.forall_mem_append.2 ⟨h.queue, hmore⟩, hqueue⟩
  · rw [ConnState.sendFileInLoop_conn]
    exact h.connected
  · rw [ConnState.isIdle, ConnState.sendFileInLoop_conn]
    exact h.idle

/-- An event leaves the queue alone, and the output. -/
theorem Chain.runCallback (h : Chain fileDescriptor pending s) {callback : Channel.Callback}
    {read : Buffer.ReadResult} (hharmless : Quiescence.HarmlessCallback read callback)
    (result : IoResult) : Chain fileDescriptor pending (s.runCallback callback read result) := by
  cases callback with
  | closeCallback => exact hharmless.elim
  | errorCallback => exact h
  | readCallback =>
      simp only [ConnState.runCallback, ConnState.handleRead]
      split
      · exact absurd rfl hharmless
      · exact h.congr rfl rfl rfl
      · exact h.congr rfl rfl rfl
  | writeCallback =>
      have hoff : s.conn.channel.isWriting = false := ((s.isIdle_iff).1 h.idle).1
      have hwrite : s.runCallback .writeCallback read result = s := by
        simp [ConnState.runCallback, ConnState.handleWrite, hoff]
      rwa [hwrite]

theorem System.run_of_isCallback (p : System) {functor : Functor} (h : isCallback functor = true)
    (rest : List Functor) (result : IoResult) :
    p.run k functor rest result = p.pop rest := by
  cases functor with
  | writeComplete => rfl
  | highWaterMark size => rfl
  | _ => cases h

/-- The head of the queue calls the user, or goes on with the transfer. -/
theorem Chain.run (h : Chain fileDescriptor pending p.conn) {functor : Functor}
    {rest : List Functor} (hqueue : p.conn.pendingFunctors = functor :: rest) (result : IoResult) :
    ((p.run k functor rest result).attempts = p.attempts ∧
      Chain fileDescriptor pending (p.run k functor rest result).conn) ∨
    ∃ offset count, pending = some (offset, count) ∧
      (p.run k functor rest result).attempts = p.attempts + 1 ∧
        Chain fileDescriptor (k.next p.attempts offset count)
          (p.run k functor rest result).conn := by
  obtain ⟨others, hothers, heq⟩ := h.queue
  rw [hqueue] at heq
  cases others with
  | nil =>
      right
      cases pending with
      | none => cases heq
      | some range =>
          obtain ⟨offset, count⟩ := range
          obtain ⟨rfl, rfl⟩ := List.cons.inj heq
          have hready : Ready (p.pop []).conn := ⟨h.connected, h.idle, nofun⟩
          exact ⟨offset, count, rfl, rfl, hready.sendFileInLoop _ _ _ _⟩
  | cons head tail =>
      left
      obtain ⟨rfl, rfl⟩ := List.cons.inj heq
      obtain ⟨hhead, htail⟩ := List.forall_mem_cons.1 hothers
      rw [p.run_of_isCallback hhead]
      exact ⟨rfl, h.connected, h.idle, tail, htail, rfl⟩

/-- What a step does to the transfer: nothing, or an execution. -/
theorem Chain.step (h : Chain fileDescriptor pending p.conn) (hstep : Step k p label q) :
    (q.attempts = p.attempts ∧ Chain fileDescriptor pending q.conn) ∨
    ∃ offset count, pending = some (offset, count) ∧ q.attempts = p.attempts + 1 ∧
      Chain fileDescriptor (k.next p.attempts offset count) q.conn := by
  cases hstep with
  | callback callback read result hharmless =>
      exact .inl ⟨rfl, h.runCallback hharmless result⟩
  | runFunctor result hqueue => exact h.run hqueue result

/-! ## The theorem -/

/-- As many executions are left as `bound` allows. -/
structure Within (k : Kernel) (fileDescriptor bound : ℕ) (p : System) : Prop where
  attempts : p.attempts ≤ bound
  chain : ∃ pending, Chain fileDescriptor pending p.conn ∧ ∀ offset count,
    pending = some (offset, count) → k.Ends p.attempts offset count ∧
      p.attempts + k.left p.attempts count < bound

theorem Within.step {bound : ℕ} (h : Within k fileDescriptor bound p)
    (hstep : Step k p label q) : Within k fileDescriptor bound q := by
  obtain ⟨pending, hchain, hends⟩ := h.chain
  rcases hchain.step hstep with ⟨heq, hchain'⟩ | ⟨offset, count, hpending, heq, hchain'⟩
  · exact ⟨heq ▸ h.attempts, pending, hchain', heq ▸ hends⟩
  · obtain ⟨hends', hbound⟩ := hends offset count hpending
    refine ⟨by omega, _, hchain', fun offset' count' hnext => ?_⟩
    have hless := Kernel.left_next_lt hends' hnext
    rw [heq]
    exact ⟨(Kernel.ends_next_iff hnext).2 hends', by omega⟩

theorem bounded_of_ends (h : Chain fileDescriptor pending p.conn)
    (hends : ∀ offset count, pending = some (offset, count) → k.Ends p.attempts offset count) :
    Bounded k p := by
  obtain ⟨bound, hbound⟩ : ∃ bound, Within k fileDescriptor bound p := by
    cases pending with
    | none => exact ⟨p.attempts, le_rfl, none, h, nofun⟩
    | some range =>
        obtain ⟨offset, count⟩ := range
        refine ⟨p.attempts + k.left p.attempts count + 1, by omega, _, h, ?_⟩
        rintro _ _ ⟨⟩
        exact ⟨hends offset count rfl, Nat.lt_succ_self _⟩
  exact ⟨bound, fun labels q hrun =>
    (hrun.invariant hbound fun _ _ _ h hstep => h.step hstep).attempts⟩

/-- The functor comes to the head of the queue and is executed. -/
theorem exists_attempt (h : Chain fileDescriptor (some (offset, count)) p.conn) :
    ∃ labels q, Run (Step k) p labels q ∧ q.attempts = p.attempts + 1 ∧
      Chain fileDescriptor (k.next p.attempts offset count) q.conn := by
  obtain ⟨others, hothers, hqueue⟩ := h.queue
  induction others generalizing p with
  | nil =>
      refine ⟨_, _, .single (.runFunctor (.bytes 0) hqueue), ?_⟩
      rcases h.run (k := k) hqueue (.bytes 0) with ⟨heq, -⟩ | ⟨_, _, hpending, hrun⟩
      · exact absurd heq (Nat.succ_ne_self _)
      · cases hpending
        exact hrun
  | cons head tail ih =>
      obtain ⟨hhead, htail⟩ := List.forall_mem_cons.1 hothers
      -- the queue starts with a callback of the user
      have hstep : Step k p (.runFunctor (.bytes 0)) (p.run k head _ (.bytes 0)) :=
        .runFunctor _ hqueue
      rw [p.run_of_isCallback hhead] at hstep
      obtain ⟨labels, q, hrun, hq⟩ :=
        ih (p := p.pop (tail ++ queued fileDescriptor (some (offset, count))))
          ⟨h.connected, h.idle, tail, htail, rfl⟩ htail rfl
      exact ⟨_, q, (Run.single hstep).append hrun, hq⟩

theorem exists_attempts (h : Chain fileDescriptor (some (offset, count)) p.conn)
    (hends : ¬ k.Ends p.attempts offset count) (n : ℕ) :
    ∃ labels q, Run (Step k) p labels q ∧ q.attempts = p.attempts + n ∧
      ∃ offset' count', Chain fileDescriptor (some (offset', count')) q.conn ∧
        ¬ k.Ends q.attempts offset' count' := by
  induction n with
  | zero => exact ⟨[], p, .nil, rfl, offset, count, h, hends⟩
  | succ n ih =>
      obtain ⟨labels, q, hrun, hattempts, offset', count', hchain, hends'⟩ := ih
      obtain ⟨labels', r, hrun', hattempts', hchain'⟩ := exists_attempt (k := k) hchain
      cases hnext : k.next q.attempts offset' count' with
      | none => exact absurd (Kernel.ends_of_next_eq_none hnext) hends'
      | some range =>
          rw [hnext] at hchain'
          refine ⟨_, r, hrun.append hrun', by omega, range.1, range.2, hchain', ?_⟩
          rw [hattempts', Kernel.ends_next_iff hnext]
          exact hends'

theorem bounded_iff (h : Chain fileDescriptor pending p.conn) : Bounded k p ↔
    ∀ offset count, pending = some (offset, count) → k.Ends p.attempts offset count := by
  refine ⟨fun ⟨bound, hbound⟩ offset count hpending => ?_, bounded_of_ends h⟩
  by_contra hends
  subst hpending
  obtain ⟨labels, q, hrun, hattempts, -⟩ := exists_attempts h hends (bound + 1)
  have hle := hbound labels q hrun
  omega

/-- `sendFileInLoop` stops queueing itself if the range is empty, if the socket breaks, or
if the range lies in the file and is transferred before `sendfile` fails; otherwise it is
executed for ever. -/
theorem sendFile_ends (k : Kernel) (s : ConnState) (hready : Ready s)
    (fileDescriptor offset count : ℕ) (p : System)
    (hcalled : Called k s fileDescriptor offset count p) :
    Bounded k p ↔ k.Ends 0 offset count := by
  cases hcalled with
  | elsewhere =>
      have hchain := hready.queueInLoop fileDescriptor offset count
      refine Iff.trans (bounded_iff hchain) ⟨fun h => h offset count rfl, fun h => ?_⟩
      rintro _ _ ⟨⟩
      exact h
  | inLoop =>
      have hchain : Chain fileDescriptor (k.next 0 offset count)
          (s.sendFile fileDescriptor offset count (k.answer 0 offset count)) := by
        rw [ConnState.sendFile, if_pos hready.connected]
        exact hready.sendFileInLoop fileDescriptor 0 offset count
      refine Iff.trans (bounded_iff hchain) ?_
      cases hnext : k.next 0 offset count with
      | none =>
          refine iff_of_true (fun _ _ hpending => ?_) (Kernel.ends_of_next_eq_none hnext)
          cases hpending
      | some range =>
          rw [← Kernel.ends_next_iff hnext]
          refine ⟨fun h => h _ _ rfl, fun h => ?_⟩
          rintro _ _ ⟨⟩
          exact h

/-- A file of three bytes, which are transferred two at a time. -/
def threeBytes : Kernel where
  length := 3
  amount := fun _ => 2
  amount_pos := fun _ => by decide
  failure_ne := fun _ => (Option.some_ne_none _).symm

theorem ready_connectEstablished : Ready SendPath.fresh.connectEstablished where
  connected := rfl
  idle := by decide
  queue := fun _ hmem => absurd hmem List.not_mem_nil

theorem sendFile_ends_threeBytes :
    Bounded threeBytes ⟨SendPath.fresh.connectEstablished.sendFile 0 0 3 (.bytes 2), 1⟩ := by
  refine (sendFile_ends threeBytes SendPath.fresh.connectEstablished ready_connectEstablished
    0 0 3 _ .inLoop).2 (.inr (.inr ⟨le_rfl, fun first errno hfailure => ?_⟩))
  cases hfailure

/-- One byte is asked for that the file does not have. -/
theorem sendFile_past_end :
    ¬ ∀ (k : Kernel) (s : ConnState) (fileDescriptor offset count : ℕ) (p : System), Ready s →
      Called k s fileDescriptor offset count p → Bounded k p := by
  intro hclaim
  have hready := ready_connectEstablished
  have hbounded := hclaim threeBytes _ 0 0 4 _ hready .elsewhere
  have hends : threeBytes.Ends 0 0 4 := (bounded_iff (hready.queueInLoop 0 0 4)).1 hbounded 0 4 rfl
  rcases hends with hzero | ⟨first, errno, hfailure, -⟩ | ⟨hinside, -⟩
  · cases hzero
  · cases hfailure
  · exact absurd hinside (by decide)

end FileRetry

end MuduoLite
