import MuduoLite.Connection.Methods
import MuduoLite.Library.Transition

/-!
# The storage behind a queued send

On a thread other than the loop's, `TcpConnection::send` puts a functor into the
loop's queue that holds `buf.c_str()` and `buf.size()`.  The bytes are read when
the functor runs, by `::write` and then, if some of them remain, by the `append` to
the output buffer.  The model therefore has a memory: an address holds a byte or
is not allocated, and any thread may store to it or free it at any time, also
between the two reads.

`contents` of a queued functor is a history variable, the bytes `buf` had at the
call.  `Intact` says that they are still where the functor will look for them;
it is kept by every run in which nobody changes the storage of a send until its
functor has come to its end.
-/

namespace MuduoLite

open Transition

namespace CallerStorage

abbrev Memory := ℕ → Option Byte

/-- The bytes at `[ptr, ptr + len)`, when all of them are allocated. -/
def readMemory (mem : Memory) (ptr : ℕ) : ℕ → Option (List Byte)
  | 0 => some []
  | len + 1 => do
      let byte ← mem ptr
      let rest ← readMemory mem (ptr + 1) len
      return byte :: rest

theorem readMemory_congr {mem mem' : Memory} {ptr len : ℕ}
    (h : ∀ addr, ptr ≤ addr → addr < ptr + len → mem' addr = mem addr) :
    readMemory mem' ptr len = readMemory mem ptr len := by
  induction len generalizing ptr with
  | zero => rfl
  | succ len ih =>
      have hrest : readMemory mem' (ptr + 1) len = readMemory mem (ptr + 1) len :=
        ih fun addr hlow hhigh => h addr (by omega) (by omega)
      simp only [readMemory, hrest, h ptr (Nat.le_refl _) (by omega)]

theorem length_of_readMemory {mem : Memory} {ptr len : ℕ} {bytes : List Byte}
    (h : readMemory mem ptr len = some bytes) : bytes.length = len := by
  induction len generalizing ptr bytes with
  | zero =>
      obtain rfl := Option.some.inj h
      rfl
  | succ len ih =>
      obtain ⟨byte, -, h⟩ := Option.bind_eq_some_iff.1 h
      obtain ⟨rest, hrest, h⟩ := Option.bind_eq_some_iff.1 h
      obtain rfl := Option.some.inj h
      rw [List.length_cons, ih hrest]

/-- The bytes from `n` on. -/
theorem readMemory_drop {mem : Memory} {ptr len : ℕ} {bytes : List Byte}
    (h : readMemory mem ptr len = some bytes) {n : ℕ} (hn : n ≤ len) :
    readMemory mem (ptr + n) (len - n) = some (bytes.drop n) := by
  induction n generalizing ptr len bytes with
  | zero => exact h
  | succ n ih =>
      obtain ⟨len, rfl⟩ : ∃ rest, len = rest + 1 := ⟨len - 1, by omega⟩
      obtain ⟨byte, -, h⟩ := Option.bind_eq_some_iff.1 h
      obtain ⟨rest, hrest, h⟩ := Option.bind_eq_some_iff.1 h
      obtain rfl := Option.some.inj h
      rw [Nat.add_comm n 1, ← Nat.add_assoc, Nat.add_comm 1 n, Nat.add_sub_add_right]
      exact ih hrest (by omega)

/-! ## The two halves of `sendInLoop` -/

/-- `sendInLoop` up to and with its `::write`, which finds `data`. -/
def directWrite (s : ConnState) (data : List Byte) (result : IoResult) : ConnState :=
  if s.isIdle then
    let wrote := s.emit (.write data result)
    match result with
    | .bytes n => if data.length - n = 0 then wrote.notifyWriteComplete else wrote
    | .error _ => wrote
  else s

/-- `nwrote` after the `::write`, if it is called. -/
def nwrote (s : ConnState) : IoResult → ℕ
  | .bytes n => if s.isIdle then n else 0
  | .error _ => 0

def faultError (s : ConnState) (result : IoResult) : Bool := s.isIdle && result.isFault

/-- How many bytes the rest of `sendInLoop` appends. -/
def remaining (s : ConnState) (len : ℕ) (result : IoResult) : ℕ :=
  if faultError s result then 0 else len - nwrote s result

/-- The halves make the whole if both find the same bytes. -/
theorem sendInLoop_eq (s : ConnState) (data : List Byte) (result : IoResult) :
    s.sendInLoop data result =
      if remaining s data.length result = 0 then directWrite s data result
      else (directWrite s data result).appendRemaining (data.drop (nwrote s result)) := by
  by_cases hidle : s.isIdle = true
  · cases result with
    | bytes n =>
        simp only [ConnState.sendInLoop, directWrite, remaining, faultError, nwrote,
          IoResult.isFault, hidle, if_true, Bool.and_false, Bool.false_eq_true, if_false,
          List.drop_eq_nil_iff, Nat.sub_eq_zero_iff_le]
        split_ifs <;> rfl
    | error errno =>
        by_cases hfault : (IoResult.error errno).isFault = true
        · simp [ConnState.sendInLoop, directWrite, remaining, faultError, hidle, hfault]
        · have hkept : (IoResult.error errno).isFault = false := by simpa using hfault
          simp only [ConnState.sendInLoop, directWrite, remaining, faultError, nwrote, hidle,
            hkept, if_true, Bool.and_false, Bool.false_eq_true, if_false, Nat.sub_zero,
            List.drop_zero, List.length_eq_zero_iff]
          split_ifs with hnone
          · rw [hnone]
            rfl
          · rfl
  · have hbusy : s.isIdle = false := by simpa using hidle
    cases result with
    | _ =>
        simp only [ConnState.sendInLoop, directWrite, remaining, faultError, nwrote, hbusy,
          Bool.false_and, Bool.false_eq_true, if_false, Nat.sub_zero, List.drop_zero,
          List.length_eq_zero_iff]
        split_ifs with hnone
        · rw [hnone]
          rfl
        · rfl

/-! ## Steps -/

/-- A functor `bind(&TcpConnection::sendInLoop, this, ptr, len)`. -/
structure QueuedSend where
  ptr : ℕ
  len : ℕ
  /-- the bytes of `buf` when `send` was called -/
  contents : List Byte
  deriving DecidableEq, Repr

/-- A functor whose `::write` is behind it, if it has called one. -/
structure Running where
  queued : QueuedSend
  /-- the connection when it started -/
  before : ConnState
  /-- the answer to `::write` -/
  result : IoResult

/-- What `::write` or `append` has found. -/
structure Found where
  /-- the part of `contents` that should be there -/
  contents : List Byte
  /-- the bytes, when all of them are allocated -/
  bytes : Option (List Byte)

structure System where
  mem : Memory
  conn : ConnState
  /-- the send functors the loop has not run yet -/
  queue : List QueuedSend := []
  running : Option Running := none
  found : List Found := []

/-- The send functors that wait or run. -/
def System.unfinished (p : System) : List QueuedSend :=
  (p.running.map Running.queued).toList ++ p.queue

/-- The steps of the threads.  `send` and `store` are made by threads other than
the loop's: a call of `send(buf)`, and a store to one byte of memory, or its
release.  The loop thread makes calls on the connection and runs the queue; `write`
is the first half of a functor and `append` the second. -/
inductive Label
  | send (ptr len : ℕ)
  | store (addr : ℕ) (value : Option Byte)
  | call (loopCall : ConnState.LoopCall)
  | write (result : IoResult)
  | append

/-- The loop thread runs `queued` until its `::write` has returned. -/
def System.write (p : System) (queued : QueuedSend) (result : IoResult) : System :=
  let bytes := readMemory p.mem queued.ptr queued.len
  { p with
    conn := match bytes with
      | some data => directWrite p.conn data result
      -- the storage is gone, what is read is undefined
      | none => p.conn
    queue := p.queue.tail
    running := some ⟨queued, p.conn, result⟩
    found := if p.conn.isIdle then p.found ++ [⟨queued.contents, bytes⟩] else p.found }

/-- The rest of `running`. -/
def System.append (p : System) (running : Running) : System :=
  let nwrote := nwrote running.before running.result
  let remaining := remaining running.before running.queued.len running.result
  let bytes := readMemory p.mem (running.queued.ptr + nwrote) remaining
  if remaining = 0 then { p with running := none }
  else
    { p with
      conn := match bytes with
        | some data => p.conn.appendRemaining data
        | none => p.conn
      running := none
      found := p.found ++ [⟨running.queued.contents.drop nwrote, bytes⟩] }

def Step (p : System) (label : Label) (q : System) : Prop :=
  match label with
  | .send ptr len => p.conn.conn.state = .kConnected ∧
      ∃ contents, readMemory p.mem ptr len = some contents ∧
        q = { p with queue := p.queue ++ [⟨ptr, len, contents⟩] }
  | .store addr value => q = { p with mem := Function.update p.mem addr value }
  | .call loopCall => p.running = none ∧ q = { p with conn := p.conn.call loopCall }
  | .write result => p.running = none ∧
      ∃ queued, p.queue.head? = some queued ∧ q = p.write queued result
  | .append => ∃ running, p.running = some running ∧ q = p.append running

/-- A store is harmless when it changes no byte of a send that waits or runs. -/
def Retains (p : System) : Label → Prop
  | .store addr value => p.mem addr = value ∨
      ∀ queued ∈ p.unfinished, ¬ (queued.ptr ≤ addr ∧ addr < queued.ptr + queued.len)
  | _ => True

/-- All that was read is what the caller had passed. -/
def Delivers (p : System) : Prop := ∀ found ∈ p.found, found.bytes = some found.contents

/-! ## The invariant -/

structure Intact (p : System) : Prop where
  unfinished : ∀ queued ∈ p.unfinished,
    readMemory p.mem queued.ptr queued.len = some queued.contents
  halfway : ∀ running, p.running = some running →
    p.conn = directWrite running.before running.queued.contents running.result
  delivers : Delivers p

theorem Intact.running {p : System} (h : Intact p) {running : Running}
    (hrunning : p.running = some running) :
    readMemory p.mem running.queued.ptr running.queued.len = some running.queued.contents := by
  refine h.unfinished _ (List.mem_append_left _ ?_)
  rw [hrunning]
  exact List.mem_singleton_self _

/-- The second half finds what is left of the payload. -/
theorem Intact.rest {p : System} (h : Intact p) {running : Running}
    (hrunning : p.running = some running)
    (hsome : remaining running.before running.queued.len running.result ≠ 0) :
    readMemory p.mem (running.queued.ptr + nwrote running.before running.result)
        (remaining running.before running.queued.len running.result) =
      some (running.queued.contents.drop (nwrote running.before running.result)) := by
  unfold remaining at hsome ⊢
  split_ifs at hsome ⊢ with hfault
  · exact absurd rfl hsome
  · exact readMemory_drop (h.running hrunning) (by omega)

/-- Together the halves are a `sendInLoop` with the bytes of the call. -/
theorem Intact.append_conn {p : System} (h : Intact p) {running : Running}
    (hrunning : p.running = some running) :
    (p.append running).conn =
      running.before.sendInLoop running.queued.contents running.result := by
  have hlength := length_of_readMemory (h.running hrunning)
  rw [sendInLoop_eq, hlength, ← h.halfway running hrunning, System.append]
  split_ifs with hnone
  · rfl
  · simp only [h.rest hrunning hnone]

theorem Intact.append {p : System} (h : Intact p) {running : Running}
    (hrunning : p.running = some running) : Intact (p.append running) := by
  have hqueue : ∀ queued ∈ p.queue,
      readMemory p.mem queued.ptr queued.len = some queued.contents := fun queued hqueued =>
    h.unfinished queued (List.mem_append_right _ hqueued)
  simp only [System.append]
  split_ifs with hnone
  · exact ⟨hqueue, fun _ hnone => (nomatch hnone), h.delivers⟩
  · refine ⟨hqueue, fun _ hnone => (nomatch hnone), fun found hfound => ?_⟩
    rcases List.mem_append.1 hfound with hold | hnew
    · exact h.delivers found hold
    · rw [List.mem_singleton.1 hnew]
      exact h.rest hrunning hnone

theorem Intact.write {p : System} (h : Intact p) {queued : QueuedSend}
    (hhead : p.queue.head? = some queued) (result : IoResult) : Intact (p.write queued result) := by
  have hqueue : ∀ other ∈ p.queue,
      readMemory p.mem other.ptr other.len = some other.contents := fun other hother =>
    h.unfinished other (List.mem_append_right _ hother)
  have hread := hqueue queued (List.mem_of_mem_head? hhead)
  refine ⟨fun other hother => ?_, fun running hrunning => ?_, fun found hfound => ?_⟩
  · rcases List.mem_append.1 hother with hself | htail
    · rw [List.mem_singleton.1 hself]
      exact hread
    · exact hqueue other (List.mem_of_mem_tail htail)
  · obtain rfl := Option.some.inj hrunning
    simp only [System.write, hread]
  · unfold System.write at hfound
    split_ifs at hfound
    · rcases List.mem_append.1 hfound with hold | hnew
      · exact h.delivers found hold
      · rw [List.mem_singleton.1 hnew]
        exact hread
    · exact h.delivers found hfound

theorem intact_step {p q : System} {label : Label} (h : Intact p)
    (hstep : restrict Step Retains p label q) : Intact q := by
  obtain ⟨hstep, hretains⟩ := hstep
  cases label with
  | send ptr len =>
      obtain ⟨_, contents, hcontents, rfl⟩ := hstep
      refine ⟨fun queued hqueued => ?_, h.halfway, h.delivers⟩
      rw [System.unfinished, ← List.append_assoc] at hqueued
      rcases List.mem_append.1 hqueued with hold | hnew
      · exact h.unfinished queued hold
      · rw [List.mem_singleton.1 hnew]
        exact hcontents
  | store addr value =>
      obtain rfl := hstep
      refine ⟨fun queued hqueued => ?_, h.halfway, h.delivers⟩
      rw [← h.unfinished queued hqueued]
      refine readMemory_congr fun other hlow hhigh => ?_
      -- the byte had this value already, or it is none of the bytes of `queued`
      rcases hretains with hsame | hapart
      · rw [← hsame, Function.update_eq_self]
      · refine Function.update_of_ne ?_ _ _
        rintro rfl
        exact hapart queued hqueued ⟨hlow, hhigh⟩
  | call loopCall =>
      obtain ⟨hnone, rfl⟩ := hstep
      refine ⟨h.unfinished, fun running hrunning => ?_, h.delivers⟩
      exact nomatch hnone.symm.trans hrunning
  | write result =>
      obtain ⟨-, queued, hhead, rfl⟩ := hstep
      exact h.write hhead result
  | append =>
      obtain ⟨running, hrunning, rfl⟩ := hstep
      exact h.append hrunning

/-- The start of a run: the connection has just been established, nothing is queued. -/
def start (mem : Memory) (conn : ConnState) : System :=
  { mem := mem, conn := conn.connectEstablished }

/-- When nobody changes or frees the storage of a `send` until its functor has come to its
end, everything that was read is what was passed to the call, and each functor does to
the connection what `sendInLoop` does with the bytes of its call. -/
theorem queued_send_intact (mem : Memory) (conn : ConnState) (labels : List Label) (p : System)
    (hrun : Run (restrict Step Retains) (start mem conn) labels p) :
    Delivers p ∧ ∀ running q, p.running = some running → Step p .append q →
      q.conn = running.before.sendInLoop running.queued.contents running.result := by
  have h : Intact p := hrun.invariant
    ⟨fun _ hmem => (nomatch hmem), fun _ hnone => (nomatch hnone), fun _ hmem => (nomatch hmem)⟩
    fun _ _ _ hp hstep => intact_step hp hstep
  refine ⟨h.delivers, fun running q hrunning hstep => ?_⟩
  obtain ⟨other, hother, rfl⟩ := hstep
  obtain rfl : running = other := Option.some.inj (hrunning.symm.trans hother)
  exact h.append_conn hrunning

/-- Two bytes at address 100, followed by one of somebody else. -/
def threeBytes : Memory := fun addr =>
  if addr = 100 then some 104 else if addr = 101 then some 105 else
    if addr = 102 then some 0 else none

def conn : ConnState := { conn := { channel := { fd := 5 } } }

/-- The functor of `send(buf)` with the first two bytes. -/
def twoBytes : QueuedSend := ⟨100, 2, [104, 105]⟩

/-- It waits in the queue. -/
def sent : System := { start threeBytes conn with queue := [twoBytes] }

theorem step_sent : Step (start threeBytes conn) (.send 100 2) sent :=
  ⟨rfl, [104, 105], rfl, rfl⟩

/-- The kernel has taken the first byte. -/
def halfway : System := sent.write twoBytes (.bytes 1)

theorem step_halfway : Step sent (.write (.bytes 1)) halfway := ⟨rfl, _, rfl, rfl⟩

theorem halfway_unfinished : halfway.unfinished = [twoBytes] := rfl

/-- The kernel takes the first byte.  The caller keeps its string until the functor has
appended the second one, and others store next to it. -/
theorem queued_send_intact_kept : ∃ p q, Step p .append q ∧ Delivers q ∧
    q.found.map Found.bytes = [some [104, 105], some [105]] ∧
    q.conn = (start threeBytes conn).conn.sendInLoop [104, 105] (.bytes 1) := by
  -- somebody else writes the byte behind the string
  have hstore : restrict Step Retains halfway (.store 102 (some 7))
      { halfway with mem := Function.update halfway.mem 102 (some 7) } := by
    refine ⟨rfl, .inr fun queued hqueued => ?_⟩
    rw [halfway_unfinished, List.mem_singleton] at hqueued
    rw [hqueued]
    decide
  have hstored := ((Run.single ⟨step_sent, trivial⟩).snoc ⟨step_halfway, trivial⟩).snoc hstore
  have happend : Step { halfway with mem := Function.update halfway.mem 102 (some 7) } .append _ :=
    ⟨⟨twoBytes, sent.conn, .bytes 1⟩, rfl, rfl⟩
  exact ⟨_, _, happend, (queued_send_intact _ _ _ _ (hstored.snoc ⟨happend, trivial⟩)).1, rfl,
    (queued_send_intact _ _ _ _ hstored).2 _ _ rfl happend⟩

/-- The caller overwrites the first byte of its string after `send` has returned:
the functor sends the new byte. -/
theorem queued_send_overwritten :
    ¬ ∀ (mem : Memory) (conn : ConnState) (labels : List Label) (p : System),
      Run Step (start mem conn) labels p → Delivers p := by
  intro hclaim
  have hstore : Step sent (.store 100 (some 120))
      { sent with mem := Function.update threeBytes 100 (some 120) } := rfl
  have hwrite : Step { sent with mem := Function.update threeBytes 100 (some 120) }
      (.write (.bytes 2)) _ := ⟨rfl, _, rfl, rfl⟩
  have hdelivers := hclaim threeBytes conn _ _ (((Run.single step_sent).snoc hstore).snoc hwrite)
    ⟨[104, 105], some [120, 105]⟩ (List.mem_singleton_self _)
  simp at hdelivers

end CallerStorage

end MuduoLite
