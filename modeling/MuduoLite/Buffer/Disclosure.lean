import MuduoLite.Buffer.Refinement

/-!
# What a buffer gives away

Bytes of earlier messages stay in the vector on both sides of the readable ones.  Two
buffers with the same readable bytes may differ in them, and in their indices and their
size.  The strings that their calls return must not depend on it: they are those that the
queue of the readable bytes gives out (`queueStrings`).

`retrieve` takes a length larger than the number of readable bytes for all of them.
`retrieveAsString` does not, and copies the bytes behind them as well.
-/

namespace MuduoLite

open Window

namespace BufferOp

open Buffer

/-- A call that makes no system call. -/
def IsLocal : BufferOp → Prop
  | readFd _ => False
  | writeFd _ => False
  | _ => True

/-- What the calls return one after the other, if all of them stay inside the vector. -/
def strings (b : Buffer) : List BufferOp → Option (List (List Byte))
  | [] => some []
  | op :: rest =>
      (op.run b).bind fun result => (strings result.2 rest).map fun out => result.1 :: out

/-- What leaves the queue at the same calls. -/
def queueStrings (queue : List Byte) : List BufferOp → List (List Byte)
  | [] => []
  | op :: rest => (op.onQueue queue).1 :: queueStrings (op.onQueue queue).2 rest

/-- No string longer than the queue is asked for. -/
def Within (queue : List Byte) : BufferOp → Prop
  | retrieveAsString len => len ≤ queue.length
  | _ => True

/-- The same for each of the calls on what the ones before it leave. -/
def AllWithin (queue : List Byte) : List BufferOp → Prop
  | [] => True
  | op :: rest => op.Within queue ∧ AllWithin (op.onQueue queue).2 rest

section

variable {b : Buffer} {op : BufferOp} {ops : List BufferOp}

theorem allowed_of_within (hb : b.Valid) (hlocal : op.IsLocal) (hwithin : op.Within b.readable) :
    op.Allowed b := by
  cases op with
  | retrieveAsString len => exact hwithin.trans_eq hb.length_readable
  | readFd result => exact hlocal.elim
  | writeFd n => exact hlocal.elim
  | _ => trivial

/-- A string has the length that was asked for. -/
theorem length_retrieveAsString {len : ℕ} {out : List Byte} {b' : Buffer}
    (hrun : b.retrieveAsString len = some (out, b')) : out.length = len := by
  unfold Buffer.retrieveAsString copyOut at hrun
  split_ifs at hrun with hinside
  · obtain ⟨rfl, -⟩ : window b.buffer b.readerIndex (b.readerIndex + len) = out ∧
        b.retrieve len = b' := by simpa using hrun
    rw [length_window hinside.2, Nat.add_sub_cancel_left]
  · simp at hrun

/-- What left the readable bytes is not longer than they are. -/
theorem within_of_run {b' : Buffer} (hrun : op.run b = some ((op.onQueue b.readable).1, b')) :
    op.Within b.readable := by
  cases op with
  | retrieveAsString len =>
      have hlength : (b.readable.take len).length = len := length_retrieveAsString hrun
      rw [← hlength]
      exact List.length_take_le' _ _
  | _ => trivial

theorem strings_of_allWithin (hb : b.Valid) (hlocal : ∀ op ∈ ops, op.IsLocal)
    (hwithin : AllWithin b.readable ops) : strings b ops = some (queueStrings b.readable ops) := by
  induction ops generalizing b with
  | nil => rfl
  | cons op rest ih =>
      obtain ⟨hop, hrest⟩ := List.forall_mem_cons.1 hlocal
      obtain ⟨out, b', hrun, hvalid, hqueue⟩ :=
        run_spec hb op (allowed_of_within hb hop hwithin.1)
      have hnext : (op.onQueue b.readable).2 = b'.readable := congrArg Prod.snd hqueue
      have hlater : AllWithin b'.readable rest := hnext ▸ hwithin.2
      simp only [strings, queueStrings, hrun, Option.bind_some, ih hvalid hrest hlater, hqueue,
        Option.map_some]

theorem allWithin_of_strings (hb : b.Valid) (hlocal : ∀ op ∈ ops, op.IsLocal)
    (hstrings : strings b ops = some (queueStrings b.readable ops)) :
    AllWithin b.readable ops := by
  induction ops generalizing b with
  | nil => trivial
  | cons op rest ih =>
      obtain ⟨hop, hrest⟩ := List.forall_mem_cons.1 hlocal
      obtain ⟨⟨out, b'⟩, hrun, hmap⟩ := Option.bind_eq_some_iff.1 hstrings
      obtain ⟨outs, houts, hcons⟩ := Option.map_eq_some_iff.1 hmap
      obtain ⟨rfl, rfl⟩ := List.cons.inj hcons
      have hwithin : op.Within b.readable := within_of_run hrun
      obtain ⟨out, next, hrun', hvalid, hqueue⟩ :=
        run_spec hb op (allowed_of_within hb hop hwithin)
      obtain rfl : next = b' := congrArg Prod.snd (Option.some.inj (hrun'.symm.trans hrun))
      have hnext : (op.onQueue b.readable).2 = next.readable := congrArg Prod.snd hqueue
      rw [hnext] at houts
      exact ⟨hwithin, by rw [hnext]; exact ih hvalid hrest houts⟩

end

/-- Two buffers with the same readable bytes return the same strings, and these are the
prefixes that leave the readable bytes, if and only if no call of `retrieveAsString` asks
for more than is readable. -/
theorem discloses_readable_iff (b c : Buffer) (ops : List BufferOp) (hb : b.Valid) (hc : c.Valid)
    (hreadable : b.readable = c.readable) (hlocal : ∀ op ∈ ops, op.IsLocal) :
    (strings b ops = strings c ops ∧ strings b ops = some (queueStrings b.readable ops)) ↔
      AllWithin b.readable ops := by
  constructor
  · rintro ⟨-, hstrings⟩
    exact allWithin_of_strings hb hlocal hstrings
  · intro hwithin
    have hfirst := strings_of_allWithin hb hlocal hwithin
    have hsecond := strings_of_allWithin hc hlocal (hreadable ▸ hwithin)
    exact ⟨by rw [hfirst, hsecond, hreadable], hfirst⟩

/-- A byte that was consumed stays in the vector. -/
def drained (stale : Byte) : Buffer := ⟨[0, 0, 0, 0, 0, 0, 0, 0, stale], 8, 8⟩

/-- Of two buffers that have been drained, one must grow for what is appended next. -/
theorem discloses_readable_appended :
    strings (drained 7) [append [1, 2], retrieveAsString 2] =
      strings (new 1000) [append [1, 2], retrieveAsString 2] :=
  ((discloses_readable_iff (drained 7) (new 1000) [append [1, 2], retrieveAsString 2] (by decide)
    (new_valid 1000) (by rw [new_readable]; rfl) (by simp [IsLocal])).2
      ⟨trivial, Nat.le_refl 2, trivial⟩).1

/-- Nothing is readable; the string has the byte that was consumed before. -/
theorem stale_byte_disclosed :
    ¬ ∀ (b c : Buffer) (ops : List BufferOp), b.Valid → c.Valid → b.readable = c.readable →
      (∀ op ∈ ops, op.IsLocal) → strings b ops = strings c ops := by
  intro hclaim
  have hsame := hclaim (drained 7) (drained 9) [retrieveAsString 1] (by decide) (by decide) rfl
    (by simp [IsLocal])
  revert hsame
  decide

end BufferOp

end MuduoLite
