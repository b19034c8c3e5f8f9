import MuduoLite.Buffer.Model
import MuduoLite.Library.Transition

/-!
# The buffer refines a FIFO byte queue

`Buffer.Valid` is the index invariant and `readable` the abstraction: the bytes
between the two indices.  Every operation has one specification lemma.  It says
that the operation succeeds, so that it stays inside the vector, keeps `Valid`
and acts on `readable` as a queue does.

The interesting operation is `makeSpace`.  It either grows the vector or moves
the readable bytes to the front; `makeSpace_spec` shows that both branches leave
the readable bytes alone and that the size test sends exactly the requests that
fit after a move to the second branch.

`ValidBuffer` packs a buffer with its invariant.  The rest of the development
uses these operations, which cannot fail.
-/

namespace MuduoLite

open Window Transition

namespace Buffer

/-- The order of the two indices and the end of the vector. -/
structure Valid (b : Buffer) : Prop where
  prepend_le : kCheapPrepend ≤ b.readerIndex
  reader_le : b.readerIndex ≤ b.writerIndex
  writer_le : b.writerIndex ≤ b.buffer.length

instance (b : Buffer) : Decidable b.Valid :=
  decidable_of_iff (kCheapPrepend ≤ b.readerIndex ∧ b.readerIndex ≤ b.writerIndex ∧
    b.writerIndex ≤ b.buffer.length)
    ⟨fun h => ⟨h.1, h.2.1, h.2.2⟩, fun h => ⟨h.prepend_le, h.reader_le, h.writer_le⟩⟩

/-- The bytes that were appended and not yet retrieved. -/
def readable (b : Buffer) : List Byte := window b.buffer b.readerIndex b.writerIndex

theorem Valid.length_readable {b : Buffer} (hb : b.Valid) :
    b.readable.length = b.readableBytes := length_window hb.writer_le

/-! ## Checked copies -/

theorem copyOut_eq_some {buffer : List Byte} {first last : ℕ} (hfirst : first ≤ last)
    (hlast : last ≤ buffer.length) :
    copyOut buffer first last = some (window buffer first last) := if_pos ⟨hfirst, hlast⟩

theorem copyIn_eq_some {buffer data : List Byte} {first : ℕ}
    (hfits : first + data.length ≤ buffer.length) :
    copyIn buffer first data = some (overwrite buffer first data) := if_pos hfits

theorem length_copyIn {buffer data filled : List Byte} {first : ℕ}
    (hcopy : copyIn buffer first data = some filled) : filled.length = buffer.length := by
  unfold copyIn at hcopy
  split_ifs at hcopy with hfits
  obtain rfl := Option.some.inj hcopy
  exact length_overwrite hfits

theorem length_resize (buffer : List Byte) (size : ℕ) : (resize buffer size).length = size := by
  simp only [resize, List.length_append, List.length_take, List.length_replicate]
  omega

theorem window_resize {buffer : List Byte} {first last size : ℕ} (hgrow : buffer.length ≤ size)
    (hlast : last ≤ buffer.length) :
    window (resize buffer size) first last = window buffer first last := by
  unfold resize
  rw [List.take_of_length_le hgrow, window_append_of_le hlast]

/-! ## One specification for each operation -/

theorem new_valid (initialSize : ℕ) : (new initialSize).Valid :=
  ⟨Nat.le_refl _, Nat.le_refl _, by simp [new]⟩

theorem new_readable (initialSize : ℕ) : (new initialSize).readable = [] := by
  simp [new, readable]

theorem retrieveAll_spec {b : Buffer} (hb : b.Valid) :
    b.retrieveAll.Valid ∧ b.retrieveAll.readable = [] := by
  refine ⟨⟨Nat.le_refl _, Nat.le_refl _, ?_⟩, by simp [retrieveAll, readable]⟩
  exact (hb.prepend_le.trans hb.reader_le).trans hb.writer_le

theorem retrieve_spec {b : Buffer} (hb : b.Valid) (len : ℕ) :
    (b.retrieve len).Valid ∧ (b.retrieve len).readable = b.readable.drop len := by
  unfold retrieve
  split_ifs with hlen
  · have hbound : b.readerIndex + len ≤ b.writerIndex := by
      unfold readableBytes at hlen
      omega
    refine ⟨⟨hb.prepend_le.trans (Nat.le_add_right _ _), hbound, hb.writer_le⟩, ?_⟩
    exact (drop_window _ _ _ _).symm
  · have hall : b.readable.drop len = [] :=
      List.drop_of_length_le (by rw [hb.length_readable]; omega)
    rw [hall]
    exact retrieveAll_spec hb

theorem retrieveAsString_spec {b : Buffer} (hb : b.Valid) {len : ℕ}
    (hlen : len ≤ b.readableBytes) :
    b.retrieveAsString len = some (b.readable.take len, b.retrieve len) := by
  have hbound : b.readerIndex + len ≤ b.writerIndex := by
    have := hb.reader_le
    unfold readableBytes at hlen
    omega
  have hcopy := copyOut_eq_some (Nat.le_add_right b.readerIndex len)
    (hbound.trans hb.writer_le)
  simp only [retrieveAsString, hcopy, readable, take_window hbound]
  rfl

theorem retrieveAllAsString_spec {b : Buffer} (hb : b.Valid) :
    b.retrieveAllAsString = some (b.readable, b.retrieve b.readableBytes) := by
  have htake : b.readable.take b.readableBytes = b.readable :=
    List.take_of_length_le hb.length_readable.le
  rw [retrieveAllAsString, retrieveAsString_spec hb (Nat.le_refl _), htake]

/-- Both branches keep the readable bytes and make room for `len` more.  The
move is possible because the test has failed: `len` bytes fit behind the
readable bytes once these start at `kCheapPrepend`. -/
theorem makeSpace_spec {b : Buffer} (hb : b.Valid) (len : ℕ) :
    ∃ b', b.makeSpace len = some b' ∧ b'.Valid ∧ b'.readable = b.readable ∧
      len ≤ b'.writableBytes := by
  obtain ⟨hprepend, hreader, hwriter⟩ := hb
  unfold makeSpace
  split_ifs with htest
  · have hgrow : b.buffer.length ≤ b.writerIndex + len := by
      simp only [writableBytes, prependableBytes] at htest
      omega
    refine ⟨_, rfl, ⟨hprepend, hreader, ?_⟩, window_resize hgrow hwriter, ?_⟩
    · simp only [length_resize]
      omega
    · simp only [writableBytes, length_resize]
      omega
  · have hcount : b.readable.length = b.writerIndex - b.readerIndex := length_window hwriter
    have hfits : kCheapPrepend + b.readable.length ≤ b.buffer.length := by omega
    rw [copyOut_eq_some hreader hwriter]
    change ∃ b', ((copyIn b.buffer kCheapPrepend b.readable).bind fun moved => some _) = some b' ∧ _
    rw [copyIn_eq_some hfits]
    refine ⟨_, rfl, ⟨Nat.le_refl _, Nat.le_add_right _ _, ?_⟩, ?_, ?_⟩
    · simp only [length_overwrite hfits, readableBytes]
      omega
    · have hback := window_overwrite_self hfits
      rw [hcount] at hback
      exact hback
    · simp only [writableBytes, prependableBytes] at htest
      simp only [writableBytes, length_overwrite hfits, readableBytes]
      omega

theorem ensureWritableBytes_spec {b : Buffer} (hb : b.Valid) (len : ℕ) :
    ∃ b', b.ensureWritableBytes len = some b' ∧ b'.Valid ∧ b'.readable = b.readable ∧
      len ≤ b'.writableBytes := by
  unfold ensureWritableBytes
  split_ifs with hlen
  · exact makeSpace_spec hb len
  · exact ⟨b, rfl, hb, rfl, Nat.le_of_not_lt hlen⟩

/-- Writing behind the write index and moving it appends to the readable bytes. -/
theorem fill_spec {b : Buffer} (hb : b.Valid) {data : List Byte}
    (hfits : b.writerIndex + data.length ≤ b.buffer.length) :
    ∃ filled, copyIn b.buffer b.writerIndex data = some filled ∧
      filled.length = b.buffer.length ∧
      window filled b.readerIndex (b.writerIndex + data.length) = b.readable ++ data := by
  refine ⟨_, copyIn_eq_some hfits, length_overwrite hfits, ?_⟩
  rw [← window_append_window hb.reader_le (Nat.le_add_right _ _), window_overwrite_self hfits,
    window_overwrite_of_le hfits (Nat.le_refl _), readable]

theorem append_spec {b : Buffer} (hb : b.Valid) (data : List Byte) :
    ∃ b', b.append data = some b' ∧ b'.Valid ∧ b'.readable = b.readable ++ data := by
  obtain ⟨roomy, hroomy, hvalid, hreadable, hroom⟩ := ensureWritableBytes_spec hb data.length
  have hfits : roomy.writerIndex + data.length ≤ roomy.buffer.length := by
    have := hvalid.writer_le
    unfold writableBytes at hroom
    omega
  obtain ⟨filled, hfilled, hlength, hwindow⟩ := fill_spec hvalid hfits
  refine ⟨{ roomy with buffer := filled, writerIndex := roomy.writerIndex + data.length },
    ?_, ⟨hvalid.prepend_le, ?_, ?_⟩, ?_⟩
  · simp only [append, hroomy, hfilled, Option.bind_eq_bind, Option.bind_some]
    rfl
  · exact hvalid.reader_le.trans (Nat.le_add_right _ _)
  · simpa only [hlength] using hfits
  · rw [← hreadable]
    exact hwindow

theorem iovecBytes_le (b : Buffer) : b.iovecBytes ≤ b.writableBytes + kExtrabufSize := by
  unfold iovecBytes
  split_ifs
  · exact Nat.le_refl _
  · exact Nat.le_add_right _ _

/-- A read of no more than the spill area always fits. -/
theorem le_iovecBytes {b : Buffer} {n : ℕ} (hle : n ≤ kExtrabufSize) : n ≤ b.iovecBytes := by
  unfold iovecBytes
  split_ifs <;> omega

/-- The bytes of a `readv` are appended whether or not some of them went to the
spill area. -/
theorem readFd_data_spec {b : Buffer} (hb : b.Valid) {bytes : List Byte}
    (hbytes : bytes.length ≤ b.writableBytes + kExtrabufSize) :
    ∃ b', b.readFd (.data bytes) = some b' ∧ b'.Valid ∧ b'.readable = b.readable ++ bytes := by
  have hwriter := hb.writer_le
  have hroom : b.writerIndex + (bytes.take b.writableBytes).length ≤ b.buffer.length := by
    simp only [writableBytes, List.length_take]
    omega
  obtain ⟨filled, hfilled, hlength, hwindow⟩ := fill_spec hb hroom
  simp only [readFd, hfilled, Option.bind_eq_bind, Option.bind_some]
  by_cases hdirect : bytes.length ≤ b.writableBytes
  · rw [List.take_of_length_le hdirect] at hroom hwindow
    rw [if_pos hdirect]
    exact ⟨_, rfl, ⟨hb.prepend_le, hb.reader_le.trans (Nat.le_add_right _ _),
      hroom.trans_eq hlength.symm⟩, hwindow⟩
  · have hfull : b.writerIndex + (bytes.take b.writableBytes).length = filled.length := by
      rw [hlength, List.length_take, writableBytes]
      unfold writableBytes at hdirect
      omega
    have hspill : (bytes.drop b.writableBytes).length ≤ kExtrabufSize := by
      rw [List.length_drop]
      omega
    rw [if_neg hdirect, if_pos hspill]
    rw [hfull] at hwindow
    have hvalid : Valid { b with buffer := filled, writerIndex := filled.length } :=
      ⟨hb.prepend_le, (hb.reader_le.trans hwriter).trans_eq hlength.symm, Nat.le_refl _⟩
    obtain ⟨b', hb', hvalid', hreadable'⟩ := append_spec hvalid (bytes.drop b.writableBytes)
    refine ⟨b', hb', hvalid', ?_⟩
    rw [hreadable', readable]
    simp only [hwindow, List.append_assoc, List.take_append_drop]

theorem writeFd_spec {b : Buffer} (hb : b.Valid) : b.writeFd = some b.readable :=
  copyOut_eq_some hb.reader_le hb.writer_le

end Buffer

/-! ## The abstract queue -/

/-- The calls made on a buffer.  `writeFd n` is a `writeFd` whose `::write` takes
`n` bytes, followed by `retrieve(n)`. -/
inductive BufferOp
  | append (data : List Byte)
  | ensureWritableBytes (len : ℕ)
  | retrieve (len : ℕ)
  | retrieveAll
  | retrieveAsString (len : ℕ)
  | retrieveAllAsString
  | readFd (result : Buffer.ReadResult)
  | writeFd (n : ℕ)
  deriving DecidableEq, Repr

namespace BufferOp

open Buffer

/-- What the callers and the kernel promise: no string longer than the readable
bytes is asked for, `readv` gives at most what the iovecs hold, and `write`
takes at most what it is given. -/
def Allowed (b : Buffer) : BufferOp → Prop
  | retrieveAsString len => len ≤ b.readableBytes
  | readFd (.data bytes) => bytes.length ≤ b.iovecBytes
  | writeFd n => n ≤ b.readableBytes
  | _ => True

/-- The call on the buffer, with the bytes it returns or hands to the kernel. -/
def run (b : Buffer) : BufferOp → Option (List Byte × Buffer)
  | append data => (b.append data).map fun b' => ([], b')
  | ensureWritableBytes len => (b.ensureWritableBytes len).map fun b' => ([], b')
  | retrieve len => some ([], b.retrieve len)
  | retrieveAll => some ([], b.retrieveAll)
  | retrieveAsString len => b.retrieveAsString len
  | retrieveAllAsString => b.retrieveAllAsString
  | readFd result => (b.readFd result).map fun b' => ([], b')
  | writeFd n => b.writeFd.map fun bytes => (bytes.take n, b.retrieve n)

/-- The same call on a queue of bytes: the bytes that leave it and those that stay. -/
def onQueue (queue : List Byte) : BufferOp → List Byte × List Byte
  | append data => ([], queue ++ data)
  | ensureWritableBytes _ => ([], queue)
  | retrieve len => ([], queue.drop (min len queue.length))
  | retrieveAll => ([], [])
  | retrieveAsString len => (queue.take len, queue.drop len)
  | retrieveAllAsString => (queue, [])
  | readFd (.data bytes) => ([], queue ++ bytes)
  | readFd (.error _) => ([], queue)
  | writeFd n => (queue.take n, queue.drop n)

/-- A step of the buffer, labelled with the call and what it gives out. -/
def Step (b : Buffer) (label : BufferOp × List Byte) (b' : Buffer) : Prop :=
  label.1.Allowed b ∧ label.1.run b = some (label.2, b')

/-- The same step of the queue. -/
def QueueStep (queue : List Byte) (label : BufferOp × List Byte) (queue' : List Byte) : Prop :=
  label.1.onQueue queue = (label.2, queue')

/-- An allowed call succeeds, keeps the invariant and does what the queue does. -/
theorem run_spec {b : Buffer} (hb : b.Valid) (op : BufferOp) (hop : op.Allowed b) :
    ∃ out b', op.run b = some (out, b') ∧ b'.Valid ∧
      op.onQueue b.readable = (out, b'.readable) := by
  have hdrop : ∀ len, b.readable.drop (min len b.readable.length) = b.readable.drop len := by
    intro len
    rcases Nat.le_total len b.readable.length with hle | hge
    · rw [Nat.min_eq_left hle]
    · rw [Nat.min_eq_right hge, List.drop_length, List.drop_of_length_le hge]
  cases op with
  | append data =>
      obtain ⟨b', hrun, hvalid, hreadable⟩ := append_spec hb data
      exact ⟨[], b', by simp [run, hrun], hvalid, by rw [hreadable]; rfl⟩
  | ensureWritableBytes len =>
      obtain ⟨b', hrun, hvalid, hreadable, _⟩ := ensureWritableBytes_spec hb len
      exact ⟨[], b', by simp [run, hrun], hvalid, by rw [hreadable]; rfl⟩
  | retrieve len =>
      obtain ⟨hvalid, hreadable⟩ := retrieve_spec hb len
      exact ⟨[], _, rfl, hvalid, by rw [onQueue, hdrop, hreadable]⟩
  | retrieveAll =>
      obtain ⟨hvalid, hreadable⟩ := retrieveAll_spec hb
      exact ⟨[], _, rfl, hvalid, by rw [onQueue, hreadable]⟩
  | retrieveAsString len =>
      obtain ⟨hvalid, hreadable⟩ := retrieve_spec hb len
      exact ⟨_, _, retrieveAsString_spec hb hop, hvalid, by rw [onQueue, hreadable]⟩
  | retrieveAllAsString =>
      obtain ⟨hvalid, hreadable⟩ := retrieve_spec hb b.readableBytes
      refine ⟨_, _, retrieveAllAsString_spec hb, hvalid, ?_⟩
      rw [onQueue, hreadable, ← hb.length_readable, List.drop_length]
  | readFd result =>
      cases result with
      | data bytes =>
          obtain ⟨b', hrun, hvalid, hreadable⟩ :=
            readFd_data_spec hb (Nat.le_trans hop (iovecBytes_le b))
          exact ⟨[], b', by simp [run, hrun], hvalid, by rw [hreadable]; rfl⟩
      | error errno => exact ⟨[], b, rfl, hb, rfl⟩
  | writeFd n =>
      obtain ⟨hvalid, hreadable⟩ := retrieve_spec hb n
      exact ⟨b.readable.take n, _, by simp only [run, writeFd_spec hb, Option.map_some], hvalid,
        by rw [onQueue, hreadable]⟩

theorem step_spec {b b' : Buffer} {label : BufferOp × List Byte} (hb : b.Valid)
    (hstep : Step b label b') : b'.Valid ∧ QueueStep b.readable label b'.readable := by
  obtain ⟨hallowed, hrun⟩ := hstep
  obtain ⟨out, target, hrun', hvalid, hqueue⟩ := run_spec hb label.1 hallowed
  obtain ⟨rfl, rfl⟩ : out = label.2 ∧ target = b' := by simpa [hrun'] using hrun
  exact ⟨hvalid, hqueue⟩

/-- A run of the buffer is a run of the queue over the readable bytes, with the
same bytes given out at every call. -/
theorem run_valid_and_queue {b b' : Buffer} {labels : List (BufferOp × List Byte)} (hb : b.Valid)
    (hrun : Run Step b labels b') : b'.Valid ∧ Run QueueStep b.readable labels b'.readable := by
  induction hrun with
  | nil => exact ⟨hb, .nil⟩
  | snoc _ hlast ih =>
      obtain ⟨hvalid, hqueue⟩ := step_spec ih.1 hlast
      exact ⟨hvalid, ih.2.snoc hqueue⟩

/-- A buffer of any initial size refines the byte queue: after any run the index
invariant holds, the calls gave out what the queue gives out and the readable
bytes are its contents, every further allowed call stays inside the vector and
returns, and making space leaves the readable bytes alone. -/
theorem buffer_refines_queue (initialSize : ℕ) (labels : List (BufferOp × List Byte))
    (b : Buffer) (hrun : Run Step (new initialSize) labels b) :
    b.Valid ∧ Run QueueStep [] labels b.readable ∧
      (∀ op : BufferOp, op.Allowed b → ∃ out b', Step b (op, out) b') ∧
      (∀ len out b', Step b (ensureWritableBytes len, out) b' → len ≤ b'.writableBytes) ∧
      ∀ len, ∃ b', b.makeSpace len = some b' ∧ b'.Valid ∧ b'.readable = b.readable := by
  obtain ⟨hvalid, hqueue⟩ := run_valid_and_queue (new_valid initialSize) hrun
  rw [new_readable] at hqueue
  refine ⟨hvalid, hqueue, ?_, ?_, ?_⟩
  · intro op hop
    obtain ⟨out, b', hnext, _⟩ := run_spec hvalid op hop
    exact ⟨out, b', hop, hnext⟩
  · rintro len out b' ⟨_, hnext⟩
    obtain ⟨roomy, hroomy, _, _, hroom⟩ := ensureWritableBytes_spec hvalid len
    obtain ⟨-, rfl⟩ : [] = out ∧ roomy = b' := by simpa [run, hroomy] using hnext
    exact hroom
  · intro len
    obtain ⟨b', hspace, hvalid', hreadable, _⟩ := makeSpace_spec hvalid len
    exact ⟨b', hspace, hvalid', hreadable⟩

/-- Four bytes go into a buffer of initial size 2, which grows; two leave. -/
theorem buffer_refines_queue_grown :
    ∃ b : Buffer, b.Valid ∧ b.readable = [3, 4] ∧
      Run QueueStep [] [(append [1, 2, 3, 4], []), (retrieveAsString 2, [1, 2])] b.readable := by
  have hgrow : Step (new 2) (append [1, 2, 3, 4], [])
      ⟨[0, 0, 0, 0, 0, 0, 0, 0, 1, 2, 3, 4], 8, 12⟩ := ⟨trivial, by decide⟩
  have hleave : Step ⟨[0, 0, 0, 0, 0, 0, 0, 0, 1, 2, 3, 4], 8, 12⟩ (retrieveAsString 2, [1, 2])
      ⟨[0, 0, 0, 0, 0, 0, 0, 0, 1, 2, 3, 4], 10, 12⟩ := ⟨Nat.le_add_right 2 2, by decide⟩
  obtain ⟨hvalid, hqueue, _⟩ := buffer_refines_queue 2 _ _ ((Run.single hgrow).snoc hleave)
  exact ⟨_, hvalid, by decide, hqueue⟩

end BufferOp

/-! ## Buffers that carry their invariant -/

/-- A buffer with its index invariant. -/
structure ValidBuffer where
  raw : Buffer
  valid : raw.Valid

namespace ValidBuffer

def new (initialSize : ℕ) : ValidBuffer := ⟨Buffer.new initialSize, Buffer.new_valid initialSize⟩

def readable (b : ValidBuffer) : List Byte := b.raw.readable

def readableBytes (b : ValidBuffer) : ℕ := b.raw.readableBytes

def retrieve (b : ValidBuffer) (len : ℕ) : ValidBuffer :=
  ⟨b.raw.retrieve len, (Buffer.retrieve_spec b.valid len).1⟩

theorem append_isSome (b : ValidBuffer) (data : List Byte) : (b.raw.append data).isSome := by
  obtain ⟨_, hb', _⟩ := Buffer.append_spec b.valid data
  simp [hb']

def append (b : ValidBuffer) (data : List Byte) : ValidBuffer where
  raw := (b.raw.append data).get (b.append_isSome data)
  valid := by
    obtain ⟨_, hb', hvalid, _⟩ := Buffer.append_spec b.valid data
    simpa [hb'] using hvalid

/-- `readFd`.  The kernel stays inside the iovecs, so the second branch is not taken. -/
def readFd (b : ValidBuffer) : Buffer.ReadResult → ValidBuffer
  | .error _ => b
  | .data bytes =>
      if h : bytes.length ≤ b.raw.writableBytes + Buffer.kExtrabufSize then
        ⟨(b.raw.readFd (.data bytes)).get (by
            obtain ⟨_, hb', _⟩ := Buffer.readFd_data_spec b.valid h
            simp [hb']), by
          obtain ⟨_, hb', hvalid, _⟩ := Buffer.readFd_data_spec b.valid h
          simpa [hb'] using hvalid⟩
      else b

@[simp] theorem readable_new (initialSize : ℕ) : (new initialSize).readable = [] :=
  Buffer.new_readable initialSize

@[simp] theorem readable_retrieve (b : ValidBuffer) (len : ℕ) :
    (b.retrieve len).readable = b.readable.drop len := (Buffer.retrieve_spec b.valid len).2

theorem readable_readFd (b : ValidBuffer) {bytes : List Byte}
    (hfits : bytes.length ≤ b.raw.iovecBytes) :
    (b.readFd (.data bytes)).readable = b.readable ++ bytes := by
  have hspill := hfits.trans (Buffer.iovecBytes_le b.raw)
  obtain ⟨_, hb', _, hreadable⟩ := Buffer.readFd_data_spec b.valid hspill
  simpa [readFd, hspill, readable, hb'] using hreadable

@[simp] theorem readable_append (b : ValidBuffer) (data : List Byte) :
    (b.append data).readable = b.readable ++ data := by
  obtain ⟨_, hb', _, hreadable⟩ := Buffer.append_spec b.valid data
  simpa [append, readable, hb'] using hreadable

@[simp] theorem readableBytes_eq (b : ValidBuffer) : b.readableBytes = b.readable.length :=
  b.valid.length_readable.symm

end ValidBuffer

end MuduoLite
