import Mathlib.Algebra.Order.Ring.Nat
import MuduoLite.Buffer.Limits

/-!
# All of `Buffer` with 64-bit indices

The other operations of `Buffer`, with the index arithmetic of the source, over the
`ensureWritableBytes` of `Limits`.  A length that a caller passes with its bytes is not larger
than `std::vector<char>::max_size()`, since no object is, so a write index and such a length
never wrap when they are added.

What is left of the limits is the exception of `std::vector::resize`.  An operation does what
it does with unbounded indices whenever this leaves a vector that there can be, and it throws
otherwise (`Agrees`).  In the second case nothing that was in the buffer is lost; of a
`readv`, what is in the spill area is.
-/

namespace MuduoLite

open Transition

namespace SizedBuffer

/-! ## The operations -/

/-- Go on where a call that may grow the vector has returned. -/
def Outcome.andThen (outcome : Outcome) (next : SizedBuffer → Outcome) : Outcome :=
  match outcome with
  | returns b => next b
  | throws b => throws b
  | undefined => undefined

/-- The constructor `Buffer(initalSize)`; `none` is the exception of `std::vector`. -/
def new (initialSize : SizeT) : Option SizedBuffer :=
  if h : (kCheapPrepend + initialSize).toNat ≤ maxSize then
    some {
      buffer := ⟨List.replicate (kCheapPrepend + initialSize).toNat 0,
        (List.length_replicate ..).trans_le h⟩
      readerIndex := kCheapPrepend
      writerIndex := kCheapPrepend }
  else none

def retrieveAll (b : SizedBuffer) : SizedBuffer :=
  { b with readerIndex := kCheapPrepend, writerIndex := kCheapPrepend }

def retrieve (b : SizedBuffer) (len : SizeT) : SizedBuffer :=
  if len < b.readableBytes then { b with readerIndex := b.readerIndex + len } else b.retrieveAll

def retrieveAsString (b : SizedBuffer) (len : SizeT) : Option (List Byte × SizedBuffer) := do
  let result ← Buffer.copyOut b.buffer.bytes b.readerIndex.toNat
    (b.readerIndex.toNat + len.toNat)
  return (result, b.retrieve len)

def retrieveAllAsString (b : SizedBuffer) : Option (List Byte × SizedBuffer) :=
  b.retrieveAsString b.readableBytes

def append (b : SizedBuffer) (data : List Byte) : Outcome :=
  (b.ensureWritableBytes (BitVec.ofNat 64 data.length)).andThen fun roomy =>
    match roomy.buffer.copyIn roomy.writerIndex data with
    | some filled => .returns { roomy with
        buffer := filled
        writerIndex := roomy.writerIndex + BitVec.ofNat 64 data.length }
    | none => .undefined

/-- `readFd` when `readv` gives `result`. -/
def readFd (b : SizedBuffer) : Buffer.ReadResult → Outcome
  | .error _ => .returns b
  | .data bytes =>
      let n : SizeT := BitVec.ofNat 64 bytes.length
      let extrabuf := bytes.drop b.writableBytes.toNat
      match b.buffer.copyIn b.writerIndex (bytes.take b.writableBytes.toNat) with
      | some filled =>
          if n ≤ b.writableBytes then
            .returns { b with buffer := filled, writerIndex := b.writerIndex + n }
          else if extrabuf.length ≤ Buffer.kExtrabufSize then
            append { b with buffer := filled, writerIndex := filled.size } extrabuf
          else .undefined
      | none => .undefined

/-- The bytes `writeFd` passes to `::write`. -/
def writeFd (b : SizedBuffer) : Option (List Byte) :=
  Buffer.copyOut b.buffer.bytes b.readerIndex.toNat b.writerIndex.toNat

/-- An operation that only moves the indices, with the string it gives out. -/
def ofString : Option (List Byte × SizedBuffer) → List Byte × Outcome
  | some (string, b) => (string, .returns b)
  | none => ([], .undefined)

/-- The call on the buffer, with the bytes it returns or hands to the kernel. -/
def run (b : SizedBuffer) : BufferOp → List Byte × Outcome
  | .append data => ([], b.append data)
  | .ensureWritableBytes len => ([], b.ensureWritableBytes (BitVec.ofNat 64 len))
  | .retrieve len => ([], .returns (b.retrieve (BitVec.ofNat 64 len)))
  | .retrieveAll => ([], .returns b.retrieveAll)
  | .retrieveAsString len => ofString (b.retrieveAsString (BitVec.ofNat 64 len))
  | .retrieveAllAsString => ofString b.retrieveAllAsString
  | .readFd result => ([], b.readFd result)
  | .writeFd n => ofString (b.writeFd.map fun bytes =>
      (bytes.take n, b.retrieve (BitVec.ofNat 64 n)))

/-! ## One step -/

/-- With unbounded indices the call leaves `u`.  If there is a vector of that size this call
leaves it too, otherwise it throws and leaves one of the buffers that `left` admits. -/
structure Agrees (outcome : Outcome) (u : Buffer) (left : SizedBuffer → Prop) : Prop where
  returns : u.buffer.length ≤ maxSize → ∃ b', outcome = .returns b' ∧ b'.toBuffer = u
  throws : maxSize < u.buffer.length → ∃ b', outcome = .throws b' ∧ left b'

section Step

variable {b : SizedBuffer}

theorem Agrees.of_returns {b' : SizedBuffer} {left : SizedBuffer → Prop} :
    Agrees (.returns b') b'.toBuffer left :=
  ⟨fun _ => ⟨b', rfl, rfl⟩, fun hlarge => absurd b'.buffer.length_le (not_le.2 hlarge)⟩

theorem Agrees.mono {outcome : Outcome} {u : Buffer} {left left' : SizedBuffer → Prop}
    (h : Agrees outcome u left) (himp : ∀ b', left b' → left' b') : Agrees outcome u left' where
  returns := h.returns
  throws := fun hlarge => by
    obtain ⟨b', hthrows, hleft⟩ := h.throws hlarge
    exact ⟨b', hthrows, himp b' hleft⟩

theorem lt_of_le_maxSize {n : ℕ} (hn : n ≤ maxSize) : n < 2 ^ 64 := by
  rw [maxSize_eq] at hn
  omega

theorem toNat_ofNat {n : ℕ} (hn : n < 2 ^ 64) : (BitVec.ofNat 64 n : SizeT).toNat = n := by
  rw [BitVec.toNat_ofNat, Nat.mod_eq_of_lt hn]

/-- Two sizes of objects do not wrap when they are added. -/
theorem not_overflow (hb : b.toBuffer.Valid) {len : SizeT} (hlen : len.toNat ≤ maxSize) :
    b.writerIndex.uaddOverflow len = false := by
  have hwriter : b.writerIndex.toNat ≤ maxSize := hb.writer_le.trans b.buffer.length_le
  rw [maxSize_eq] at hlen hwriter
  simp only [BitVec.uaddOverflow, decide_eq_false_iff_not]
  omega

/-- The vector refuses to grow only beyond its maximum size. -/
theorem makeSpace_agrees (hb : b.toBuffer.Valid) {len : SizeT}
    (hsum : b.writerIndex.uaddOverflow len = false) : ∃ u,
      b.toBuffer.makeSpace len.toNat = some u ∧ Agrees (b.makeSpace len) u (· = b) := by
  rcases makeSpace_eq hb hsum with hthrows | ⟨b', hreturns, hmodel⟩
  · have htest := makeSpace_test_iff hb hsum
    have hgrow : b.writableBytes + b.prependableBytes < len + kCheapPrepend := by
      by_contra hfits
      obtain ⟨moved, hmoved, -⟩ := exists_moved hb
      rw [makeSpace, if_neg hfits, hmoved] at hthrows
      cases hthrows
    refine ⟨_, if_pos (htest.1 hgrow), fun hfits => ?_, fun _ => ⟨b, hthrows, rfl⟩⟩
    -- a vector that there can be is not refused
    have hsize : (b.writerIndex + len).toNat ≤ maxSize := by
      rw [toNat_writerIndex_add hsum]
      rwa [Buffer.length_resize] at hfits
    rw [makeSpace, if_pos hgrow, CharVector.resize, dif_pos hsize] at hthrows
    cases hthrows
  · rw [hreturns]
    exact ⟨_, hmodel, .of_returns⟩

theorem ensureWritableBytes_agrees (hb : b.toBuffer.Valid) {len : SizeT}
    (hlen : len.toNat ≤ maxSize) : ∃ u, b.toBuffer.ensureWritableBytes len.toNat = some u ∧
      Agrees (b.ensureWritableBytes len) u (· = b) := by
  have htest : b.writableBytes < len ↔ b.toBuffer.writableBytes < len.toNat := by
    rw [BitVec.lt_def, toNat_writableBytes hb.writer_le]
  unfold ensureWritableBytes Buffer.ensureWritableBytes
  by_cases hshort : b.writableBytes < len
  · rw [if_pos hshort, if_pos (htest.1 hshort)]
    exact makeSpace_agrees hb (not_overflow hb hlen)
  · rw [if_neg hshort, if_neg (mt htest.2 hshort)]
    exact ⟨_, rfl, .of_returns⟩

/-- Filling the room behind the write index keeps the indices in step with the unbounded
ones. -/
theorem fill_agrees (hb : b.toBuffer.Valid) {data : List Byte}
    (hfits : b.toBuffer.writerIndex + data.length ≤ b.toBuffer.buffer.length) :
    ∃ filled : CharVector, b.buffer.copyIn b.writerIndex data = some filled ∧
      Buffer.copyIn b.toBuffer.buffer b.toBuffer.writerIndex data = some filled.bytes ∧
      (b.writerIndex + BitVec.ofNat 64 data.length).toNat =
        b.toBuffer.writerIndex + data.length := by
  obtain ⟨bytes, hbytes, -⟩ := Buffer.fill_spec hb hfits
  obtain ⟨filled, hfilled, rfl⟩ := exists_copyIn hbytes
  have hlen : data.length ≤ maxSize :=
    ((Nat.le_add_left _ _).trans hfits).trans b.buffer.length_le
  have hsize := toNat_ofNat (lt_of_le_maxSize hlen)
  have hsum := not_overflow hb (hsize.trans_le hlen)
  refine ⟨filled, hfilled, hbytes, ?_⟩
  rw [toNat_writerIndex_add hsum, hsize]
  rfl

theorem append_agrees (hb : b.toBuffer.Valid) {data : List Byte} (hlen : data.length ≤ maxSize) :
    ∃ u, b.toBuffer.append data = some u ∧ Agrees (b.append data) u (· = b) := by
  have hsize := toNat_ofNat (lt_of_le_maxSize hlen)
  obtain ⟨u, hu, hagrees⟩ := ensureWritableBytes_agrees hb (hsize.trans_le hlen)
  rw [hsize] at hu
  obtain ⟨roomy, hroomy, hvalid, -, hroom⟩ := Buffer.ensureWritableBytes_spec hb data.length
  obtain rfl := Option.some.inj (hroomy.symm.trans hu)
  have hfits : roomy.writerIndex + data.length ≤ roomy.buffer.length := by
    have hwriter := hvalid.writer_le
    unfold Buffer.writableBytes at hroom
    omega
  by_cases hlarge : roomy.buffer.length ≤ maxSize
  · obtain ⟨b', hreturns, rfl⟩ := hagrees.returns hlarge
    obtain ⟨filled, hfilled, hbytes, hwriter⟩ := fill_agrees hvalid hfits
    have happend : b.append data = .returns { b' with
        buffer := filled
        writerIndex := b'.writerIndex + BitVec.ofNat 64 data.length } := by
      rw [append, hreturns]
      simp only [Outcome.andThen, hfilled]
    have hmodel : b.toBuffer.append data = some { b'.toBuffer with
        buffer := filled.bytes
        writerIndex := b'.toBuffer.writerIndex + data.length } := by
      simp only [Buffer.append, hu, hbytes, Option.bind_eq_bind, Option.bind_some]
      rfl
    rw [happend, hmodel]
    refine ⟨_, rfl, ?_⟩
    rw [← hwriter]
    exact .of_returns
  · obtain ⟨b', hthrows, rfl⟩ := hagrees.throws (not_le.1 hlarge)
    obtain ⟨filled, hfilled, hlength, -⟩ := Buffer.fill_spec hvalid hfits
    have hmodel : b'.toBuffer.append data = some { roomy with
        buffer := filled
        writerIndex := roomy.writerIndex + data.length } := by
      simp only [Buffer.append, hu, hfilled, Option.bind_eq_bind, Option.bind_some]
      rfl
    refine ⟨_, hmodel, fun hfits => absurd (hlength ▸ hfits) hlarge, fun _ => ⟨b', ?_, rfl⟩⟩
    rw [append, hthrows]
    rfl

/-- What a read may give is not larger than an object. -/
theorem length_le_of_iovecBytes {bytes : List Byte}
    (hfits : bytes.length ≤ b.toBuffer.iovecBytes) : bytes.length ≤ maxSize := by
  have hle := b.buffer.length_le
  have hroom : b.toBuffer.writableBytes ≤ b.buffer.bytes.length := Nat.sub_le _ _
  rw [maxSize_eq] at hle ⊢
  unfold Buffer.iovecBytes Buffer.kExtrabufSize at hfits
  split_ifs at hfits <;> omega

/-- Where `resize` throws, the vector has been filled, and the spill area is lost. -/
theorem readFd_agrees (hb : b.toBuffer.Valid) {bytes : List Byte}
    (hfits : bytes.length ≤ b.toBuffer.iovecBytes) : ∃ u,
      b.toBuffer.readFd (.data bytes) = some u ∧
      Agrees (b.readFd (.data bytes)) u fun b' => b'.toBuffer.Valid ∧
        b'.toBuffer.readable = b.toBuffer.readable ++ bytes.take b.toBuffer.writableBytes := by
  have hwritable := toNat_writableBytes hb.writer_le
  have hsize := toNat_ofNat (lt_of_le_maxSize (length_le_of_iovecBytes hfits))
  have hspilled := hfits.trans (Buffer.iovecBytes_le _)
  have htest : (BitVec.ofNat 64 bytes.length : SizeT) ≤ b.writableBytes ↔
      bytes.length ≤ b.toBuffer.writableBytes := by
    rw [BitVec.le_def, hsize, hwritable]
  have hwriter := hb.writer_le
  have hroom : b.toBuffer.writerIndex + (bytes.take b.toBuffer.writableBytes).length ≤
      b.toBuffer.buffer.length := by
    simp only [Buffer.writableBytes, List.length_take]
    omega
  obtain ⟨filled, hfilled, hbytes, hindex⟩ := fill_agrees hb hroom
  simp only [readFd, Buffer.readFd, hwritable, hfilled, hbytes, Option.bind_eq_bind,
    Option.bind_some]
  by_cases hdirect : bytes.length ≤ b.toBuffer.writableBytes
  · rw [if_pos (htest.2 hdirect), if_pos hdirect]
    rw [List.take_of_length_le hdirect] at hindex
    refine ⟨_, rfl, ?_⟩
    rw [← hindex]
    exact .of_returns
  · have hspill : (bytes.drop b.toBuffer.writableBytes).length ≤ Buffer.kExtrabufSize := by
      rw [List.length_drop]
      omega
    have hlen : (bytes.drop b.toBuffer.writableBytes).length ≤ maxSize :=
      hspill.trans (by rw [maxSize_eq, Buffer.kExtrabufSize]; omega)
    rw [if_neg (mt htest.1 hdirect), if_neg hdirect, if_pos hspill, if_pos hspill]
    -- the vector is full
    obtain ⟨other, hother, hlength, hwindow⟩ := Buffer.fill_spec hb hroom
    obtain rfl := Option.some.inj (hbytes.symm.trans hother)
    have hend : b.toBuffer.writerIndex + (bytes.take b.toBuffer.writableBytes).length =
        filled.bytes.length := by
      rw [hlength, List.length_take]
      unfold Buffer.writableBytes at hdirect ⊢
      omega
    rw [hend] at hwindow
    let full : SizedBuffer := { b with buffer := filled, writerIndex := filled.size }
    have hfull : full.toBuffer = ⟨filled.bytes, b.toBuffer.readerIndex, filled.bytes.length⟩ := by
      simp only [full, toBuffer, toNat_size]
    have hvalid : full.toBuffer.Valid := by
      rw [hfull]
      exact ⟨hb.prepend_le, (hb.reader_le.trans hwriter).trans_eq hlength.symm, Nat.le_refl _⟩
    have hreadable : full.toBuffer.readable =
        b.toBuffer.readable ++ bytes.take b.toBuffer.writableBytes := by
      rw [hfull]
      exact hwindow
    obtain ⟨u, hu, hagrees⟩ := append_agrees hvalid hlen
    rw [hfull] at hu
    exact ⟨u, hu, hagrees.mono fun b' hleft => hleft ▸ ⟨hvalid, hreadable⟩⟩

theorem toBuffer_retrieveAll (b : SizedBuffer) : b.retrieveAll.toBuffer = b.toBuffer.retrieveAll :=
  rfl

theorem toBuffer_retrieve (hb : b.toBuffer.Valid) {len : ℕ} (hlen : len < 2 ^ 64) :
    (b.retrieve (BitVec.ofNat 64 len)).toBuffer = b.toBuffer.retrieve len := by
  have hsize : (BitVec.ofNat 64 len : SizeT).toNat = len := toNat_ofNat hlen
  have htest : (BitVec.ofNat 64 len : SizeT) < b.readableBytes ↔
      len < b.toBuffer.readableBytes := by
    rw [BitVec.lt_def, hsize, toNat_readableBytes hb]
  unfold retrieve Buffer.retrieve
  by_cases hpart : len < b.toBuffer.readableBytes
  · rw [if_pos (htest.2 hpart), if_pos hpart]
    have hsum : b.readerIndex.toNat + len < 2 ^ 64 := by
      have hwriter := b.writerIndex.isLt
      simp only [Buffer.readableBytes, toBuffer] at hpart
      omega
    simp only [toBuffer]
    rw [BitVec.toNat_add_of_lt (by rwa [hsize]), hsize]
  · rw [if_neg (mt htest.1 hpart), if_neg hpart, toBuffer_retrieveAll]

theorem readableBytes_lt (b : SizedBuffer) : b.toBuffer.readableBytes < 2 ^ 64 :=
  (Nat.sub_le _ _).trans_lt b.writerIndex.isLt

/-- A string of readable bytes. -/
theorem retrieveAsString_eq (hb : b.toBuffer.Valid) {len : ℕ}
    (hlen : len ≤ b.toBuffer.readableBytes) :
    b.retrieveAsString (BitVec.ofNat 64 len) =
      some (b.toBuffer.readable.take len, b.retrieve (BitVec.ofNat 64 len)) := by
  have hlt := hlen.trans_lt b.readableBytes_lt
  have hmodel := Buffer.retrieveAsString_spec hb hlen
  obtain ⟨string, hcopy, hpair⟩ := Option.bind_eq_some_iff.1 hmodel
  obtain rfl : string = b.toBuffer.readable.take len :=
    congrArg Prod.fst (Option.some.inj hpair)
  have hcopy : Buffer.copyOut b.buffer.bytes b.readerIndex.toNat (b.readerIndex.toNat + len) =
      some (b.toBuffer.readable.take len) := hcopy
  rw [retrieveAsString, toNat_ofNat hlt, hcopy]
  rfl

end Step

/-! ## Runs -/

/-- The lengths are values of `size_t`, and those for which room is made are not larger than a
vector can be. -/
def Sized : BufferOp → Prop
  | .append data => data.length ≤ maxSize
  | .ensureWritableBytes len => len ≤ maxSize
  | .retrieve len => len < 2 ^ 64
  | _ => True

/-- What a call that throws has put into the buffer. -/
def taken (b : Buffer) : BufferOp → List Byte
  | .readFd (.data bytes) => bytes.take b.writableBytes
  | _ => []

/-- A call that returns, labelled with the call and what it gives out. -/
def Step (b : SizedBuffer) (label : BufferOp × List Byte) (b' : SizedBuffer) : Prop :=
  Sized label.1 ∧ label.1.Allowed b.toBuffer ∧ b.run label.1 = (label.2, .returns b')

/-- The constructor throws, or makes what it makes with unbounded sizes. -/
theorem new_eq {initialSize : SizeT}
    (hfits : Buffer.kCheapPrepend + initialSize.toNat ≤ maxSize) :
    ∃ first, new initialSize = some first ∧ first.toBuffer = Buffer.new initialSize.toNat := by
  have hlt := lt_of_le_maxSize hfits
  have hsum : (kCheapPrepend + initialSize).toNat = Buffer.kCheapPrepend + initialSize.toNat :=
    BitVec.toNat_add_of_lt hlt
  refine ⟨_, dif_pos (hsum.trans_le hfits), ?_⟩
  simp only [toBuffer, hsum]
  rfl

section Runs

variable {b : SizedBuffer}

theorem run_agrees (hb : b.toBuffer.Valid) {op : BufferOp} (hsized : Sized op)
    (hop : op.Allowed b.toBuffer) : ∃ out u outcome,
      op.run b.toBuffer = some (out, u) ∧ b.run op = (out, outcome) ∧
      Agrees outcome u fun b' => b'.toBuffer.Valid ∧
        b'.toBuffer.readable = b.toBuffer.readable ++ taken b.toBuffer op := by
  have hunchanged {b' : SizedBuffer} (hsame : b' = b) :
      b'.toBuffer.Valid ∧ b'.toBuffer.readable = b.toBuffer.readable ++ [] := by
    rw [hsame, List.append_nil]
    exact ⟨hb, rfl⟩
  cases op with
  | append data =>
      obtain ⟨u, hu, hagrees⟩ := append_agrees hb hsized
      exact ⟨[], u, _, by simp [BufferOp.run, hu], rfl, hagrees.mono fun _ => hunchanged⟩
  | ensureWritableBytes len =>
      have hsize := toNat_ofNat (n := len) (lt_of_le_maxSize hsized)
      obtain ⟨u, hu, hagrees⟩ := ensureWritableBytes_agrees hb (hsize.trans_le hsized)
      rw [hsize] at hu
      exact ⟨[], u, _, by simp [BufferOp.run, hu], rfl, hagrees.mono fun _ => hunchanged⟩
  | retrieve len =>
      refine ⟨[], _, _, rfl, rfl, ?_⟩
      rw [← toBuffer_retrieve hb hsized]
      exact .of_returns
  | retrieveAll => exact ⟨[], _, _, rfl, rfl, .of_returns⟩
  | retrieveAsString len =>
      have hlt := Nat.lt_of_le_of_lt hop b.readableBytes_lt
      refine ⟨_, _, _, Buffer.retrieveAsString_spec hb hop,
        congrArg ofString (retrieveAsString_eq hb hop), ?_⟩
      rw [← toBuffer_retrieve hb hlt]
      exact .of_returns
  | retrieveAllAsString =>
      have hall : b.readableBytes = BitVec.ofNat 64 b.toBuffer.readableBytes := by
        rw [← toNat_readableBytes hb, BitVec.ofNat_toNat, BitVec.setWidth_eq]
      have hstring := retrieveAsString_eq hb (Nat.le_refl _)
      rw [← hall] at hstring
      refine ⟨_, _, _, Buffer.retrieveAsString_spec hb (Nat.le_refl _),
        congrArg ofString hstring, ?_⟩
      rw [hall, ← toBuffer_retrieve hb b.readableBytes_lt]
      exact .of_returns
  | readFd result =>
      cases result with
      | error errno => exact ⟨[], _, _, rfl, rfl, .of_returns⟩
      | data bytes =>
          obtain ⟨u, hu, hagrees⟩ := readFd_agrees hb hop
          exact ⟨[], u, _, by simp [BufferOp.run, hu], rfl, hagrees⟩
  | writeFd n =>
      have hlt := Nat.lt_of_le_of_lt hop b.readableBytes_lt
      have hout : b.writeFd = some b.toBuffer.readable := Buffer.writeFd_spec hb
      refine ⟨_, _, _, by simp only [BufferOp.run, Buffer.writeFd_spec hb, Option.map_some]; rfl,
        by rw [run, hout]; rfl, ?_⟩
      rw [← toBuffer_retrieve hb hlt]
      exact .of_returns

/-- A call that returns is one with unbounded indices. -/
theorem step_refines {b' : SizedBuffer} {label : BufferOp × List Byte} (hb : b.toBuffer.Valid)
    (hstep : Step b label b') : BufferOp.Step b.toBuffer label b'.toBuffer := by
  obtain ⟨hsized, hallowed, hrun⟩ := hstep
  obtain ⟨out, u, outcome, hmodel, houtcome, hagrees⟩ := run_agrees hb hsized hallowed
  obtain ⟨rfl, rfl⟩ := Prod.mk.inj (houtcome.symm.trans hrun)
  refine ⟨hallowed, ?_⟩
  rcases Nat.lt_or_ge maxSize u.buffer.length with hlarge | hfits
  · obtain ⟨thrown, hthrows, -⟩ := hagrees.throws hlarge
    cases hthrows
  · obtain ⟨returned, hreturns, rfl⟩ := hagrees.returns hfits
    obtain rfl := Outcome.returns.inj hreturns
    exact hmodel

theorem run_refines {b' : SizedBuffer} {labels : List (BufferOp × List Byte)}
    (hb : b.toBuffer.Valid) (hrun : Run Step b labels b') :
    b'.toBuffer.Valid ∧ Run BufferOp.Step b.toBuffer labels b'.toBuffer := by
  induction hrun with
  | nil => exact ⟨hb, .nil⟩
  | snoc _ hlast ih =>
      have hstep := step_refines ih.1 hlast
      exact ⟨(BufferOp.step_spec ih.1 hstep).1, ih.2.snoc hstep⟩

end Runs

/-- `Buffer` with the arithmetic of `size_t` refines the one with unbounded indices, and with it
the byte queue, from any buffer with its index invariant.  A further call does what it does
with unbounded indices if the vector that this leaves is not larger than
`std::vector<char>::max_size()`, and throws if it is.  What it throws keeps the invariant and
all readable bytes, and appends to them the part of a `readv` that went to the vector. -/
theorem sized_refines (first : SizedBuffer) (hfirst : first.toBuffer.Valid)
    (labels : List (BufferOp × List Byte)) (b : SizedBuffer) (hrun : Run Step first labels b) :
    Run BufferOp.Step first.toBuffer labels b.toBuffer ∧
      Run BufferOp.QueueStep first.toBuffer.readable labels b.toBuffer.readable ∧
      ∀ op, Sized op → op.Allowed b.toBuffer → ∃ out u, op.run b.toBuffer = some (out, u) ∧
        (u.buffer.length ≤ maxSize → ∃ b', b.run op = (out, .returns b') ∧ b'.toBuffer = u) ∧
        (maxSize < u.buffer.length → ∃ b', b.run op = (out, .throws b') ∧ b'.toBuffer.Valid ∧
          b'.toBuffer.readable = b.toBuffer.readable ++ taken b.toBuffer op) := by
  obtain ⟨hvalid, hmodel⟩ := run_refines hfirst hrun
  refine ⟨hmodel, (BufferOp.run_valid_and_queue hfirst hmodel).2, fun op hsized hop => ?_⟩
  obtain ⟨out, u, outcome, hu, houtcome, hagrees⟩ := run_agrees hvalid hsized hop
  refine ⟨out, u, hu, fun hfits => ?_, fun hlarge => ?_⟩
  · obtain ⟨b', rfl, hb'⟩ := hagrees.returns hfits
    exact ⟨b', houtcome, hb'⟩
  · obtain ⟨b', rfl, hb'⟩ := hagrees.throws hlarge
    exact ⟨b', houtcome, hb'⟩

/-- The smallest buffer after two bytes. -/
def grown : SizedBuffer := ⟨⟨[0, 0, 0, 0, 0, 0, 0, 0, 1, 2], by decide⟩, 8, 10⟩

/-- The smallest buffer grows for two bytes, and the first one leaves. -/
theorem sized_refines_smallest : ∃ first b : SizedBuffer, new 0 = some first ∧
    Run BufferOp.QueueStep [] [(.append [1, 2], []), (.retrieveAsString 1, [1])]
      b.toBuffer.readable := by
  have happend : Step smallest (.append [1, 2], []) grown :=
    ⟨show 2 ≤ maxSize by decide, trivial, rfl⟩
  have hleave : Step grown (.retrieveAsString 1, [1]) (grown.retrieve 1) :=
    ⟨trivial, show 1 ≤ 2 by decide, rfl⟩
  exact ⟨smallest, _, rfl,
    (sized_refines smallest (by decide) _ _ ((Run.single happend).snoc hleave)).2.1⟩

end SizedBuffer

end MuduoLite
