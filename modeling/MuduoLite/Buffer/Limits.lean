import MuduoLite.Buffer.Refinement

/-!
# `ensureWritableBytes` with 64-bit indices

`Buffer` has unbounded indices.  Here the indices and the lengths are values of `size_t`,
sums of them wrap, and `std::vector::resize` throws above the maximum size of a vector.

For an index that is not larger than the vector and a length such that their sum does
not wrap, no other sum wraps either, and the two models agree (`ensureWritableBytes_eq`).
If that sum wraps, either `resize` gets the wrapped sum and cuts off readable bytes, or
`len + kCheapPrepend` wraps as well, the test of `makeSpace` takes the request for a small
one, and moving the readable bytes does not make enough room.
-/

namespace MuduoLite

/-- `size_t`. -/
abbrev SizeT := BitVec 64

/-- `std::vector<char>::max_size()`. -/
def maxSize : ℕ := (BitVec.intMax 64).toNat

/-- A `std::vector<char>`. -/
structure CharVector where
  bytes : List Byte
  length_le : bytes.length ≤ maxSize

namespace CharVector

def size (v : CharVector) : SizeT := BitVec.ofNat 64 v.bytes.length

/-- `resize`, which throws `std::length_error` (`none`) above `max_size()`. -/
def resize (v : CharVector) (size : SizeT) : Option CharVector :=
  if h : size.toNat ≤ maxSize then
    some ⟨Buffer.resize v.bytes size.toNat, (Buffer.length_resize _ _).trans_le h⟩
  else none

/-- `std::copy` of `data` to the range that starts at `first`. -/
def copyIn (v : CharVector) (first : SizeT) (data : List Byte) : Option CharVector :=
  match h : Buffer.copyIn v.bytes first.toNat data with
  | some bytes => some ⟨bytes, (Buffer.length_copyIn h).trans_le v.length_le⟩
  | none => none

end CharVector

/-- `Buffer` with the types of the source. -/
structure SizedBuffer where
  buffer : CharVector
  readerIndex : SizeT
  writerIndex : SizeT

namespace SizedBuffer

/-- How a call that may grow the vector ends. -/
inductive Outcome
  | returns (b : SizedBuffer)
  /-- with the buffer as the caller finds it when it catches the exception -/
  | throws (b : SizedBuffer)
  /-- a copy has left the vector -/
  | undefined

def kCheapPrepend : SizeT := 8

def readableBytes (b : SizedBuffer) : SizeT := b.writerIndex - b.readerIndex

def writableBytes (b : SizedBuffer) : SizeT := b.buffer.size - b.writerIndex

def prependableBytes (b : SizedBuffer) : SizeT := b.readerIndex

def makeSpace (b : SizedBuffer) (len : SizeT) : Outcome :=
  if b.writableBytes + b.prependableBytes < len + kCheapPrepend then
    match b.buffer.resize (b.writerIndex + len) with
    | some grown => .returns { b with buffer := grown }
    | none => .throws b
  else
    match (Buffer.copyOut b.buffer.bytes b.readerIndex.toNat b.writerIndex.toNat).bind
      (b.buffer.copyIn kCheapPrepend) with
    | some moved => .returns {
        buffer := moved
        readerIndex := kCheapPrepend
        writerIndex := kCheapPrepend + b.readableBytes }
    | none => .undefined

def ensureWritableBytes (b : SizedBuffer) (len : SizeT) : Outcome :=
  if b.writableBytes < len then b.makeSpace len else .returns b

/-- The same buffer with unbounded indices. -/
def toBuffer (b : SizedBuffer) : Buffer :=
  ⟨b.buffer.bytes, b.readerIndex.toNat, b.writerIndex.toNat⟩

/-- The call has thrown and changed nothing, or it has made room and left the indices in
order and the readable bytes alone. -/
def Safe (b : SizedBuffer) (len : SizeT) : Outcome → Prop
  | .returns b' => b'.toBuffer.Valid ∧ b'.toBuffer.readable = b.toBuffer.readable ∧
      len ≤ b'.writableBytes
  | .throws b' => b' = b
  | .undefined => False

/-! ## Sums that do not wrap -/

section

variable {b : SizedBuffer} {len : SizeT}

theorem toNat_kCheapPrepend : kCheapPrepend.toNat = Buffer.kCheapPrepend := rfl

theorem maxSize_eq : maxSize = 9223372036854775807 := rfl

theorem toNat_size (v : CharVector) : v.size.toNat = v.bytes.length := by
  have hle := v.length_le
  rw [maxSize_eq] at hle
  rw [CharVector.size, BitVec.toNat_ofNat, Nat.mod_eq_of_lt (by omega)]

theorem toNat_writableBytes (hb : b.toBuffer.writerIndex ≤ b.toBuffer.buffer.length) :
    b.writableBytes.toNat = b.toBuffer.writableBytes := by
  have hle : b.writerIndex ≤ b.buffer.size := by
    rw [BitVec.le_def, toNat_size]
    exact hb
  rw [writableBytes, BitVec.toNat_sub_of_le hle, toNat_size]
  rfl

theorem toNat_readableBytes (hb : b.toBuffer.Valid) :
    b.readableBytes.toNat = b.toBuffer.readableBytes :=
  BitVec.toNat_sub_of_le (BitVec.le_def.2 hb.reader_le)

/-- What is free and what is consumed is never more than the vector. -/
theorem toNat_writable_add_prependable (hb : b.toBuffer.Valid) :
    (b.writableBytes + b.prependableBytes).toNat =
      b.toBuffer.writableBytes + b.toBuffer.prependableBytes := by
  have hle := b.buffer.length_le
  have hreader := hb.reader_le
  have hwriter := hb.writer_le
  rw [maxSize_eq] at hle
  have hwritable := toNat_writableBytes hwriter
  have hsum : b.writableBytes.toNat + b.prependableBytes.toNat ≤ b.buffer.bytes.length := by
    rw [hwritable]
    simp only [Buffer.writableBytes, prependableBytes, toBuffer] at hreader hwriter ⊢
    omega
  rw [BitVec.toNat_add_of_lt (by omega), hwritable]
  rfl

theorem exists_copyIn {v : CharVector} {first : SizeT} {data bytes : List Byte}
    (hcopy : Buffer.copyIn v.bytes first.toNat data = some bytes) :
    ∃ copied, v.copyIn first data = some copied ∧ copied.bytes = bytes := by
  unfold CharVector.copyIn
  split
  · next filled hfilled =>
      exact ⟨_, rfl, Option.some.inj (hfilled.symm.trans hcopy)⟩
  · next hnone =>
      rw [hnone] at hcopy
      cases hcopy

theorem toNat_writerIndex_add (hsum : b.writerIndex.uaddOverflow len = false) :
    (b.writerIndex + len).toNat = b.writerIndex.toNat + len.toNat :=
  BitVec.toNat_add_of_lt (by simpa [BitVec.uaddOverflow] using hsum)

/-- The test of `makeSpace` is the one with unbounded indices: `kCheapPrepend` is at most
the write index. -/
theorem makeSpace_test_iff (hb : b.toBuffer.Valid)
    (hsum : b.writerIndex.uaddOverflow len = false) :
    b.writableBytes + b.prependableBytes < len + kCheapPrepend ↔
      b.toBuffer.writableBytes + b.toBuffer.prependableBytes <
        len.toNat + Buffer.kCheapPrepend := by
  have hprepend : kCheapPrepend.toNat ≤ b.writerIndex.toNat := hb.prepend_le.trans hb.reader_le
  have hlt := (b.writerIndex + len).isLt
  rw [toNat_writerIndex_add hsum] at hlt
  rw [BitVec.lt_def, toNat_writable_add_prependable hb, BitVec.toNat_add_of_lt (by omega)]
  rfl

theorem toNat_prepend_add_readable (hb : b.toBuffer.Valid) :
    (kCheapPrepend + b.readableBytes).toNat =
      Buffer.kCheapPrepend + b.toBuffer.readableBytes := by
  have hwriter : b.writerIndex.toNat ≤ b.buffer.bytes.length := hb.writer_le
  have hle := b.buffer.length_le
  rw [maxSize_eq] at hle
  have hreadable : b.readableBytes.toNat ≤ b.writerIndex.toNat := by
    rw [toNat_readableBytes hb]
    exact Nat.sub_le _ _
  have hlt : kCheapPrepend.toNat + b.readableBytes.toNat < 2 ^ 64 := by
    rw [toNat_kCheapPrepend, Buffer.kCheapPrepend]
    omega
  rw [BitVec.toNat_add_of_lt hlt, toNat_readableBytes hb, toNat_kCheapPrepend]

/-- Moving the readable bytes stays inside the vector. -/
theorem exists_moved (hb : b.toBuffer.Valid) : ∃ moved : CharVector,
    (Buffer.copyOut b.buffer.bytes b.readerIndex.toNat b.writerIndex.toNat).bind
      (b.buffer.copyIn kCheapPrepend) = some moved ∧
    Buffer.copyIn b.buffer.bytes kCheapPrepend.toNat b.toBuffer.readable = some moved.bytes := by
  obtain ⟨hfront, hreader, hwriter⟩ : kCheapPrepend.toNat ≤ b.readerIndex.toNat ∧
      b.readerIndex.toNat ≤ b.writerIndex.toNat ∧
      b.writerIndex.toNat ≤ b.buffer.bytes.length := ⟨hb.prepend_le, hb.reader_le, hb.writer_le⟩
  have hfits : kCheapPrepend.toNat + b.toBuffer.readable.length ≤ b.buffer.bytes.length := by
    rw [hb.length_readable]
    simp only [Buffer.readableBytes, toBuffer]
    omega
  have hin := Buffer.copyIn_eq_some hfits
  obtain ⟨moved, hmoved, hbytes⟩ := exists_copyIn hin
  refine ⟨moved, ?_, hbytes ▸ hin⟩
  rw [Buffer.copyOut_eq_some hreader hwriter]
  exact hmoved

/-- If the sum of write index and length does not wrap, `makeSpace` does what it does with
unbounded indices, or the vector cannot be that large. -/
theorem makeSpace_eq (hb : b.toBuffer.Valid) (hsum : b.writerIndex.uaddOverflow len = false) :
    b.makeSpace len = .throws b ∨ ∃ b', b.makeSpace len = .returns b' ∧
      b.toBuffer.makeSpace len.toNat = some b'.toBuffer := by
  have htest := makeSpace_test_iff hb hsum
  unfold makeSpace Buffer.makeSpace
  by_cases hgrow : b.writableBytes + b.prependableBytes < len + kCheapPrepend
  · rw [if_pos hgrow, if_pos (htest.1 hgrow)]
    unfold CharVector.resize
    split_ifs with hsize
    · refine .inr ⟨_, rfl, ?_⟩
      simp only [toBuffer, toNat_writerIndex_add hsum]
    · exact .inl rfl
  · rw [if_neg hgrow, if_neg (mt htest.2 hgrow)]
    obtain ⟨moved, hmoved, hin⟩ := exists_moved hb
    have hout := Buffer.copyOut_eq_some hb.reader_le hb.writer_le
    refine .inr ⟨_, by rw [hmoved], ?_⟩
    simp only [hout, Option.bind_eq_bind, Option.bind_some]
    change ((Buffer.copyIn b.buffer.bytes kCheapPrepend.toNat b.toBuffer.readable).bind
      fun moved => some _) = _
    rw [hin, Option.bind_some]
    simp only [toBuffer, toNat_prepend_add_readable hb, toNat_kCheapPrepend]

theorem ensureWritableBytes_eq (hb : b.toBuffer.Valid)
    (hsum : b.writerIndex.uaddOverflow len = false) :
    b.ensureWritableBytes len = .throws b ∨ ∃ b', b.ensureWritableBytes len = .returns b' ∧
      b.toBuffer.ensureWritableBytes len.toNat = some b'.toBuffer := by
  have htest : b.writableBytes < len ↔ b.toBuffer.writableBytes < len.toNat := by
    rw [BitVec.lt_def, toNat_writableBytes hb.writer_le]
  unfold ensureWritableBytes Buffer.ensureWritableBytes
  by_cases hshort : b.writableBytes < len
  · rw [if_pos hshort, if_pos (htest.1 hshort)]
    exact makeSpace_eq hb hsum
  · rw [if_neg hshort, if_neg (mt htest.2 hshort)]
    exact .inr ⟨b, rfl, rfl⟩

theorem safe_of_not_overflow (hb : b.toBuffer.Valid)
    (hsum : b.writerIndex.uaddOverflow len = false) : Safe b len (b.ensureWritableBytes len) := by
  rcases ensureWritableBytes_eq hb hsum with hthrows | ⟨b', hreturns, hmodel⟩
  · rw [hthrows]
    exact rfl
  · obtain ⟨roomy, hroomy, hvalid, hreadable, hroom⟩ :=
      Buffer.ensureWritableBytes_spec hb len.toNat
    obtain rfl := Option.some.inj (hroomy.symm.trans hmodel)
    rw [hreturns]
    refine ⟨hvalid, hreadable, ?_⟩
    rwa [BitVec.le_def, toNat_writableBytes hvalid.writer_le]

/-! ## Sums that wrap -/

/-- No vector has room for a length that makes the sum wrap. -/
theorem not_le_writableBytes (hb : b.toBuffer.Valid)
    (hsum : b.writerIndex.uaddOverflow len = true) {b' : SizedBuffer} (hvalid : b'.toBuffer.Valid) :
    ¬ len ≤ b'.writableBytes := by
  have hsum : 2 ^ 64 ≤ b.writerIndex.toNat + len.toNat := by
    simpa [BitVec.uaddOverflow] using hsum
  have hwriter : b.writerIndex.toNat ≤ b.buffer.bytes.length := hb.writer_le
  have hle := b.buffer.length_le
  have hle' := b'.buffer.length_le
  rw [maxSize_eq] at hle hle'
  have hroom : b'.toBuffer.writableBytes ≤ b'.buffer.bytes.length := Nat.sub_le _ _
  rw [BitVec.le_def, toNat_writableBytes hvalid.writer_le]
  omega

/-- The call returns with too little room, or with a vector that ends before the write
index. -/
theorem not_safe_of_overflow (hb : b.toBuffer.Valid)
    (hsum : b.writerIndex.uaddOverflow len = true) :
    ¬ Safe b len (b.ensureWritableBytes len) := by
  have hreturned {b' : SizedBuffer} : ¬ Safe b len (.returns b') :=
    fun hsafe => not_le_writableBytes hb hsum hsafe.1 hsafe.2.2
  have hwraps : 2 ^ 64 ≤ b.writerIndex.toNat + len.toNat := by
    simpa [BitVec.uaddOverflow] using hsum
  have hshort : b.writableBytes < len := BitVec.not_le.1 (not_le_writableBytes hb hsum hb)
  rw [ensureWritableBytes, if_pos hshort]
  unfold makeSpace
  split_ifs with hgrow
  · -- the wrapped sum is below the write index, so `resize` takes it
    have hwriter : b.writerIndex.toNat ≤ b.buffer.bytes.length := hb.writer_le
    have hle := b.buffer.length_le
    have hsize : (b.writerIndex + len).toNat ≤ maxSize := by
      rw [BitVec.toNat_add]
      omega
    rw [CharVector.resize, dif_pos hsize]
    exact hreturned
  · split
    · exact hreturned
    · exact id

end

/-- For every buffer with its index invariant and every length, `ensureWritableBytes`
throws and changes nothing, or makes the room asked for and keeps the invariant and the
readable bytes, if and only if the sum of the write index and the length does not wrap. -/
theorem ensureWritableBytes_safe_iff (b : SizedBuffer) (len : SizeT) (hb : b.toBuffer.Valid) :
    Safe b len (b.ensureWritableBytes len) ↔ b.writerIndex.uaddOverflow len = false := by
  refine ⟨fun hsafe => ?_, safe_of_not_overflow hb⟩
  by_contra hsum
  exact not_safe_of_overflow hb (by simpa using hsum) hsafe

/-- A buffer of initial size 0. -/
def smallest : SizedBuffer := ⟨⟨[0, 0, 0, 0, 0, 0, 0, 0], by decide⟩, 8, 8⟩

/-- The largest length that a vector may have is refused. -/
theorem ensureWritableBytes_safe_large :
    Safe smallest (BitVec.intMax 64) (smallest.ensureWritableBytes (BitVec.intMax 64)) :=
  (ensureWritableBytes_safe_iff smallest (BitVec.intMax 64) (by decide)).2 (by decide)

/-- For the largest length, `len + kCheapPrepend` is 7: the call moves the readable bytes
and returns. -/
theorem ensureWritableBytes_wraps :
    ¬ ∀ (b : SizedBuffer) (len : SizeT), b.toBuffer.Valid →
      Safe b len (b.ensureWritableBytes len) := by
  intro hclaim
  have hreturns : smallest.ensureWritableBytes (BitVec.allOnes 64) = .returns smallest := rfl
  have hsafe := hclaim smallest (BitVec.allOnes 64) (by decide)
  rw [hreturns] at hsafe
  exact absurd hsafe.2.2 (by decide)

end SizedBuffer

end MuduoLite
