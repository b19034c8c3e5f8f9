import MuduoLite.Buffer.Refinement

/-!
# The size of the vector

`makeSpace` grows the vector to `writerIndex + len` without moving the readable bytes
first, so consumed bytes in front of them are kept.  It does so only when the readable
bytes and `len` more would not fit after a move, and then there are at most
`len + kCheapPrepend - 1` bytes in front.  So the size is bounded by what was held and
asked for at that moment, whatever happened before.
-/

namespace MuduoLite

open Window Transition

namespace Buffer

variable {b b' : Buffer}

/-- The vector keeps its size, or it gets one that is bounded by the request. -/
theorem length_makeSpace (hb : b.Valid) {len : ℕ} (hspace : b.makeSpace len = some b') :
    b'.buffer.length = b.buffer.length ∨
      b'.buffer.length < b.readableBytes + 2 * len + kCheapPrepend := by
  obtain ⟨hprepend, hreader, hwriter⟩ := hb
  unfold makeSpace at hspace
  split_ifs at hspace with htest
  · obtain rfl := Option.some.inj hspace
    simp only [writableBytes, prependableBytes] at htest
    refine .inr ?_
    rw [length_resize]
    simp only [readableBytes]
    omega
  · obtain ⟨readable, -, hspace⟩ := Option.bind_eq_some_iff.1 hspace
    obtain ⟨moved, hmoved, hspace⟩ := Option.bind_eq_some_iff.1 hspace
    obtain rfl := Option.some.inj hspace
    exact .inl (length_copyIn hmoved)

theorem length_ensureWritableBytes (hb : b.Valid) {len : ℕ}
    (hensure : b.ensureWritableBytes len = some b') : b'.buffer.length = b.buffer.length ∨
      b'.buffer.length < b.readableBytes + 2 * len + kCheapPrepend := by
  unfold ensureWritableBytes at hensure
  split_ifs at hensure
  · exact length_makeSpace hb hensure
  · obtain rfl := Option.some.inj hensure
    exact .inl rfl

theorem length_append (hb : b.Valid) {data : List Byte} (happend : b.append data = some b') :
    b'.buffer.length = b.buffer.length ∨
      b'.buffer.length < b.readableBytes + 2 * data.length + kCheapPrepend := by
  obtain ⟨roomy, hroomy, happend⟩ := Option.bind_eq_some_iff.1 happend
  obtain ⟨filled, hfilled, happend⟩ := Option.bind_eq_some_iff.1 happend
  obtain rfl := Option.some.inj happend
  have hsame : filled.length = roomy.buffer.length := length_copyIn hfilled
  dsimp only
  rw [hsame]
  exact length_ensureWritableBytes hb hroomy

/-- `append` has no more than the spill area to append, and finds the rest of the vector
full. -/
theorem length_readFd_data (hb : b.Valid) {bytes : List Byte}
    (hread : b.readFd (.data bytes) = some b') : b'.buffer.length = b.buffer.length ∨
      b.writableBytes < bytes.length ∧
      b'.buffer.length < b.readableBytes + b.writableBytes +
        2 * (bytes.length - b.writableBytes) + kCheapPrepend := by
  obtain ⟨hprepend, hreader, hwriter⟩ := hb
  obtain ⟨filled, hfilled, hread⟩ := Option.bind_eq_some_iff.1 hread
  have hsame : filled.length = b.buffer.length := length_copyIn hfilled
  dsimp only at hread
  split_ifs at hread with hdirect
  · obtain rfl := Option.some.inj hread
    exact .inl hsame
  · have hvalid : Valid { b with buffer := filled, writerIndex := filled.length } :=
      ⟨hprepend, (hreader.trans hwriter).trans_eq hsame.symm, Nat.le_refl _⟩
    refine (length_append hvalid hread).imp (fun hkept => hkept.trans hsame) fun hgrown =>
      ⟨Nat.lt_of_not_le hdirect, ?_⟩
    simp only [List.length_drop, readableBytes, writableBytes] at hgrown ⊢
    omega

/-- A read that fits in the iovecs or not: what comes back is a buffer again. -/
theorem valid_readFd (hb : b.Valid) {result : ReadResult} (hread : b.readFd result = some b') :
    b'.Valid := by
  cases result with
  | error errno =>
      obtain rfl := Option.some.inj hread
      exact hb
  | data bytes =>
      by_cases hfits : bytes.length ≤ b.writableBytes + kExtrabufSize
      · obtain ⟨next, hnext, hvalid, -⟩ := readFd_data_spec hb hfits
        obtain rfl := Option.some.inj (hnext.symm.trans hread)
        exact hvalid
      · -- the spill area is too small
        obtain ⟨filled, -, hread⟩ := Option.bind_eq_some_iff.1 hread
        have hspill : ¬ (bytes.drop b.writableBytes).length ≤ kExtrabufSize := by
          rw [List.length_drop]
          omega
        dsimp only at hread
        rw [if_neg (by omega), if_neg hspill] at hread
        cases hread

end Buffer

namespace BufferOp

open Buffer

/-- A request for more room asks for at most `len` bytes and finds at most `held` readable
ones.  In `readFd` it is the request for what is in the spill area. -/
def Bounded (len held : ℕ) (b : Buffer) : BufferOp → Prop
  | append data => data.length ≤ len ∧ b.readableBytes ≤ held
  | ensureWritableBytes room => room ≤ len ∧ b.readableBytes ≤ held
  | readFd (.data bytes) => b.writableBytes < bytes.length →
      bytes.length - b.writableBytes ≤ len ∧ b.readableBytes + b.writableBytes ≤ held
  | _ => True

/-- Any call that stays inside the vector, labelled with what it gives out. -/
def Succeeds (b : Buffer) (label : BufferOp × List Byte) (b' : Buffer) : Prop :=
  label.1.run b = some (label.2, b')

section

variable {b b' : Buffer} {op : BufferOp} {out : List Byte} {len held : ℕ}

/-- What a call does to the buffer: it moves the indices, or it is one of the three that
ask for room. -/
theorem next_of_run (hrun : op.run b = some (out, b')) :
    (∃ n, b' = b.retrieve n) ∨ b' = b.retrieveAll ∨
      (∃ data, op = append data ∧ b.append data = some b') ∨
      (∃ room, op = ensureWritableBytes room ∧ b.ensureWritableBytes room = some b') ∨
      ∃ result, op = readFd result ∧ b.readFd result = some b' := by
  have hgives {next : Option Buffer} (hmap : next.map (fun b' => ([], b')) = some (out, b')) :
      next = some b' := by
    obtain ⟨next, hnext, hpair⟩ := Option.map_eq_some_iff.1 hmap
    obtain rfl : next = b' := congrArg Prod.snd hpair
    exact hnext
  cases op with
  | append data => exact .inr (.inr (.inl ⟨data, rfl, hgives hrun⟩))
  | ensureWritableBytes room => exact .inr (.inr (.inr (.inl ⟨room, rfl, hgives hrun⟩)))
  | retrieve n => exact .inl ⟨n, (congrArg Prod.snd (Option.some.inj hrun)).symm⟩
  | retrieveAll => exact .inr (.inl (congrArg Prod.snd (Option.some.inj hrun)).symm)
  | retrieveAsString n =>
      obtain ⟨string, -, hrun⟩ := Option.bind_eq_some_iff.1 hrun
      exact .inl ⟨n, (congrArg Prod.snd (Option.some.inj hrun)).symm⟩
  | retrieveAllAsString =>
      obtain ⟨string, -, hrun⟩ := Option.bind_eq_some_iff.1 hrun
      exact .inl ⟨_, (congrArg Prod.snd (Option.some.inj hrun)).symm⟩
  | readFd result => exact .inr (.inr (.inr (.inr ⟨result, rfl, hgives hrun⟩)))
  | writeFd n =>
      obtain ⟨bytes, -, hrun⟩ := Option.map_eq_some_iff.1 hrun
      exact .inl ⟨n, (congrArg Prod.snd hrun).symm⟩

theorem valid_of_run (hb : b.Valid) (hrun : op.run b = some (out, b')) : b'.Valid := by
  rcases next_of_run hrun with ⟨n, rfl⟩ | rfl | ⟨data, -, happend⟩ | ⟨room, -, hensure⟩ |
    ⟨result, -, hread⟩
  · exact (retrieve_spec hb n).1
  · exact (retrieveAll_spec hb).1
  · obtain ⟨next, hnext, hvalid, -⟩ := append_spec hb data
    obtain rfl := Option.some.inj (hnext.symm.trans happend)
    exact hvalid
  · obtain ⟨next, hnext, hvalid, -⟩ := ensureWritableBytes_spec hb room
    obtain rfl := Option.some.inj (hnext.symm.trans hensure)
    exact hvalid
  · exact valid_readFd hb hread

theorem length_retrieve (b : Buffer) (n : ℕ) : (b.retrieve n).buffer.length = b.buffer.length := by
  unfold Buffer.retrieve
  split_ifs <;> rfl

/-- One call keeps the size, or its request bounds the new one. -/
theorem length_of_run (hb : b.Valid) (hbounded : op.Bounded len held b)
    (hrun : op.run b = some (out, b')) : b'.buffer.length = b.buffer.length ∨
      b'.buffer.length < held + 2 * len + kCheapPrepend := by
  rcases next_of_run hrun with ⟨n, rfl⟩ | rfl | ⟨data, rfl, happend⟩ | ⟨room, rfl, hensure⟩ |
    ⟨result, rfl, hread⟩
  · exact .inl (length_retrieve b n)
  · exact .inl rfl
  · obtain ⟨hlen, hheld⟩ : data.length ≤ len ∧ b.readableBytes ≤ held := hbounded
    exact (length_append hb happend).imp id fun hgrown => by omega
  · obtain ⟨hlen, hheld⟩ : room ≤ len ∧ b.readableBytes ≤ held := hbounded
    exact (length_ensureWritableBytes hb hensure).imp id fun hgrown => by omega
  · cases result with
    | error errno =>
        obtain rfl := Option.some.inj hread
        exact .inl rfl
    | data bytes =>
        refine (length_readFd_data hb hread).imp id fun ⟨hspilled, hgrown⟩ => ?_
        obtain ⟨hlen, hheld⟩ := hbounded hspilled
        omega

end

/-- In any run of a buffer whose requests for room ask for at most `len` bytes and find at
most `held` readable ones, the vector stays within its first size or
`held + 2 * len + kCheapPrepend - 1`. -/
theorem capacity_bounded (initialSize len held : ℕ) (labels : List (BufferOp × List Byte))
    (b : Buffer)
    (hrun : Run (restrict Succeeds fun b label => label.1.Bounded len held b) (new initialSize)
      labels b) :
    b.buffer.length ≤ max (kCheapPrepend + initialSize) (held + 2 * len + kCheapPrepend - 1) := by
  have hstart : (new initialSize).buffer.length = kCheapPrepend + initialSize := by simp [new]
  refine (hrun.invariant (P := fun b => b.Valid ∧ b.buffer.length ≤ max _ _)
    ⟨new_valid initialSize, hstart.le.trans (le_max_left _ _)⟩ ?_).2
  rintro b ⟨op, out⟩ b' ⟨hb, hle⟩ ⟨hstep, hbounded⟩
  refine ⟨valid_of_run hb hstep, ?_⟩
  rcases length_of_run hb hbounded hstep with hsame | hgrown
  · exact hsame.le.trans hle
  · exact (Nat.le_sub_one_of_lt hgrown).trans (le_max_right _ _)

/-- Three of four bytes are consumed.  Four more make the vector grow behind them, up to
the bound. -/
theorem capacity_bounded_drifted :
    (⟨[0, 0, 0, 0, 0, 0, 0, 0, 1, 2, 3, 4, 5, 6, 7, 8], 11, 16⟩ : Buffer).buffer.length ≤
      max (kCheapPrepend + 4) (1 + 2 * 4 + kCheapPrepend - 1) := by
  let P : Buffer → BufferOp × List Byte → Prop := fun b label => label.1.Bounded 4 1 b
  have hfilled : restrict Succeeds P (new 4) (append [1, 2, 3, 4], [])
      ⟨[0, 0, 0, 0, 0, 0, 0, 0, 1, 2, 3, 4], 8, 12⟩ :=
    ⟨rfl, Nat.le_refl 4, Nat.zero_le 1⟩
  have hconsumed : restrict Succeeds P ⟨[0, 0, 0, 0, 0, 0, 0, 0, 1, 2, 3, 4], 8, 12⟩
      (retrieve 3, []) ⟨[0, 0, 0, 0, 0, 0, 0, 0, 1, 2, 3, 4], 11, 12⟩ := ⟨rfl, trivial⟩
  have hgrown : restrict Succeeds P ⟨[0, 0, 0, 0, 0, 0, 0, 0, 1, 2, 3, 4], 11, 12⟩
      (append [5, 6, 7, 8], [])
      ⟨[0, 0, 0, 0, 0, 0, 0, 0, 1, 2, 3, 4, 5, 6, 7, 8], 11, 16⟩ :=
    ⟨rfl, Nat.le_refl 4, Nat.le_refl 1⟩
  exact capacity_bounded 4 4 1 _ _ (((Run.single hfilled).snoc hconsumed).snoc hgrown)

end BufferOp

end MuduoLite
