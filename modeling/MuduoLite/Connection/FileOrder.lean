import MuduoLite.Connection.SendPath

/-!
# The order of payloads and file ranges

`send` keeps what it could not write in the output buffer, `sendFile` keeps the
rest of its range in a functor that it queues again.  `sendFileInLoop` waits for
the output buffer; `sendInLoop` does not look for a queued file functor.

A run here is any sequence of `send` and `sendFile` calls on the loop thread of
a connected connection, `EPOLLOUT` events and runs of the oldest queued functor,
without write faults.  The list `pendingFunctors` stands for the rest of the
batch being run followed by the loop's queue, which is the order in which
`doPendingFunctors` runs them.

`Ordered` holds as long as every call that has bytes to send is made while no
queued functor has bytes left.  Then at most one functor has bytes left at any
time, so that putting it to the end of the queue reorders nothing.
-/

namespace MuduoLite

open Transition

namespace FileOrder

/-- The bytes of `[offset, offset + count)` in a file. -/
def fileRange (files : ℕ → List Byte) (fileDescriptor offset count : ℕ) : List Byte :=
  ((files fileDescriptor).drop offset).take count

/-- The bytes a queued functor will send. -/
def functorBytes (files : ℕ → List Byte) : Functor → List Byte
  | .sendInLoop data => data
  | .sendFileInLoop fileDescriptor offset count => fileRange files fileDescriptor offset count
  | _ => []

def queuedBytes (files : ℕ → List Byte) (queue : List Functor) : List Byte :=
  queue.flatMap (functorBytes files)

structure System where
  conn : ConnState
  /-- the payloads and file ranges of the calls so far, in order -/
  calls : List (List Byte) := []

inductive Label
  | send (data : List Byte) (result : IoResult)
  | sendFile (fileDescriptor offset count : ℕ) (result : IoResult)
  | handleWrite (result : IoResult)
  | runFunctor (result : IoResult)
  deriving DecidableEq, Repr

/-- The answers of a kernel without write faults to a request for `limit` bytes. -/
def Answers (limit : ℕ) (result : IoResult) : Prop := result.Fits limit ∧ result.isFault = false

def Step (files : ℕ → List Byte) (p : System) (label : Label) (q : System) : Prop :=
  match label with
  | .send data result => Answers data.length result ∧
      q = ⟨p.conn.send data result, p.calls ++ [data]⟩
  | .sendFile fileDescriptor offset count result =>
      Answers (fileRange files fileDescriptor offset count).length result ∧
        q = ⟨p.conn.sendFile fileDescriptor offset count result,
          p.calls ++ [fileRange files fileDescriptor offset count]⟩
  | .handleWrite result => Answers p.conn.output.length result ∧
      q = ⟨p.conn.handleWrite result, p.calls⟩
  | .runFunctor result => ∃ functor rest, p.conn.pendingFunctors = functor :: rest ∧
      Answers (functorBytes files functor).length result ∧
        q = ⟨{ p.conn with pendingFunctors := rest }.runFunctor functor result, p.calls⟩

/-- The bytes handed to the socket are a prefix of what was asked for, in call order. -/
def InOrder (files : ℕ → List Byte) (p : System) : Prop :=
  acceptedBytes files p.conn.effects <+: p.calls.flatten

/-- A call with bytes to send is made only while no queued functor has bytes left. -/
def NothingQueued (files : ℕ → List Byte) (p : System) : Label → Prop
  | .send data _ => data = [] ∨ queuedBytes files p.conn.pendingFunctors = []
  | .sendFile fileDescriptor offset count _ =>
      fileRange files fileDescriptor offset count = [] ∨
        queuedBytes files p.conn.pendingFunctors = []
  | _ => True

/-! ## Queues in which at most one functor has bytes left -/

/-- At most one functor of the queue has bytes left. -/
def AtMostOne (files : ℕ → List Byte) : List Functor → Prop
  | [] => True
  | functor :: rest =>
      (functorBytes files functor = [] ∨ queuedBytes files rest = []) ∧ AtMostOne files rest

section Queue

variable {files : ℕ → List Byte}

@[simp] theorem queuedBytes_append (first second : List Functor) :
    queuedBytes files (first ++ second) = queuedBytes files first ++ queuedBytes files second :=
  List.flatMap_append

@[simp] theorem queuedBytes_cons (functor : Functor) (rest : List Functor) :
    queuedBytes files (functor :: rest) = functorBytes files functor ++ queuedBytes files rest :=
  List.flatMap_cons

@[simp] theorem queuedBytes_nil : queuedBytes files [] = [] := rfl

theorem atMostOne_append_singleton {queue : List Functor} {functor : Functor}
    (h : AtMostOne files queue)
    (hfunctor : functorBytes files functor = [] ∨ queuedBytes files queue = []) :
    AtMostOne files (queue ++ [functor]) := by
  induction queue with
  | nil => exact ⟨.inr rfl, trivial⟩
  | cons head rest ih =>
      obtain ⟨hhead, hrest⟩ := h
      rw [queuedBytes_cons, List.append_eq_nil_iff] at hfunctor
      refine ⟨?_, ih hrest (hfunctor.imp id And.right)⟩
      change _ ∨ queuedBytes files (rest ++ [functor]) = []
      rw [queuedBytes_append, List.append_eq_nil_iff, queuedBytes_cons, queuedBytes_nil,
        List.append_nil]
      rcases hfunctor with hempty | hall
      · exact hhead.imp id fun h => ⟨h, hempty⟩
      · exact .inl hall.1

theorem fileRange_drop (fileDescriptor offset count n : ℕ) :
    fileRange files fileDescriptor (offset + n) (count - n) =
      (fileRange files fileDescriptor offset count).drop n := by
  unfold fileRange
  rw [List.drop_take, List.drop_drop]

theorem fileRange_take {fileDescriptor offset count n : ℕ} (hn : n ≤ count) :
    ((files fileDescriptor).drop offset).take n =
      (fileRange files fileDescriptor offset count).take n := by
  unfold fileRange
  rw [List.take_take, Nat.min_eq_left hn]

theorem length_fileRange_le (fileDescriptor offset count : ℕ) :
    (fileRange files fileDescriptor offset count).length ≤ count := by
  unfold fileRange
  rw [List.length_take]
  exact Nat.min_le_left _ _

/-- `t` has the queue of `s` with functors behind it that send nothing. -/
def Notifies (s t : ConnState) : Prop :=
  ∃ extra, t.pendingFunctors = s.pendingFunctors ++ extra ∧
    ∀ functor ∈ extra, ∀ files, functorBytes files functor = []

namespace Notifies

variable {s t u : ConnState}

theorem of_eq (h : t.pendingFunctors = s.pendingFunctors) : Notifies s t :=
  ⟨[], by simp [h], by simp⟩

theorem of_queueInLoop (functor : Functor) (h : ∀ files, functorBytes files functor = []) :
    Notifies s (s.queueInLoop functor) :=
  ⟨[functor], rfl, by simpa using h⟩

theorem trans (hst : Notifies s t) (htu : Notifies t u) : Notifies s u := by
  obtain ⟨first, hfirst, hfirst_empty⟩ := hst
  obtain ⟨second, hsecond, hsecond_empty⟩ := htu
  refine ⟨first ++ second, by rw [hsecond, hfirst, List.append_assoc], fun functor hmem => ?_⟩
  rcases List.mem_append.1 hmem with h | h
  · exact hfirst_empty functor h
  · exact hsecond_empty functor h

theorem queuedBytes_eq (h : Notifies s t) :
    queuedBytes files t.pendingFunctors = queuedBytes files s.pendingFunctors := by
  obtain ⟨extra, hqueue, hempty⟩ := h
  have hextra : queuedBytes files extra = [] :=
    List.flatMap_eq_nil_iff.2 fun functor hmem => hempty functor hmem files
  rw [hqueue, queuedBytes_append, hextra, List.append_nil]

theorem atMostOne (h : Notifies s t) (hqueue : AtMostOne files s.pendingFunctors) :
    AtMostOne files t.pendingFunctors := by
  obtain ⟨extra, heq, hempty⟩ := h
  rw [heq]
  clear heq
  induction extra using List.reverseRecOn with
  | nil => simpa using hqueue
  | append_singleton init last ih =>
      rw [← List.append_assoc]
      refine atMostOne_append_singleton (ih fun functor hmem => hempty functor ?_)
        (.inl (hempty last (by simp) files))
      exact List.mem_append_left _ hmem

theorem notifyWriteComplete (s : ConnState) : Notifies s s.notifyWriteComplete := by
  unfold ConnState.notifyWriteComplete
  split_ifs
  · exact of_queueInLoop _ fun _ => rfl
  · exact of_eq rfl

theorem appendRemaining (s : ConnState) (remaining : List Byte) :
    Notifies s (s.appendRemaining remaining) := by
  have hnotified (oldLen newLen : ℕ) : Notifies s (s.notifyHighWaterMark oldLen newLen) := by
    unfold ConnState.notifyHighWaterMark
    split_ifs
    · exact of_queueInLoop _ fun _ => rfl
    · exact of_eq rfl
  unfold ConnState.appendRemaining
  dsimp only
  split_ifs
  · exact of_eq rfl
  · exact (hnotified _ _).trans (of_eq rfl)
  · exact (hnotified _ _).trans (of_eq rfl)

theorem sendInLoop (s : ConnState) (data : List Byte) (result : IoResult) :
    Notifies s (s.sendInLoop data result) := by
  have hwrote : Notifies s (s.emit (.write data result)) := of_eq rfl
  unfold ConnState.sendInLoop
  cases result with
  | bytes n =>
      dsimp only
      split_ifs
      · exact hwrote.trans (notifyWriteComplete _)
      · exact hwrote.trans (appendRemaining _ _)
      · exact appendRemaining _ _
  | error errno =>
      dsimp only
      split_ifs
      · exact hwrote
      · exact hwrote.trans (appendRemaining _ _)
      · exact appendRemaining _ _

theorem shutdownInLoop (s : ConnState) : Notifies s s.shutdownInLoop := by
  unfold ConnState.shutdownInLoop
  split_ifs <;> exact of_eq rfl

theorem handleWrite (s : ConnState) (result : IoResult) : Notifies s (s.handleWrite result) := by
  have hfinish (t : ConnState) : Notifies t t.finishWriting := by
    have hnotified : Notifies t t.disableWriting.notifyWriteComplete :=
      (of_eq (s := t) (t := t.disableWriting) rfl).trans (notifyWriteComplete _)
    unfold ConnState.finishWriting
    dsimp only
    split_ifs
    · exact hnotified.trans (shutdownInLoop _)
    · exact hnotified
  unfold ConnState.handleWrite
  cases result with
  | bytes n =>
      dsimp only
      split_ifs
      · exact of_eq rfl
      · exact (of_eq rfl).trans (hfinish _)
      · exact of_eq rfl
      · exact of_eq rfl
  | error errno =>
      dsimp only
      split_ifs <;> exact of_eq rfl

end Notifies

theorem queuedBytes_requeueFile (s : ConnState) (fileDescriptor offset remaining : ℕ) :
    queuedBytes files (s.requeueFile fileDescriptor offset remaining).pendingFunctors =
      queuedBytes files s.pendingFunctors ++ fileRange files fileDescriptor offset remaining := by
  unfold ConnState.requeueFile
  split_ifs with hzero
  · simp [hzero, fileRange]
  · simp [functorBytes]

theorem atMostOne_requeueFile {s : ConnState} (h : AtMostOne files s.pendingFunctors)
    (fileDescriptor offset remaining : ℕ)
    (hone : fileRange files fileDescriptor offset remaining = [] ∨
      queuedBytes files s.pendingFunctors = []) :
    AtMostOne files (s.requeueFile fileDescriptor offset remaining).pendingFunctors := by
  unfold ConnState.requeueFile
  split_ifs
  · exact h
  · exact atMostOne_append_singleton h hone

end Queue

/-! ## The invariant -/

section Ordered

variable {files : ℕ → List Byte}

/-- What the kernel has taken, what waits in the buffer and what the queued
functors will send, in the order in which the code will hand it to the socket. -/
def stream (files : ℕ → List Byte) (s : ConnState) : List Byte :=
  acceptedBytes files s.effects ++ s.output ++ queuedBytes files s.pendingFunctors

structure Ordered (files : ℕ → List Byte) (p : System) : Prop where
  stream_eq : stream files p.conn = p.calls.flatten
  writing : p.conn.isWriting = true ↔ p.conn.output ≠ []
  atMostOne : AtMostOne files p.conn.pendingFunctors
  connected : p.conn.conn.state = .kConnected

theorem Ordered.inOrder {p : System} (h : Ordered files p) : InOrder files p := by
  rw [InOrder, ← h.stream_eq, stream, List.append_assoc]
  exact List.prefix_append _ _

theorem initial_ordered {s : ConnState} (hfresh : s.Fresh) (hqueue : s.pendingFunctors = []) :
    Ordered files ⟨s.connectEstablished, []⟩ := by
  have hstream : SendPath.Stream files ⟨s.connectEstablished, []⟩ := SendPath.initial_stream hfresh
  have hpending : s.connectEstablished.pendingFunctors = [] := hqueue
  refine ⟨?_, hstream.writing, ?_, rfl⟩
  · rw [stream, hstream.bytes, hpending]
    rfl
  · simp only [hpending, AtMostOne]

/-- A payload joins the stream at its end, when no functor has bytes left to send after it. -/
theorem stream_sendInLoop {s : ConnState} {data : List Byte} {result : IoResult}
    (hfault : result.isFault = false)
    (hone : data = [] ∨ queuedBytes files s.pendingFunctors = []) :
    stream files (s.sendInLoop data result) = stream files s ++ data := by
  have hkept : SendPath.drops s result = false := by simp [SendPath.drops, hfault]
  rw [stream, SendPath.bytes_sendInLoop, (Notifies.sendInLoop s data result).queuedBytes_eq, hkept,
    stream]
  rcases hone with hempty | hqueue
  · simp [hempty]
  · simp [hqueue]

theorem stream_handleWrite (s : ConnState) (result : IoResult) :
    stream files (s.handleWrite result) = stream files s := by
  rw [stream, SendPath.bytes_handleWrite, (Notifies.handleWrite s result).queuedBytes_eq, stream]

/-- What one attempt to send a file range does: the part the kernel takes moves
to the accepted bytes, the rest goes to the end of the queue. -/
structure FileAttempt (files : ℕ → List Byte) (s t : ConnState) (range : List Byte) : Prop where
  stream_eq : stream files t = stream files s ++ range
  output_eq : t.output = s.output
  isWriting_eq : t.isWriting = s.isWriting
  atMostOne : AtMostOne files t.pendingFunctors

theorem fileAttempt_requeueFile {s : ConnState} {fileDescriptor offset count : ℕ}
    (hone : fileRange files fileDescriptor offset count = [] ∨
      queuedBytes files s.pendingFunctors = [])
    (hqueue : AtMostOne files s.pendingFunctors) :
    FileAttempt files s (s.requeueFile fileDescriptor offset count)
      (fileRange files fileDescriptor offset count) where
  stream_eq := by
    have houtput : (s.requeueFile fileDescriptor offset count).output = s.output :=
      ConnState.output_congr (by simp)
    rw [stream, houtput, ConnState.requeueFile_acceptedBytes, queuedBytes_requeueFile, stream,
      List.append_assoc, List.append_assoc, List.append_assoc]
  output_eq := ConnState.output_congr (by simp)
  isWriting_eq := ConnState.isWriting_congr (by simp)
  atMostOne := atMostOne_requeueFile hqueue _ _ _ hone

/-- The kernel took `n` bytes of the range, the last of them or not. -/
theorem fileAttempt_sent {s : ConnState} {fileDescriptor offset count n : ℕ}
    (hidle : s.isIdle = true) (hn : n ≤ (fileRange files fileDescriptor offset count).length)
    (hone : fileRange files fileDescriptor offset count = [] ∨
      queuedBytes files s.pendingFunctors = [])
    (hqueue : AtMostOne files s.pendingFunctors) :
    let sent := s.emit (.sendfile fileDescriptor offset count (.bytes n))
    FileAttempt files s
      (if count - n = 0 then sent.notifyWriteComplete
        else sent.requeueFile fileDescriptor (offset + n) (count - n))
      (fileRange files fileDescriptor offset count) := by
  intro sent
  have houtput : s.output = [] := ((s.isIdle_iff).1 hidle).2
  have hcount : n ≤ count := hn.trans (length_fileRange_le _ _ _)
  have hsent : acceptedBytes files sent.effects =
      acceptedBytes files s.effects ++ (fileRange files fileDescriptor offset count).take n := by
    simp [sent, Effect.accepted, fileRange_take hcount]
  split_ifs with hdone
  · have htake : (fileRange files fileDescriptor offset count).take n =
        fileRange files fileDescriptor offset count :=
      List.take_of_length_le ((length_fileRange_le _ _ _).trans (by omega))
    have hnotified : Notifies s sent.notifyWriteComplete :=
      (Notifies.of_eq (t := sent) rfl).trans (Notifies.notifyWriteComplete sent)
    refine ⟨?_, by simp [sent], by simp [sent], hnotified.atMostOne hqueue⟩
    rw [stream, ConnState.notifyWriteComplete_acceptedBytes, hsent, htake, hnotified.queuedBytes_eq,
      stream, ConnState.notifyWriteComplete_output, ConnState.emit_output, houtput]
    rcases hone with hempty | hnone
    · simp [hempty]
    · simp [hnone]
  · have hrest : fileRange files fileDescriptor (offset + n) (count - n) =
        (fileRange files fileDescriptor offset count).drop n := fileRange_drop _ _ _ _
    have hone' : fileRange files fileDescriptor (offset + n) (count - n) = [] ∨
        queuedBytes files sent.pendingFunctors = [] := by
      refine hone.imp (fun hempty => ?_) id
      rw [hrest, hempty, List.drop_nil]
    obtain ⟨hstream, _, _, hat⟩ := fileAttempt_requeueFile (s := sent) hone' hqueue
    refine ⟨?_, ConnState.output_congr (by simp [sent]), ConnState.isWriting_congr (by simp [sent]),
      hat⟩
    have hsplit := List.take_append_drop n (fileRange files fileDescriptor offset count)
    rw [hstream, stream, hsent, hrest, stream, ConnState.emit_output, houtput]
    rcases hone with hempty | hnone
    · simp [hempty, sent]
    · simp [hnone, sent, hsplit]

theorem fileAttempt_sendFileInLoop {s : ConnState} {fileDescriptor offset count : ℕ}
    {result : IoResult} (hconnected : s.conn.state = .kConnected)
    (hanswers : Answers (fileRange files fileDescriptor offset count).length result)
    (hone : fileRange files fileDescriptor offset count = [] ∨
      queuedBytes files s.pendingFunctors = [])
    (hqueue : AtMostOne files s.pendingFunctors) :
    FileAttempt files s (s.sendFileInLoop fileDescriptor offset count result)
      (fileRange files fileDescriptor offset count) := by
  have hstate : ¬ s.conn.state = .kDisconnecting := by simp [hconnected]
  by_cases hidle : s.isIdle = true
  · cases result with
    | bytes n =>
        simp only [ConnState.sendFileInLoop, hstate, hidle, if_true, if_false]
        exact fileAttempt_sent hidle hanswers.1 hone hqueue
    | error errno =>
        -- nothing was sent, the range goes back to the queue as it is
        simp only [ConnState.sendFileInLoop, hstate, hidle, hanswers.2, if_true, if_false,
          Bool.false_eq_true]
        obtain ⟨hstream, houtput, hwriting, hat⟩ := fileAttempt_requeueFile
          (s := s.emit (.sendfile fileDescriptor offset count (.error errno))) hone hqueue
        refine ⟨hstream.trans ?_, houtput, hwriting, hat⟩
        simp [stream, Effect.accepted]
  · simp only [ConnState.sendFileInLoop, hstate, hidle, if_false, Bool.false_eq_true]
    exact fileAttempt_requeueFile hone hqueue

/-! ## Steps and runs -/

/-- A functor at the head of the queue sends its bytes from where they stand in the stream. -/
theorem runFunctor_ordered {s : ConnState} {calls : List (List Byte)} {functor : Functor}
    {rest : List Functor} {result : IoResult} (h : Ordered files ⟨s, calls⟩)
    (hpending : s.pendingFunctors = functor :: rest)
    (hanswers : Answers (functorBytes files functor).length result) :
    Ordered files ⟨{ s with pendingFunctors := rest }.runFunctor functor result, calls⟩ := by
  obtain ⟨hstream, hwriting, hat, hconnected⟩ := h
  simp only [hpending, AtMostOne] at hat
  obtain ⟨hone, hrest⟩ := hat
  let popped : ConnState := { s with pendingFunctors := rest }
  have hpopped : stream files popped ++ functorBytes files functor = calls.flatten := by
    rw [← hstream]
    simp only [stream, hpending, queuedBytes_cons]
    have houtput : popped.output = s.output := rfl
    rcases hone with hempty | hnone
    · simp [popped, houtput, hempty]
    · simp [popped, houtput, hnone]
  have hstate := (popped.traffic_runFunctor functor result).state_eq.trans hconnected
  change Ordered files ⟨popped.runFunctor functor result, calls⟩
  cases functor with
  | writeComplete => exact ⟨(List.append_nil _).symm.trans hpopped, hwriting, hrest, hstate⟩
  | highWaterMark size => exact ⟨(List.append_nil _).symm.trans hpopped, hwriting, hrest, hstate⟩
  | sendInLoop data =>
      exact ⟨(stream_sendInLoop hanswers.2 hone).trans hpopped,
        SendPath.writing_sendInLoop data result hwriting,
        (Notifies.sendInLoop popped data result).atMostOne hrest, hstate⟩
  | sendFileInLoop fileDescriptor offset count =>
      have hattempt := fileAttempt_sendFileInLoop (s := popped) hconnected hanswers hone hrest
      refine ⟨hattempt.stream_eq.trans hpopped, ?_, hattempt.atMostOne, hstate⟩
      change (popped.sendFileInLoop _ _ _ _).isWriting = true ↔
        (popped.sendFileInLoop _ _ _ _).output ≠ []
      rw [hattempt.isWriting_eq, hattempt.output_eq]
      exact hwriting
  | shutdownInLoop =>
      have hnotifies := Notifies.shutdownInLoop popped
      have hstream_popped : stream files popped.shutdownInLoop = stream files popped := by
        simp [stream, hnotifies.queuedBytes_eq]
      refine ⟨hstream_popped.trans ((List.append_nil _).symm.trans hpopped), ?_,
        hnotifies.atMostOne hrest, hstate⟩
      change popped.shutdownInLoop.isWriting = true ↔ popped.shutdownInLoop.output ≠ []
      rw [ConnState.shutdownInLoop_isWriting, ConnState.shutdownInLoop_output]
      exact hwriting

theorem ordered_step {p q : System} {label : Label} (h : Ordered files p)
    (hstep : restrict (Step files) (NothingQueued files) p label q) : Ordered files q := by
  obtain ⟨hstep, hnothing⟩ := hstep
  obtain ⟨s, calls⟩ := p
  have hconnected : s.conn.state = .kConnected := h.connected
  cases label with
  | send data result =>
      obtain ⟨hanswers, rfl⟩ := hstep
      simp only [ConnState.send, hconnected, if_true]
      refine ⟨?_, SendPath.writing_sendInLoop data result h.writing,
        (Notifies.sendInLoop s data result).atMostOne h.atMostOne,
        (s.traffic_sendInLoop data result).state_eq.trans hconnected⟩
      have hstream : stream files s = calls.flatten := h.stream_eq
      simp [stream_sendInLoop hanswers.2 hnothing, hstream]
  | sendFile fileDescriptor offset count result =>
      obtain ⟨hanswers, rfl⟩ := hstep
      simp only [ConnState.sendFile, hconnected, if_true]
      have hattempt := fileAttempt_sendFileInLoop hconnected hanswers hnothing h.atMostOne
      refine ⟨?_, ?_, hattempt.atMostOne,
        (s.traffic_sendFileInLoop _ _ _ result).state_eq.trans hconnected⟩
      · have hstream : stream files s = calls.flatten := h.stream_eq
        simp [hattempt.stream_eq, hstream]
      · rw [hattempt.isWriting_eq, hattempt.output_eq]
        exact h.writing
  | handleWrite result =>
      obtain ⟨_, rfl⟩ := hstep
      exact ⟨(stream_handleWrite s result).trans h.stream_eq,
        SendPath.writing_handleWrite result h.writing,
        (Notifies.handleWrite s result).atMostOne h.atMostOne,
        (s.traffic_handleWrite result).state_eq.trans hconnected⟩
  | runFunctor result =>
      obtain ⟨functor, rest, hpending, hanswers, rfl⟩ := hstep
      exact runFunctor_ordered h hpending hanswers

end Ordered

/-- While every call with bytes to send is made with no bytes left in queued
functors, what the socket was handed is a prefix of the payloads and file ranges
in call order. -/
theorem file_order (files : ℕ → List Byte) (s : ConnState) (hfresh : s.Fresh)
    (hqueue : s.pendingFunctors = []) (labels : List Label) (p : System)
    (hrun : Run (restrict (Step files) (NothingQueued files)) ⟨s.connectEstablished, []⟩ labels p) :
    InOrder files p :=
  (hrun.invariant (initial_ordered hfresh hqueue) fun _ _ _ => ordered_step).inOrder

/-- A file of four bytes. -/
def fourBytes : ℕ → List Byte := fun _ => [1, 2, 3, 4]

/-- The kernel takes half of a file behind a payload, the queued functor sends the rest. -/
theorem file_order_resumed :
    let partway := (SendPath.fresh.connectEstablished.send [9] (.bytes 1)).sendFile 0 0 4 (.bytes 2)
    InOrder fourBytes ⟨{ partway with pendingFunctors := [] }.runFunctor (.sendFileInLoop 0 2 2)
      (.bytes 2), [[9], [1, 2, 3, 4]]⟩ := by
  intro partway
  have hsend : restrict (Step fourBytes) (NothingQueued fourBytes)
      ⟨SendPath.fresh.connectEstablished, []⟩ (.send [9] (.bytes 1))
      ⟨SendPath.fresh.connectEstablished.send [9] (.bytes 1), [[9]]⟩ :=
    ⟨⟨⟨Nat.le_refl 1, rfl⟩, rfl⟩, .inr rfl⟩
  have hfile : restrict (Step fourBytes) (NothingQueued fourBytes)
      ⟨SendPath.fresh.connectEstablished.send [9] (.bytes 1), [[9]]⟩ (.sendFile 0 0 4 (.bytes 2))
      ⟨partway, [[9], [1, 2, 3, 4]]⟩ :=
    ⟨⟨⟨Nat.le_add_left 2 2, rfl⟩, rfl⟩, .inr rfl⟩
  have hresume : restrict (Step fourBytes) (NothingQueued fourBytes)
      ⟨partway, [[9], [1, 2, 3, 4]]⟩ (.runFunctor (.bytes 2))
      ⟨{ partway with pendingFunctors := [] }.runFunctor (.sendFileInLoop 0 2 2) (.bytes 2),
        [[9], [1, 2, 3, 4]]⟩ :=
    ⟨⟨.sendFileInLoop 0 2 2, [], rfl, ⟨Nat.le_refl 2, rfl⟩, rfl⟩, trivial⟩
  exact file_order fourBytes SendPath.fresh SendPath.fresh_fresh rfl _ _
    (((Run.single hsend).snoc hfile).snoc hresume)

/-- The kernel takes two bytes of a file, the rest waits in a functor.  A payload
sent now goes to the socket before it. -/
theorem send_overtakes_file :
    ¬ ∀ (files : ℕ → List Byte) (s : ConnState) (labels : List Label) (p : System), s.Fresh →
      s.pendingFunctors = [] → Run (Step files) ⟨s.connectEstablished, []⟩ labels p →
      InOrder files p := by
  intro hclaim
  let partway := SendPath.fresh.connectEstablished.sendFile 0 0 4 (.bytes 2)
  have hfile : Step fourBytes ⟨SendPath.fresh.connectEstablished, []⟩ (.sendFile 0 0 4 (.bytes 2))
      ⟨partway, [[1, 2, 3, 4]]⟩ := ⟨⟨Nat.le_add_left 2 2, rfl⟩, rfl⟩
  have hsend : Step fourBytes ⟨partway, [[1, 2, 3, 4]]⟩ (.send [9] (.bytes 1))
      ⟨partway.send [9] (.bytes 1), [[1, 2, 3, 4], [9]]⟩ := ⟨⟨Nat.le_refl 1, rfl⟩, rfl⟩
  have hprefix := hclaim fourBytes SendPath.fresh _ _ SendPath.fresh_fresh rfl
    ((Run.single hfile).snoc hsend)
  have haccepted : acceptedBytes fourBytes (partway.send [9] (.bytes 1)).effects = [1, 2, 9] := by
    decide
  rw [InOrder, haccepted] at hprefix
  revert hprefix
  decide

end FileOrder

end MuduoLite
