import MuduoLite.Connection.Effects
import MuduoLite.Connection.FileOrder

/-!
# When `writeCompleteCallback_` is queued

The callback is queued from three places: from `sendInLoop`, from `sendFileInLoop` and
from `handleWrite`.  Each of them looks at its own remainder, and finds the buffer empty.
None looks at the functors in the queue of the loop, where the rest of a file range may
wait.

The runs are those of the order of payloads and file ranges, without its condition on the
calls.  In all of them the bytes that the kernel has taken, those in the buffer and those
of the functors are the bytes of the calls, in some order (`Accounted`).  So everything
has been handed over exactly when buffer and queue have no bytes left.
-/

namespace MuduoLite

open Transition
open scoped List

namespace WriteComplete

open FileOrder

/-- The kernel has taken every byte of every call. -/
def AllHanded (files : ℕ → List Byte) (p : System) : Prop :=
  acceptedBytes files p.conn.effects ~ p.calls.flatten

/-- How often `writeCompleteCallback_` was queued. -/
def completions (s : ConnState) : ℕ := s.occurrences (.queued .writeComplete)

/-- The functors that stay in the queue during the step. -/
def waiting (p : System) : Label → List Functor
  | .runFunctor _ => p.conn.pendingFunctors.tail
  | _ => p.conn.pendingFunctors

/-! ## What queues the callback -/

section Completions

variable {s t u : ConnState}

/-- The callback is not queued from `s` to `t`. -/
def Quiet (s t : ConnState) : Prop := ConnState.Emits (· ≠ .queued .writeComplete) s t

theorem Quiet.completions_eq (h : Quiet s t) : completions t = completions s :=
  h.occurrences_eq fun hnot => hnot rfl

theorem Quiet.of_eq (h : t.effects = s.effects) : Quiet s t := ConnState.Emits.of_eq h

theorem Quiet.trans (hst : Quiet s t) (htu : Quiet t u) : Quiet s u :=
  ConnState.Emits.trans hst htu

theorem quiet_emit (s : ConnState) {effect : Effect} (heffect : effect ≠ .queued .writeComplete) :
    Quiet s (s.emit effect) := .emit heffect

theorem quiet_requeueFile (s : ConnState) (fileDescriptor offset count : ℕ) :
    Quiet s (s.requeueFile fileDescriptor offset count) := by
  unfold ConnState.requeueFile
  split_ifs
  · exact .of_eq rfl
  · exact .queueInLoop (by simp)

theorem quiet_appendRemaining (s : ConnState) (remaining : List Byte) :
    Quiet s (s.appendRemaining remaining) := by
  have hnotified (oldLen newLen : ℕ) : Quiet s (s.notifyHighWaterMark oldLen newLen) := by
    unfold ConnState.notifyHighWaterMark
    split_ifs
    · exact .queueInLoop (by simp)
    · exact .of_eq rfl
  unfold ConnState.appendRemaining
  dsimp only
  split_ifs
  · exact .of_eq rfl
  · exact (hnotified _ _).trans (.of_eq rfl)
  · exact (hnotified _ _).trans (.of_eq rfl)

theorem quiet_shutdownInLoop (s : ConnState) : Quiet s s.shutdownInLoop :=
  s.emits_shutdownInLoop.mono fun _ heffect => by simp [heffect]

/-- `sendInLoop` has nothing to wait for when it queues the callback. -/
theorem completions_sendInLoop (s : ConnState) (data : List Byte) (result : IoResult) :
    completions (s.sendInLoop data result) = completions s ∨
      (s.sendInLoop data result).output = [] := by
  have hwrote : Quiet s (s.emit (.write data result)) := quiet_emit s (by simp)
  by_cases hidle : s.isIdle = true
  · have hempty : s.output = [] := ((s.isIdle_iff).1 hidle).2
    cases result with
    | bytes n =>
        simp only [ConnState.sendInLoop, hidle, if_true]
        split_ifs
        · exact .inr (by simp [hempty])
        · exact .inl (hwrote.trans (quiet_appendRemaining _ _)).completions_eq
    | error errno =>
        simp only [ConnState.sendInLoop, hidle, if_true]
        split_ifs
        · exact .inl hwrote.completions_eq
        · exact .inl (hwrote.trans (quiet_appendRemaining _ _)).completions_eq
  · simp only [ConnState.sendInLoop, hidle, if_false, Bool.false_eq_true]
    exact .inl (quiet_appendRemaining _ _).completions_eq

/-- `handleWrite` queues the callback when it has written the last byte of the buffer. -/
theorem completions_handleWrite (s : ConnState) (result : IoResult) :
    completions (s.handleWrite result) = completions s ∨ (s.handleWrite result).output = [] := by
  have hwrote : Quiet s (s.emit (.write s.conn.outputBuffer.readable result)) :=
    quiet_emit s (by simp)
  unfold ConnState.handleWrite
  cases result with
  | bytes n =>
      dsimp only
      split_ifs with hwriting hzero hdrained
      · exact .inl hwrote.completions_eq
      · refine .inr ?_
        rw [ConnState.finishWriting_output, ConnState.setOutput_output]
        simpa [Nat.sub_eq_zero_iff_le] using hdrained
      · exact .inl (hwrote.trans (.of_eq rfl)).completions_eq
      · exact .inl rfl
  | error errno =>
      dsimp only
      split_ifs
      · exact .inl hwrote.completions_eq
      · exact .inl rfl

end Completions

/-! ## What becomes of the bytes -/

section Sent

variable {files : ℕ → List Byte} {s t : ConnState}

/-- From `s` to `t` the connection takes over `data`: it writes some of these bytes and
keeps the others, and it queues the callback only if it has kept none of them or of those
in the buffer. -/
structure TakesOver (files : ℕ → List Byte) (s t : ConnState) (data : List Byte) : Prop where
  stream_perm : stream files t ~ stream files s ++ data
  writing : (s.isWriting = true ↔ s.output ≠ []) → (t.isWriting = true ↔ t.output ≠ [])
  connected : t.conn.state = s.conn.state
  completions_eq : completions t = completions s ∨ t.output = [] ∧
    queuedBytes files t.pendingFunctors = queuedBytes files s.pendingFunctors

theorem takesOver_refl (s : ConnState) : TakesOver files s s [] where
  stream_perm := by rw [List.append_nil]
  writing := id
  connected := rfl
  completions_eq := .inl rfl

theorem takesOver_sendInLoop (s : ConnState) (data : List Byte) {result : IoResult}
    (hanswers : Answers data.length result) :
    TakesOver files s (s.sendInLoop data result) data where
  stream_perm := by
    have hkept : SendPath.drops s result = false := by simp [SendPath.drops, hanswers.2]
    calc
      stream files (s.sendInLoop data result)
          = acceptedBytes files s.effects ++ s.output ++ data ++
            queuedBytes files s.pendingFunctors := by
        rw [stream, SendPath.bytes_sendInLoop, hkept, if_neg Bool.false_ne_true,
          (Notifies.sendInLoop s data result).queuedBytes_eq]
      _ ~ stream files s ++ data := by
        rw [stream, List.append_assoc _ data,
          List.append_assoc _ (queuedBytes files s.pendingFunctors)]
        exact List.perm_append_comm.append_left _
  writing := SendPath.writing_sendInLoop data result
  connected := (s.traffic_sendInLoop data result).state_eq
  completions_eq := (completions_sendInLoop s data result).imp id fun hempty =>
    ⟨hempty, (Notifies.sendInLoop s data result).queuedBytes_eq⟩

theorem takesOver_handleWrite (s : ConnState) (result : IoResult) :
    TakesOver files s (s.handleWrite result) [] where
  stream_perm := by rw [stream_handleWrite, List.append_nil]
  writing := SendPath.writing_handleWrite result
  connected := (s.traffic_handleWrite result).state_eq
  completions_eq := (completions_handleWrite s result).imp id fun hempty =>
    ⟨hempty, (Notifies.handleWrite s result).queuedBytes_eq⟩

theorem takesOver_shutdownInLoop (s : ConnState) : TakesOver files s s.shutdownInLoop [] where
  stream_perm := by
    rw [stream, (Notifies.shutdownInLoop s).queuedBytes_eq, ConnState.shutdownInLoop_output,
      ConnState.shutdownInLoop_acceptedBytes, List.append_nil, stream]
  writing := by
    rw [ConnState.shutdownInLoop_isWriting, ConnState.shutdownInLoop_output]
    exact id
  connected := (s.traffic_shutdownInLoop).state_eq
  completions_eq := .inl (quiet_shutdownInLoop s).completions_eq

/-- The kernel takes a part of the range, the rest of it joins the queue. -/
theorem takesOver_of_split {range : List Byte} {m : ℕ} (hconn : t.conn = s.conn)
    (haccepted : acceptedBytes files t.effects = acceptedBytes files s.effects ++ range.take m)
    (hqueued : queuedBytes files t.pendingFunctors =
      queuedBytes files s.pendingFunctors ++ range.drop m)
    (hcompletions : completions t = completions s ∨ s.output = [] ∧ range.drop m = []) :
    TakesOver files s t range := by
  have houtput : t.output = s.output := ConnState.output_congr hconn
  refine ⟨?_, ?_, by rw [hconn], ?_⟩
  · calc
      stream files t = acceptedBytes files s.effects ++ range.take m ++ s.output ++
          (queuedBytes files s.pendingFunctors ++ range.drop m) := by
        rw [stream, haccepted, houtput, hqueued]
      _ = acceptedBytes files s.effects ++ (range.take m ++
          (s.output ++ queuedBytes files s.pendingFunctors) ++ range.drop m) := by
        simp only [List.append_assoc]
      _ ~ acceptedBytes files s.effects ++ ((s.output ++ queuedBytes files s.pendingFunctors) ++
          range.take m ++ range.drop m) :=
        (List.perm_append_comm.append_right _).append_left _
      _ = stream files s ++ range := by
        rw [List.append_assoc _ (range.take m), List.take_append_drop, ← List.append_assoc,
          ← List.append_assoc, stream]
  · rw [houtput, ConnState.isWriting_congr hconn]
    exact id
  · refine hcompletions.imp id fun hall => ⟨houtput.trans hall.1, ?_⟩
    rw [hqueued, hall.2, List.append_nil]

theorem takesOver_sendFileInLoop (hconnected : s.conn.state = .kConnected)
    (fileDescriptor offset count : ℕ) {result : IoResult}
    (hanswers : Answers (fileRange files fileDescriptor offset count).length result) :
    TakesOver files s (s.sendFileInLoop fileDescriptor offset count result)
      (fileRange files fileDescriptor offset count) := by
  have hstate : ¬ s.conn.state = .kDisconnecting := by simp [hconnected]
  have hconn := s.sendFileInLoop_conn fileDescriptor offset count result
  by_cases hidle : s.isIdle = true
  · cases result with
    | bytes n =>
        have hle : n ≤ count := hanswers.1.trans (length_fileRange_le _ _ _)
        have hempty : s.output = [] := ((s.isIdle_iff).1 hidle).2
        simp only [ConnState.sendFileInLoop, hstate, hidle, if_true, if_false] at hconn ⊢
        split_ifs at hconn ⊢ with hdone
        · have hall : (fileRange files fileDescriptor offset count).drop n = [] :=
            List.drop_of_length_le ((length_fileRange_le _ _ _).trans (by omega))
          refine takesOver_of_split (m := n) hconn ?_ ?_ (.inr ⟨hempty, hall⟩)
          · simp [Effect.accepted, fileRange_take hle]
          · rw [(Notifies.notifyWriteComplete _).queuedBytes_eq, hall, List.append_nil]
            rfl
        · refine takesOver_of_split (m := n) hconn ?_ ?_ (.inl ?_)
          · simp [Effect.accepted, fileRange_take hle]
          · rw [queuedBytes_requeueFile, fileRange_drop]
            rfl
          · exact ((quiet_emit s (by simp)).trans (quiet_requeueFile _ _ _ _)).completions_eq
    | error errno =>
        simp only [ConnState.sendFileInLoop, hstate, hidle, hanswers.2, if_true, if_false,
          Bool.false_eq_true] at hconn ⊢
        refine takesOver_of_split (m := 0) hconn ?_ ?_ (.inl ?_)
        · simp [Effect.accepted]
        · rw [queuedBytes_requeueFile]
          rfl
        · exact ((quiet_emit s (by simp)).trans (quiet_requeueFile _ _ _ _)).completions_eq
  · simp only [ConnState.sendFileInLoop, hstate, hidle, if_false, Bool.false_eq_true] at hconn ⊢
    refine takesOver_of_split (m := 0) hconn ?_ ?_ (.inl ?_)
    · simp
    · rw [queuedBytes_requeueFile]
      rfl
    · exact (quiet_requeueFile _ _ _ _).completions_eq

end Sent

/-! ## Steps and runs -/

section Accounted

variable {files : ℕ → List Byte} {p q : System} {label : Label}

/-- The bytes of the calls have been taken, or wait in the buffer or in a functor. -/
structure Accounted (files : ℕ → List Byte) (p : System) : Prop where
  stream_perm : stream files p.conn ~ p.calls.flatten
  writing : p.conn.isWriting = true ↔ p.conn.output ≠ []
  connected : p.conn.conn.state = .kConnected

theorem initial_accounted {s : ConnState} (hfresh : s.Fresh) (hqueue : s.pendingFunctors = []) :
    Accounted files ⟨s.connectEstablished, []⟩ := by
  have h : Ordered files ⟨s.connectEstablished, []⟩ := initial_ordered hfresh hqueue
  exact ⟨.of_eq h.stream_eq, h.writing, h.connected⟩

/-- Everything has been taken when nothing waits. -/
theorem Accounted.allHanded_iff (h : Accounted files p) : AllHanded files p ↔
    p.conn.output = [] ∧ queuedBytes files p.conn.pendingFunctors = [] := by
  have hperm : acceptedBytes files p.conn.effects ++ p.conn.output ++
      queuedBytes files p.conn.pendingFunctors ~ p.calls.flatten := h.stream_perm
  constructor
  · intro hall
    have hlength := hperm.length_eq.trans hall.length_eq.symm
    rw [List.length_append, List.length_append] at hlength
    exact ⟨List.length_eq_zero_iff.1 (by omega), List.length_eq_zero_iff.1 (by omega)⟩
  · rintro ⟨houtput, hqueued⟩
    rwa [houtput, hqueued, List.append_nil, List.append_nil] at hperm

/-- Every step takes over the bytes of its call or of its functor. -/
theorem exists_takesOver (h : Accounted files p) (hstep : Step files p label q) :
    ∃ s data, TakesOver files s q.conn data ∧ s.conn = p.conn.conn ∧
      completions s = completions p.conn ∧ s.pendingFunctors = waiting p label ∧
      (stream files p.conn ~ p.calls.flatten → stream files s ++ data ~ q.calls.flatten) := by
  obtain ⟨s, calls⟩ := p
  have hconnected : s.conn.state = .kConnected := h.connected
  cases label with
  | send data result =>
      obtain ⟨hanswers, rfl⟩ := hstep
      refine ⟨s, data, ?_, rfl, rfl, rfl, fun hperm => ?_⟩
      · simp only [ConnState.send, hconnected, if_true]
        exact takesOver_sendInLoop s data hanswers
      · simpa using hperm.append_right data
  | sendFile fileDescriptor offset count result =>
      obtain ⟨hanswers, rfl⟩ := hstep
      refine ⟨s, fileRange files fileDescriptor offset count, ?_, rfl, rfl, rfl, fun hperm => ?_⟩
      · simp only [ConnState.sendFile, hconnected, if_true]
        exact takesOver_sendFileInLoop hconnected fileDescriptor offset count hanswers
      · simpa using hperm.append_right (fileRange files fileDescriptor offset count)
  | handleWrite result =>
      obtain ⟨-, rfl⟩ := hstep
      exact ⟨s, [], takesOver_handleWrite s result, rfl, rfl, rfl,
        fun hperm => by rwa [List.append_nil]⟩
  | runFunctor result =>
      obtain ⟨functor, rest, hpending, hanswers, rfl⟩ := hstep
      have hpending : s.pendingFunctors = functor :: rest := hpending
      let popped : ConnState := { s with pendingFunctors := rest }
      -- what the functor held is now the data
      have hpopped : stream files s ~ calls.flatten →
          stream files popped ++ functorBytes files functor ~ calls.flatten := by
        intro hperm
        refine List.Perm.trans ?_ hperm
        rw [stream, stream, hpending, queuedBytes_cons, List.append_assoc]
        exact List.perm_append_comm.append_left _
      refine ⟨popped, functorBytes files functor, ?_, rfl, rfl, ?_, hpopped⟩
      · cases functor with
        | writeComplete => exact takesOver_refl popped
        | highWaterMark size => exact takesOver_refl popped
        | sendInLoop data => exact takesOver_sendInLoop popped data hanswers
        | sendFileInLoop fileDescriptor offset count =>
            exact takesOver_sendFileInLoop (s := popped) hconnected _ _ _ hanswers
        | shutdownInLoop => exact takesOver_shutdownInLoop popped
      · rw [waiting, hpending]
        rfl

theorem accounted_step (h : Accounted files p) (hstep : Step files p label q) :
    Accounted files q := by
  obtain ⟨s, data, htakes, hconn, -, -, hperm⟩ := exists_takesOver h hstep
  refine ⟨htakes.stream_perm.trans (hperm h.stream_perm), htakes.writing ?_, ?_⟩
  · rw [ConnState.isWriting_congr hconn, ConnState.output_congr hconn]
    exact h.writing
  · rw [htakes.connected, hconn, h.connected]

end Accounted

/-- In every run of a connection, a step that queues `writeCompleteCallback_` is one after
which all bytes have been handed to the kernel exactly when no functor but the one that
the step may have run has bytes left. -/
theorem write_complete_sound (files : ℕ → List Byte) (s : ConnState) (hfresh : s.Fresh)
    (hqueue : s.pendingFunctors = []) (labels : List Label) (label : Label) (p q : System)
    (hrun : Run (Step files) ⟨s.connectEstablished, []⟩ labels p) (hstep : Step files p label q)
    (hnotified : completions p.conn < completions q.conn) :
    AllHanded files q ↔ queuedBytes files (waiting p label) = [] := by
  have h : Accounted files p :=
    hrun.invariant (initial_accounted hfresh hqueue) fun _ _ _ => accounted_step
  obtain ⟨s, data, htakes, -, hcompletions, hpending, -⟩ := exists_takesOver h hstep
  obtain ⟨houtput, hqueued⟩ :=
    htakes.completions_eq.resolve_left fun heq => (hcompletions ▸ heq ▸ hnotified).ne rfl
  rw [(accounted_step h hstep).allHanded_iff, hqueued, hpending]
  exact and_iff_right houtput

/-- The kernel takes half of a file, whose rest waits in a functor, then all of a payload, and
then the rest of the file: the callback is queued by the second and by the last. -/
theorem write_complete_sound_direct :
    let partway := SendPath.reporting.connectEstablished.sendFile 0 0 4 (.bytes 2)
    let sent := partway.send [9] (.bytes 1)
    let resumed := { sent with pendingFunctors := sent.pendingFunctors.tail }.sendFileInLoop 0 2 2
      (.bytes 2)
    ¬ AllHanded fourBytes ⟨sent, [[1, 2, 3, 4], [9]]⟩ ∧
      AllHanded fourBytes ⟨resumed, [[1, 2, 3, 4], [9]]⟩ := by
  intro partway sent resumed
  have hfile : Step fourBytes ⟨SendPath.reporting.connectEstablished, []⟩
      (.sendFile 0 0 4 (.bytes 2)) ⟨partway, [[1, 2, 3, 4]]⟩ := ⟨⟨Nat.le_add_left 2 2, rfl⟩, rfl⟩
  have hsend : Step fourBytes ⟨partway, [[1, 2, 3, 4]]⟩ (.send [9] (.bytes 1))
      ⟨sent, [[1, 2, 3, 4], [9]]⟩ := ⟨⟨Nat.le_refl 1, rfl⟩, rfl⟩
  have hresume : Step fourBytes ⟨sent, [[1, 2, 3, 4], [9]]⟩ (.runFunctor (.bytes 2))
      ⟨resumed, [[1, 2, 3, 4], [9]]⟩ :=
    ⟨.sendFileInLoop 0 2 2, _, by decide, ⟨Nat.le_refl 2, rfl⟩, rfl⟩
  constructor
  · rw [write_complete_sound fourBytes _ SendPath.reporting_fresh rfl _ _ _ _ (Run.single hfile)
      hsend (by decide)]
    decide
  · exact (write_complete_sound fourBytes _ SendPath.reporting_fresh rfl _ _ _ _
      ((Run.single hfile).snoc hsend) hresume (by decide)).2 (by decide)

/-- The kernel takes half of a file, whose rest waits in a functor, and then all of a
payload: the callback is queued. -/
theorem write_complete_early :
    ¬ ∀ (files : ℕ → List Byte) (s : ConnState) (labels : List Label) (label : Label)
      (p q : System), s.Fresh → s.pendingFunctors = [] →
      Run (Step files) ⟨s.connectEstablished, []⟩ labels p → Step files p label q →
      completions p.conn < completions q.conn → AllHanded files q := by
  intro hclaim
  let partway := SendPath.reporting.connectEstablished.sendFile 0 0 4 (.bytes 2)
  have hfile : Step fourBytes ⟨SendPath.reporting.connectEstablished, []⟩
      (.sendFile 0 0 4 (.bytes 2)) ⟨partway, [[1, 2, 3, 4]]⟩ := ⟨⟨Nat.le_add_left 2 2, rfl⟩, rfl⟩
  have hsend : Step fourBytes ⟨partway, [[1, 2, 3, 4]]⟩ (.send [9] (.bytes 1))
      ⟨partway.send [9] (.bytes 1), [[1, 2, 3, 4], [9]]⟩ := ⟨⟨Nat.le_refl 1, rfl⟩, rfl⟩
  have hall := hclaim fourBytes _ _ _ _ _ SendPath.reporting_fresh rfl (Run.single hfile) hsend
    (by decide)
  have haccepted : acceptedBytes fourBytes (partway.send [9] (.bytes 1)).effects = [1, 2, 9] := by
    decide
  rw [AllHanded, haccepted] at hall
  exact absurd hall.length_eq (by decide)

end WriteComplete

end MuduoLite
