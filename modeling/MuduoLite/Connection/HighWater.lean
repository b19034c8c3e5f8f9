import MuduoLite.Connection.Effects
import MuduoLite.Library.Crossings

/-!
# Holding back a sender

A user that sends faster than the socket takes the bytes is told so twice: when the buffer
reaches `highWaterMark_` from below, and when it has been written out.  Between the two the
user should hold back.

The first is queued at every crossing of the mark and at no other time, with the length of
the buffer.  The second is never missing: while a user holds back, bytes wait in the buffer,
and the write that takes the last of them queues `writeCompleteCallback_`.  This holds in
any order of calls, with sends and file ranges mixed, and whatever the kernel answers.
-/

namespace MuduoLite

open Crossings

/-- The size that a queued `highWaterMarkCallback_` reports. -/
def Effect.highWater? : Effect → Option ℕ
  | .queued (.highWaterMark size) => some size
  | _ => none

namespace ConnState

/-! ## Notifications -/

/-- The sizes reported by `highWaterMarkCallback_`, in the order in which it was queued. -/
def notifications (s : ConnState) : List ℕ := s.effects.filterMap Effect.highWater?

/-- The lengths of the buffer before, between and after the calls. -/
def levels (s : ConnState) : List LoopCall → List ℕ
  | [] => [s.output.length]
  | call :: rest => s.output.length :: levels (s.call call) rest

/-- The callback stays, and is queued from `s` to `t` if the buffer reaches the mark. -/
structure Announces (s t : ConnState) : Prop where
  callback_eq : t.conn.highWaterMarkCallback = s.conn.highWaterMarkCallback
  mark_eq : t.conn.highWaterMark = s.conn.highWaterMark
  notifications_eq : s.conn.highWaterMarkCallback = true → t.notifications = s.notifications ++
    if s.output.length < s.conn.highWaterMark ∧ s.conn.highWaterMark ≤ t.output.length then
      [t.output.length] else []

/-- From `s` to `t` nothing is put into the buffer. -/
structure Drains (s t : ConnState) : Prop where
  callback_eq : t.conn.highWaterMarkCallback = s.conn.highWaterMarkCallback
  mark_eq : t.conn.highWaterMark = s.conn.highWaterMark
  length_le : t.output.length ≤ s.output.length
  emits : Emits (fun effect => effect.highWater? = none) s t

namespace Drains

variable {s t u : ConnState}

theorem of_conn (hconn : t.conn = s.conn)
    (hemits : Emits (fun effect => effect.highWater? = none) s t) : Drains s t :=
  ⟨by rw [hconn], by rw [hconn], (congrArg List.length (output_congr hconn)).le, hemits⟩

theorem emit (s : ConnState) {effect : Effect} (h : effect.highWater? = none) :
    Drains s (s.emit effect) := .of_conn rfl (.emit h)

theorem trans (hst : Drains s t) (htu : Drains t u) : Drains s u :=
  ⟨htu.callback_eq.trans hst.callback_eq, htu.mark_eq.trans hst.mark_eq,
    htu.length_le.trans hst.length_le, hst.emits.trans htu.emits⟩

theorem notifications_eq (h : Drains s t) : t.notifications = s.notifications := by
  obtain ⟨since, hsince, hnone⟩ := h.emits
  have hempty : since.filterMap Effect.highWater? = [] := List.filterMap_eq_nil_iff.2 hnone
  rw [notifications, hsince, List.filterMap_append, hempty, List.append_nil]
  rfl

theorem announces (h : Drains s t) : Announces s t where
  callback_eq := h.callback_eq
  mark_eq := h.mark_eq
  notifications_eq := by
    intro _
    have hnot : ¬ (s.output.length < s.conn.highWaterMark ∧
        s.conn.highWaterMark ≤ t.output.length) := fun hcross =>
      absurd (hcross.2.trans h.length_le) (not_le.2 hcross.1)
    rw [if_neg hnot, List.append_nil, h.notifications_eq]

end Drains

theorem drains_notifyWriteComplete (s : ConnState) : Drains s s.notifyWriteComplete := by
  refine .of_conn (by simp) ?_
  unfold notifyWriteComplete
  split_ifs
  · exact .queueInLoop rfl
  · exact .of_eq rfl

theorem drains_requeueFile (s : ConnState) (fileDescriptor offset remaining : ℕ) :
    Drains s (s.requeueFile fileDescriptor offset remaining) := by
  refine .of_conn (by simp) ?_
  unfold requeueFile
  split_ifs
  · exact .of_eq rfl
  · exact .queueInLoop rfl

theorem drains_sendFileInLoop (s : ConnState) (fileDescriptor offset count : ℕ)
    (result : IoResult) : Drains s (s.sendFileInLoop fileDescriptor offset count result) := by
  have hsent : Drains s (s.emit (.sendfile fileDescriptor offset count result)) := .emit s rfl
  unfold sendFileInLoop
  cases result with
  | bytes n =>
      dsimp only
      split_ifs
      · exact .of_conn rfl (.of_eq rfl)
      · exact hsent.trans (drains_notifyWriteComplete _)
      · exact hsent.trans (drains_requeueFile _ _ _ _)
      · exact drains_requeueFile _ _ _ _
  | error errno =>
      dsimp only
      split_ifs
      · exact .of_conn rfl (.of_eq rfl)
      · exact hsent
      · exact hsent.trans (drains_requeueFile _ _ _ _)
      · exact drains_requeueFile _ _ _ _

theorem drains_shutdownInLoop (s : ConnState) : Drains s s.shutdownInLoop :=
  .of_conn (by simp) (s.emits_shutdownInLoop.mono fun _ heffect => heffect ▸ rfl)

theorem drains_setEvents (s : ConnState) (events : EventMask) : Drains s (s.setEvents events) :=
  ⟨rfl, rfl, le_rfl, .of_eq rfl⟩

theorem drains_finishWriting (s : ConnState) : Drains s s.finishWriting := by
  have hnotified : Drains s s.disableWriting.notifyWriteComplete :=
    (drains_setEvents s _).trans (drains_notifyWriteComplete _)
  unfold finishWriting
  dsimp only
  split_ifs
  · exact hnotified.trans (drains_shutdownInLoop _)
  · exact hnotified

theorem drains_handleWrite (s : ConnState) (result : IoResult) :
    Drains s (s.handleWrite result) := by
  have hwrote : Drains s (s.emit (.write s.conn.outputBuffer.readable result)) := .emit s rfl
  have hretrieved (n : ℕ) : Drains s
      ((s.emit (.write s.conn.outputBuffer.readable result)).setOutput
        (s.conn.outputBuffer.retrieve n)) := by
    refine hwrote.trans ⟨rfl, rfl, ?_, .of_eq rfl⟩
    simp
  unfold handleWrite
  cases result with
  | bytes n =>
      dsimp only
      split_ifs
      · exact hwrote
      · exact (hretrieved n).trans (drains_finishWriting _)
      · exact hretrieved n
      · exact .of_conn rfl (.of_eq rfl)
  | error errno =>
      dsimp only
      split_ifs
      · exact hwrote
      · exact .of_conn rfl (.of_eq rfl)

theorem drains_handleClose (s : ConnState) : Drains s s.handleClose :=
  ⟨rfl, rfl, le_rfl, s.emits_handleClose.mono fun _ heffect => by
    rcases heffect with rfl | rfl <;> rfl⟩

theorem drains_handleRead (s : ConnState) (result : Buffer.ReadResult) :
    Drains s (s.handleRead result) := by
  have hread (buffer : ValidBuffer) : Drains s (s.setInput buffer) :=
    ⟨rfl, rfl, le_rfl, .of_eq rfl⟩
  unfold handleRead
  split
  · exact (hread _).trans (drains_handleClose _)
  · exact (hread _).trans (.emit _ rfl)
  · exact hread _

theorem drains_connectDestroyed (s : ConnState) : Drains s s.connectDestroyed := by
  have hemits : Emits (fun effect => effect.highWater? = none) s s.connectDestroyed :=
    s.emits_connectDestroyed.mono fun _ heffect => by rw [heffect]; rfl
  unfold connectDestroyed at hemits ⊢
  split_ifs at hemits ⊢ <;> exact ⟨rfl, rfl, le_rfl, hemits⟩

/-! ## Reaching the mark -/

theorem Announces.of_drains {s t u : ConnState} (hst : Drains s t) (houtput : t.output = s.output)
    (htu : Announces t u) : Announces s u where
  callback_eq := htu.callback_eq.trans hst.callback_eq
  mark_eq := htu.mark_eq.trans hst.mark_eq
  notifications_eq := by
    intro hset
    rw [htu.notifications_eq (hst.callback_eq.trans hset), hst.notifications_eq, houtput,
      hst.mark_eq]

theorem announces_appendRemaining (s : ConnState) (remaining : List Byte) :
    Announces s (s.appendRemaining remaining) := by
  by_cases hempty : remaining = []
  · rw [appendRemaining, if_pos hempty]
    exact (Drains.of_conn rfl (.of_eq rfl)).announces
  have hconn : (s.appendRemaining remaining).conn.highWaterMarkCallback =
      s.conn.highWaterMarkCallback ∧
        (s.appendRemaining remaining).conn.highWaterMark = s.conn.highWaterMark := by
    unfold appendRemaining
    dsimp only
    split_ifs <;> simp [setOutput, enableWriting, setEvents]
  refine ⟨hconn.1, hconn.2, fun hset => ?_⟩
  have hnotified : (s.appendRemaining remaining).notifications =
      (s.notifyHighWaterMark s.output.length
        (s.output.length + remaining.length)).notifications := by
    unfold appendRemaining
    dsimp only
    split_ifs <;> simp [notifications, enableWriting]
  rw [hnotified, appendRemaining_output, List.length_append, notifyHighWaterMark]
  by_cases hcross : s.output.length < s.conn.highWaterMark ∧
      s.conn.highWaterMark ≤ s.output.length + remaining.length
  · rw [if_pos ⟨hcross.2, hcross.1, hset⟩, if_pos hcross]
    simp [notifications, Effect.highWater?]
  · rw [if_neg fun h => hcross ⟨h.2.1, h.1⟩, if_neg hcross, List.append_nil]

theorem announces_sendInLoop (s : ConnState) (data : List Byte) (result : IoResult) :
    Announces s (s.sendInLoop data result) := by
  have hwrote : Drains s (s.emit (.write data result)) := .emit s rfl
  have hrest (remaining : List Byte) :
      Announces s ((s.emit (.write data result)).appendRemaining remaining) :=
    .of_drains hwrote rfl (announces_appendRemaining _ _)
  unfold sendInLoop
  cases result with
  | bytes n =>
      dsimp only
      split_ifs
      · exact (hwrote.trans (drains_notifyWriteComplete _)).announces
      · exact hrest _
      · exact announces_appendRemaining _ _
  | error errno =>
      dsimp only
      split_ifs
      · exact hwrote.announces
      · exact hrest _
      · exact announces_appendRemaining _ _

/-- Every call queues the callback if it takes the buffer to the mark, and only then. -/
theorem announces_call (s : ConnState) (call : LoopCall) : Announces s (s.call call) := by
  have hnothing : Announces s s := (Drains.of_conn rfl (.of_eq rfl)).announces
  cases call with
  | handleRead result => exact (drains_handleRead s result).announces
  | handleWrite result => exact (drains_handleWrite s result).announces
  | handleClose => exact (drains_handleClose s).announces
  | handleError => exact hnothing
  | connectDestroyed => exact (drains_connectDestroyed s).announces
  | runFunctor functor result =>
      cases functor with
      | writeComplete => exact hnothing
      | highWaterMark size => exact hnothing
      | sendInLoop data => exact announces_sendInLoop s data result
      | sendFileInLoop fileDescriptor offset count =>
          exact (drains_sendFileInLoop s fileDescriptor offset count result).announces
      | shutdownInLoop => exact (drains_shutdownInLoop s).announces
  | send data result =>
      simp only [ConnState.call, send]
      split_ifs
      · exact announces_sendInLoop s data result
      · exact hnothing
  | sendFile fileDescriptor offset count result =>
      simp only [ConnState.call, sendFile]
      split_ifs
      · exact (drains_sendFileInLoop s fileDescriptor offset count result).announces
      · exact hnothing
  | shutdown =>
      have hstored : Drains s (s.setState .kDisconnecting) := ⟨rfl, rfl, le_rfl, .of_eq rfl⟩
      simp only [ConnState.call, shutdown]
      split_ifs
      · exact (hstored.trans (drains_shutdownInLoop _)).announces
      · exact hnothing

theorem levels_head? (s : ConnState) (calls : List LoopCall) :
    (s.levels calls).head? = some s.output.length := by
  cases calls <;> rfl

theorem levels_getLast? (s : ConnState) (calls : List LoopCall) :
    (s.levels calls).getLast? = some (calls.foldl ConnState.call s).output.length := by
  induction calls generalizing s with
  | nil => rfl
  | cons call calls ih =>
      obtain ⟨rest, hrest⟩ : ∃ rest, (s.call call).levels calls = _ :: rest :=
        List.head?_eq_some_iff.1 (levels_head? (s.call call) calls)
      rw [levels, hrest, List.getLast?_cons_cons, ← hrest, ih, List.foldl_cons]

theorem notifications_foldl (s : ConnState) (calls : List LoopCall)
    (hset : s.conn.highWaterMarkCallback = true) :
    (calls.foldl ConnState.call s).notifications =
      s.notifications ++ crossings s.conn.highWaterMark (s.levels calls) := by
  induction calls generalizing s with
  | nil => simp [levels, crossings]
  | cons call calls ih =>
      have hcall := announces_call s call
      obtain ⟨rest, hrest⟩ : ∃ rest, (s.call call).levels calls = _ :: rest :=
        List.head?_eq_some_iff.1 (levels_head? (s.call call) calls)
      have hcrossings : crossings s.conn.highWaterMark (s.levels (call :: calls)) =
          (if s.output.length < s.conn.highWaterMark ∧
            s.conn.highWaterMark ≤ (s.call call).output.length then
              [(s.call call).output.length] else []) ++
            crossings s.conn.highWaterMark ((s.call call).levels calls) := by
        rw [levels, hrest, crossings]
      rw [List.foldl_cons, ih (s.call call) (hcall.callback_eq.trans hset),
        hcall.notifications_eq hset, hcall.mark_eq, hcrossings, List.append_assoc]

/-- `highWaterMarkCallback_` is queued where the buffer reaches the mark from below, with the
length it has then, and nowhere else.  A buffer that was below the mark and is not now has
not been below it since the last call of the callback that was queued. -/
theorem high_water_crossings (s : ConnState) (calls : List LoopCall)
    (hset : s.conn.highWaterMarkCallback = true) :
    (calls.foldl ConnState.call s).notifications =
        s.notifications ++ crossings s.conn.highWaterMark (s.levels calls) ∧
      (s.output.length < s.conn.highWaterMark →
        s.conn.highWaterMark ≤ (calls.foldl ConnState.call s).output.length →
        ∃ before size after, s.levels calls = before ++ size :: after ∧
          (∀ length ∈ size :: after, s.conn.highWaterMark ≤ length) ∧
          (calls.foldl ConnState.call s).notifications =
            s.notifications ++ crossings s.conn.highWaterMark before ++ [size]) := by
  have hall := notifications_foldl s calls hset
  refine ⟨hall, fun hbelow habove => ?_⟩
  obtain ⟨before, size, after, hlevels, hsince, hcross⟩ :=
    exists_last (levels_head? s calls) hbelow (levels_getLast? s calls) habove
  exact ⟨before, size, after, hlevels, hsince, by rw [hall, hcross, List.append_assoc]⟩

/-- A connection that waits for nothing, with a mark of two bytes. -/
def marked : ConnState where
  conn :=
    { state := .kConnected, channel := { fd := 5 }, writeCompleteCallback := true
      highWaterMarkCallback := true, highWaterMark := 2 }

theorem marked_output : marked.output = [] := ValidBuffer.readable_new _

/-- It is sent three bytes, and the kernel takes none. -/
theorem marked_send : marked.call (.send [1, 2, 3] (.error .EWOULDBLOCK)) =
    (marked.emit (.write [1, 2, 3] (.error .EWOULDBLOCK))).appendRemaining [1, 2, 3] := by
  have hidle : marked.isIdle = true := (isIdle_iff marked).2 ⟨rfl, marked_output⟩
  have hstate : marked.conn.state = .kConnected := rfl
  simp [ConnState.call, send, hstate, sendInLoop, hidle, IoResult.isFault]

theorem marked_send_output :
    (marked.call (.send [1, 2, 3] (.error .EWOULDBLOCK))).output = [1, 2, 3] := by
  simp [marked_send, marked_output]

theorem high_water_crossings_once : ([LoopCall.send [1, 2, 3] (.error .EWOULDBLOCK)].foldl
    ConnState.call marked).notifications = [3] := by
  rw [(high_water_crossings marked _ rfl).1]
  simp only [levels, marked_output, marked_send_output]
  rfl

/-! ## A user that holds back -/

/-- Was the mark reported and has `writeCompleteCallback_` not been queued since? -/
def holdsBack (s : ConnState) : Bool :=
  s.effects.foldl (fun held effect =>
    match effect with
    | .queued (.highWaterMark _) => true
    | .queued .writeComplete => false
    | _ => held) false

/-- Not one of the two callbacks. -/
def IsPlain (effect : Effect) : Prop :=
  effect.highWater? = none ∧ effect ≠ .queued .writeComplete

theorem holdsBack_of_plain {s t : ConnState} (h : Emits IsPlain s t) :
    t.holdsBack = s.holdsBack := by
  obtain ⟨since, hsince, hplain⟩ := h
  rw [holdsBack, holdsBack, hsince, List.foldl_append]
  clear hsince
  generalize s.effects.foldl _ false = held
  induction since with
  | nil => rfl
  | cons effect since ih =>
      obtain ⟨hmark, hcomplete⟩ := hplain effect List.mem_cons_self
      rw [List.foldl_cons]
      split
      · exact absurd hmark (Option.some_ne_none _)
      · exact absurd rfl hcomplete
      · exact ih fun other hother => hplain other (List.mem_cons_of_mem _ hother)

/-- Bytes wait while the user holds back, and while bytes wait the kernel is asked to report
when it can take more, unless the connection is closed. -/
structure Resumes (s : ConnState) : Prop where
  callback : s.conn.writeCompleteCallback = true
  waits : s.holdsBack = true → s.output ≠ []
  writing : s.output ≠ [] → s.conn.state ≠ .kDisconnected → s.isWriting = true

namespace Resumes

variable {s t : ConnState}

/-- The buffer stays, and so does the interest in writing unless the connection is closed. -/
theorem of_plain (h : Resumes s) (hemits : Emits IsPlain s t)
    (hcallback : t.conn.writeCompleteCallback = s.conn.writeCompleteCallback)
    (houtput : t.output = s.output)
    (hwriting : t.conn.state ≠ .kDisconnected →
      s.conn.state ≠ .kDisconnected ∧ t.isWriting = s.isWriting) : Resumes t where
  callback := hcallback.trans h.callback
  waits := by
    rw [holdsBack_of_plain hemits, houtput]
    exact h.waits
  writing := by
    intro hwaits hopen
    obtain ⟨hopen', hsame⟩ := hwriting hopen
    rw [hsame]
    exact h.writing (houtput ▸ hwaits) hopen'

theorem of_conn (h : Resumes s) (hemits : Emits IsPlain s t) (hconn : t.conn = s.conn) :
    Resumes t :=
  h.of_plain hemits (by rw [hconn]) (output_congr hconn)
    fun hopen => ⟨hconn ▸ hopen, isWriting_congr hconn⟩

/-- `writeCompleteCallback_` is queued when the buffer is empty. -/
theorem notifyWriteComplete (hcallback : s.conn.writeCompleteCallback = true)
    (hempty : s.output = []) : Resumes s.notifyWriteComplete where
  callback := by rw [notifyWriteComplete_conn, hcallback]
  waits := by
    simp [ConnState.notifyWriteComplete, hcallback, holdsBack, List.foldl_append]
  writing := by
    rw [notifyWriteComplete_output]
    exact fun hwaits => absurd hempty hwaits

/-- Bytes are put into the buffer. -/
theorem appendRemaining (h : Resumes s) (remaining : List Byte) :
    Resumes (s.appendRemaining remaining) := by
  by_cases hempty : remaining = []
  · rw [ConnState.appendRemaining, if_pos hempty]
    exact h
  refine ⟨?_, fun _ => by simp [hempty], fun _ _ => by simp [appendRemaining_isWriting, hempty]⟩
  rw [← h.callback]
  unfold ConnState.appendRemaining
  dsimp only
  split_ifs <;> simp [setOutput, enableWriting, setEvents]

theorem sendInLoop (h : Resumes s) (data : List Byte) (result : IoResult) :
    Resumes (s.sendInLoop data result) := by
  have hwrote : Resumes (s.emit (.write data result)) :=
    h.of_conn (.emit ⟨rfl, by simp⟩) rfl
  by_cases hidle : s.isIdle = true
  · have hempty : s.output = [] := ((isIdle_iff s).1 hidle).2
    cases result with
    | bytes n =>
        simp only [ConnState.sendInLoop, hidle, if_true]
        split_ifs
        · exact .notifyWriteComplete hwrote.callback hempty
        · exact hwrote.appendRemaining _
    | error errno =>
        simp only [ConnState.sendInLoop, hidle, if_true]
        split_ifs
        · exact hwrote
        · exact hwrote.appendRemaining _
  · simp only [ConnState.sendInLoop, hidle, if_false, Bool.false_eq_true]
    exact h.appendRemaining _

theorem requeueFile (h : Resumes s) (fileDescriptor offset remaining : ℕ) :
    Resumes (s.requeueFile fileDescriptor offset remaining) := by
  unfold ConnState.requeueFile
  split_ifs
  · exact h
  · exact h.of_conn (.queueInLoop ⟨rfl, by simp⟩) rfl

theorem sendFileInLoop (h : Resumes s) (fileDescriptor offset count : ℕ) (result : IoResult) :
    Resumes (s.sendFileInLoop fileDescriptor offset count result) := by
  have hsent : Resumes (s.emit (.sendfile fileDescriptor offset count result)) :=
    h.of_conn (.emit ⟨rfl, by simp⟩) rfl
  unfold ConnState.sendFileInLoop
  cases result with
  | bytes n =>
      dsimp only
      split_ifs with hstate hidle
      · exact h
      · exact .notifyWriteComplete hsent.callback ((isIdle_iff s).1 hidle).2
      · exact hsent.requeueFile _ _ _
      · exact h.requeueFile _ _ _
  | error errno =>
      dsimp only
      split_ifs
      · exact h
      · exact hsent
      · exact hsent.requeueFile _ _ _
      · exact h.requeueFile _ _ _

theorem shutdownInLoop (h : Resumes s) : Resumes s.shutdownInLoop :=
  h.of_conn (s.emits_shutdownInLoop.mono fun _ heffect => by subst heffect; exact ⟨rfl, by simp⟩)
    (by simp)

/-- The last of the bytes was written. -/
theorem finishWriting (hcallback : s.conn.writeCompleteCallback = true) (hempty : s.output = []) :
    Resumes s.finishWriting := by
  have hnotified : Resumes s.disableWriting.notifyWriteComplete :=
    .notifyWriteComplete hcallback hempty
  unfold ConnState.finishWriting
  dsimp only
  split_ifs
  · exact hnotified.shutdownInLoop
  · exact hnotified

theorem handleWrite (h : Resumes s) (result : IoResult) : Resumes (s.handleWrite result) := by
  have hwrote : Resumes (s.emit (.write s.conn.outputBuffer.readable result)) :=
    h.of_conn (.emit ⟨rfl, by simp⟩) rfl
  unfold ConnState.handleWrite
  cases result with
  | bytes n =>
      dsimp only
      split_ifs with hwriting hzero hdrained
      · exact hwrote
      · rw [ValidBuffer.readableBytes_eq, List.length_eq_zero_iff] at hdrained
        exact .finishWriting h.callback hdrained
      · rw [ValidBuffer.readableBytes_eq, List.length_eq_zero_iff] at hdrained
        exact ⟨h.callback, fun _ => hdrained, fun _ _ => hwriting⟩
      · exact h
  | error errno =>
      dsimp only
      split_ifs
      · exact hwrote
      · exact h

theorem handleClose (h : Resumes s) : Resumes s.handleClose := by
  refine h.of_plain (s.emits_handleClose.mono fun _ heffect => ?_) rfl rfl
    fun hopen => absurd rfl hopen
  rcases heffect with rfl | rfl <;> exact ⟨rfl, by simp⟩

theorem handleRead (h : Resumes s) (result : Buffer.ReadResult) :
    Resumes (s.handleRead result) := by
  have hread (buffer : ValidBuffer) : Resumes (s.setInput buffer) :=
    h.of_plain (.of_eq rfl) rfl rfl fun hopen => ⟨hopen, rfl⟩
  unfold ConnState.handleRead
  split
  · exact (hread _).handleClose
  · exact (hread _).of_conn (.emit ⟨rfl, by simp⟩) rfl
  · exact hread _

theorem connectDestroyed (h : Resumes s) : Resumes s.connectDestroyed := by
  have hemits : Emits IsPlain s s.connectDestroyed :=
    s.emits_connectDestroyed.mono fun _ heffect => by subst heffect; exact ⟨rfl, by simp⟩
  unfold ConnState.connectDestroyed at hemits ⊢
  split_ifs at hemits ⊢
  · exact h.of_plain hemits rfl rfl fun hopen => absurd rfl hopen
  · exact h.of_plain hemits rfl rfl fun hopen => ⟨hopen, rfl⟩

theorem call (h : Resumes s) (call : LoopCall) : Resumes (s.call call) := by
  cases call with
  | handleRead result => exact h.handleRead result
  | handleWrite result => exact h.handleWrite result
  | handleClose => exact h.handleClose
  | handleError => exact h
  | connectDestroyed => exact h.connectDestroyed
  | runFunctor functor result =>
      cases functor with
      | writeComplete => exact h
      | highWaterMark size => exact h
      | sendInLoop data => exact h.sendInLoop data result
      | sendFileInLoop fileDescriptor offset count => exact h.sendFileInLoop _ _ _ result
      | shutdownInLoop => exact h.shutdownInLoop
  | send data result =>
      simp only [ConnState.call, ConnState.send]
      split_ifs
      · exact h.sendInLoop data result
      · exact h
  | sendFile fileDescriptor offset count result =>
      simp only [ConnState.call, ConnState.sendFile]
      split_ifs
      · exact h.sendFileInLoop _ _ _ result
      · exact h
  | shutdown =>
      simp only [ConnState.call, ConnState.shutdown]
      split_ifs with hstate
      · have hopen : s.conn.state ≠ .kDisconnected := by
          rw [hstate]
          decide
        have hstored : Resumes (s.setState .kDisconnecting) :=
          h.of_plain (.of_eq rfl) rfl rfl fun _ => ⟨hopen, rfl⟩
        exact hstored.shutdownInLoop
      · exact h

theorem foldl (h : Resumes s) (calls : List LoopCall) :
    Resumes (calls.foldl ConnState.call s) := by
  induction calls generalizing s with
  | nil => exact h
  | cons first calls ih => exact ih (h.call first)

end Resumes

/-- A user that holds back from the report of the mark until `writeCompleteCallback_` does
not wait in vain.  After any calls on a connection that started with an empty buffer, bytes
wait while the user holds back, and unless the connection is closed the kernel is asked to
report when it takes more; once it has taken all of them, the callback is queued. -/
theorem held_back_resumes (s : ConnState) (calls : List LoopCall)
    (hset : s.conn.writeCompleteCallback = true) (hempty : s.output = [])
    (hheld : s.holdsBack = false) :
    let t := calls.foldl ConnState.call s
    (t.holdsBack = true → t.output ≠ [] ∧
      (t.conn.state ≠ .kDisconnected → t.isWriting = true)) ∧
    ∀ n, t.isWriting = true → t.output ≠ [] → t.output.length ≤ n →
      (t.handleWrite (.bytes n)).output = [] ∧ (t.handleWrite (.bytes n)).holdsBack = false := by
  have hstart : Resumes s :=
    ⟨hset, fun hholds => absurd (hheld.symm.trans hholds) Bool.false_ne_true,
      fun hwaits => absurd hempty hwaits⟩
  intro t
  have h : Resumes t := hstart.foldl calls
  refine ⟨fun hholds => ⟨h.waits hholds, h.writing (h.waits hholds)⟩, ?_⟩
  intro n hwriting hwaits hn
  have hpos : n ≠ 0 := by
    rintro rfl
    exact hwaits (List.length_eq_zero_iff.1 (Nat.le_zero.1 hn))
  have hdrained : (t.handleWrite (.bytes n)).output = [] := by
    have hchannel : t.conn.channel.isWriting = true := hwriting
    simp [ConnState.handleWrite, hchannel, hpos, List.drop_eq_nil_of_le hn]
  refine ⟨hdrained, ?_⟩
  by_contra hholds
  exact (h.handleWrite (.bytes n)).waits (Bool.eq_true_of_not_eq_false hholds) hdrained

/-- Three bytes wait for a user that is told about a mark of two. -/
theorem held_back_resumes_once :
    (marked.call (.send [1, 2, 3] (.error .EWOULDBLOCK))).isWriting = true := by
  have hlength : (marked.emit (.write [1, 2, 3] (.error .EWOULDBLOCK))).output.length = 0 := by
    simp [marked_output]
  have hholds : (marked.call (.send [1, 2, 3] (.error .EWOULDBLOCK))).holdsBack = true := by
    rw [marked_send, appendRemaining, if_neg (by simp)]
    simp only [ValidBuffer.readableBytes_eq, readable_outputBuffer, hlength]
    rfl
  refine ((held_back_resumes marked [.send [1, 2, 3] (.error .EWOULDBLOCK)] rfl marked_output
    rfl).1 hholds).2 ?_
  rw [List.foldl_cons, List.foldl_nil, marked_send, appendRemaining_state]
  decide

end ConnState

end MuduoLite
