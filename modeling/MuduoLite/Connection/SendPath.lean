import MuduoLite.Connection.Methods
import MuduoLite.Library.Transition

/-!
# The send path keeps the byte stream

A connection that uses `send` but not `sendFile` moves its payloads along three
paths: the direct `::write` of `sendInLoop`, the append to the output buffer and
the drain by `handleWrite`.  The invariant `Stream` couples them:

* what the kernel has accepted, followed by what waits in the buffer, is the
  concatenation of the payloads, without those whose direct write hit `EPIPE` or
  `ECONNRESET`;
* bytes wait in the buffer exactly while the channel has write interest.

The second part is what makes the first one inductive: a direct write happens
only when the channel is not writing, hence only when nothing waits.
-/

namespace MuduoLite

open Transition EPollPoller

namespace SendPath

/-- A connection together with the payloads passed to `sendInLoop` so far, in
order, without those dropped on a fault of their direct write. -/
structure System where
  conn : ConnState
  payloads : List (List Byte) := []

/-- The steps of a run up to `handleClose`.  `shutdown` is the store of
`TcpConnection::shutdown`, whose `shutdownInLoop` is a step of its own. -/
inductive Label
  | sendInLoop (data : List Byte) (result : IoResult)
  | handleWrite (result : IoResult)
  | handleRead (result : Buffer.ReadResult)
  | shutdown
  | shutdownInLoop
  deriving DecidableEq, Repr

/-- Is a payload dropped, its direct write having failed for good? -/
def drops (s : ConnState) (result : IoResult) : Bool := s.isIdle && result.isFault

def Step (p : System) (label : Label) (q : System) : Prop :=
  match label with
  | .sendInLoop data result =>
      result.Fits data.length ∧
        q = ⟨p.conn.sendInLoop data result,
          if drops p.conn result then p.payloads else p.payloads ++ [data]⟩
  | .handleWrite result =>
      result.Fits p.conn.output.length ∧ q = ⟨p.conn.handleWrite result, p.payloads⟩
  | .handleRead result =>
      result ≠ .data [] ∧ q = ⟨p.conn.handleRead result, p.payloads⟩
  | .shutdown => q = ⟨p.conn.setState .kDisconnecting, p.payloads⟩
  | .shutdownInLoop => q = ⟨p.conn.shutdownInLoop, p.payloads⟩

/-- The invariant of the send path. -/
structure Stream (files : ℕ → List Byte) (p : System) : Prop where
  bytes : acceptedBytes files p.conn.effects ++ p.conn.output = p.payloads.flatten
  writing : p.conn.isWriting = true ↔ p.conn.output ≠ []
  registered : p.conn.Open

variable {files : ℕ → List Byte}

theorem initial_stream {s : ConnState} (hfresh : s.Fresh) :
    Stream files ⟨s.connectEstablished, []⟩ where
  bytes := by
    have hbytes : acceptedBytes files s.connectEstablished.effects = [] := by
      simp [ConnState.connectEstablished, ConnState.enableReading, ConnState.tie, hfresh.effects_eq,
        Effect.accepted]
    have hempty : s.connectEstablished.output = [] := hfresh.output_eq
    simp [hbytes, hempty]
  writing := by
    have hquiet : s.connectEstablished.isWriting = false := by
      simp [ConnState.isWriting, Channel.isWriting, ConnState.connectEstablished_events,
        hfresh.events_eq, Channel.kNoneEvent, Channel.kReadEvent, Channel.kWriteEvent, EPOLLIN,
        EPOLLPRI, EPOLLOUT]
    have hempty : s.connectEstablished.output = [] := hfresh.output_eq
    simp [hquiet, hempty]
  registered := ConnState.open_connectEstablished hfresh.mirrors

/-! ## One step -/

/-- Appending keeps the correspondence between waiting bytes and write interest. -/
theorem writing_appendRemaining {s : ConnState} (h : s.isWriting = true ↔ s.output ≠ [])
    (remaining : List Byte) : (s.appendRemaining remaining).isWriting = true ↔
      (s.appendRemaining remaining).output ≠ [] := by
  rw [s.appendRemaining_isWriting, s.appendRemaining_output, Bool.or_eq_true, h, decide_eq_true_eq,
    ne_eq, ne_eq, ne_eq, List.append_eq_nil_iff]
  tauto

theorem bytes_sendInLoop (s : ConnState) (data : List Byte) (result : IoResult) :
    acceptedBytes files (s.sendInLoop data result).effects ++ (s.sendInLoop data result).output =
      acceptedBytes files s.effects ++ s.output ++ if drops s result then [] else data := by
  by_cases hidle : s.isIdle = true
  · have hempty : s.output = [] := ((s.isIdle_iff).1 hidle).2
    cases result with
    | bytes n =>
        have hkept : drops s (.bytes n) = false := by simp [drops, IoResult.isFault]
        simp only [ConnState.sendInLoop, hidle, hkept, if_true, Bool.false_eq_true, if_false]
        split_ifs with hdone
        · have htake : data.take n = data := by
            conv_rhs => rw [← List.take_append_drop n data, hdone, List.append_nil]
          simp [Effect.accepted, htake, hempty]
        · simp [Effect.accepted, hempty]
    | error errno =>
        simp only [ConnState.sendInLoop, hidle, drops, if_true, Bool.true_and]
        split_ifs <;> simp [Effect.accepted]
  · have hkept : drops s result = false := by simp [drops, hidle]
    simp only [ConnState.sendInLoop, hidle, hkept, Bool.false_eq_true, if_false]
    simp

theorem writing_sendInLoop {s : ConnState} (data : List Byte) (result : IoResult)
    (hwriting : s.isWriting = true ↔ s.output ≠ []) :
    (s.sendInLoop data result).isWriting = true ↔ (s.sendInLoop data result).output ≠ [] := by
  have hwrote : (s.emit (.write data result)).isWriting = true ↔
      (s.emit (.write data result)).output ≠ [] := hwriting
  unfold ConnState.sendInLoop
  cases result with
  | bytes n =>
      dsimp only
      split_ifs
      · simpa using hwriting
      · exact writing_appendRemaining hwrote _
      · exact writing_appendRemaining hwriting _
  | error errno =>
      dsimp only
      split_ifs
      · exact hwriting
      · exact writing_appendRemaining hwrote _
      · exact writing_appendRemaining hwriting _

/-- A drain only moves bytes from the buffer to the kernel. -/
theorem bytes_handleWrite (s : ConnState) (result : IoResult) :
    acceptedBytes files (s.handleWrite result).effects ++ (s.handleWrite result).output =
      acceptedBytes files s.effects ++ s.output := by
  unfold ConnState.handleWrite
  cases result with
  | bytes n =>
      -- what the kernel took and what `retrieve` keeps are the two parts of the buffer
      dsimp only
      split_ifs with hwriting hzero
      · simp [Effect.accepted, hzero]
      · simp [Effect.accepted, List.take_append_drop]
      · simp [Effect.accepted, List.take_append_drop]
      · rfl
  | error errno =>
      dsimp only
      split_ifs <;> simp [Effect.accepted]

/-- The drain drops the write interest with the last waiting byte. -/
theorem writing_handleWrite {s : ConnState} (result : IoResult)
    (h : s.isWriting = true ↔ s.output ≠ []) :
    (s.handleWrite result).isWriting = true ↔ (s.handleWrite result).output ≠ [] := by
  unfold ConnState.handleWrite
  cases result with
  | bytes n =>
      dsimp only
      split_ifs with hwriting hzero hdrained
      · exact h
      · simpa [Nat.sub_eq_zero_iff_le] using hdrained
      · have hkept : s.isWriting = true := hwriting
        simpa [hkept, Nat.sub_eq_zero_iff_le] using hdrained
      · exact h
  | error errno =>
      dsimp only
      split_ifs <;> exact h

theorem stream_step {p q : System} {label : Label} (h : Stream files p)
    (hstep : Step p label q) : Stream files q := by
  obtain ⟨hbytes, hwriting, hopen⟩ := h
  cases label with
  | sendInLoop data result =>
      obtain ⟨_, rfl⟩ := hstep
      refine ⟨?_, writing_sendInLoop data result hwriting,
        (ConnState.traffic_sendInLoop _ _ _).open hopen⟩
      rw [bytes_sendInLoop, hbytes]
      split_ifs <;> simp
  | handleWrite result =>
      obtain ⟨_, rfl⟩ := hstep
      exact ⟨(bytes_handleWrite _ _).trans hbytes, writing_handleWrite result hwriting,
        (ConnState.traffic_handleWrite _ _).open hopen⟩
  | handleRead result =>
      obtain ⟨hread, rfl⟩ := hstep
      obtain ⟨houtput, hinterest, haccepted⟩ := p.conn.handleRead_sendPath files hread
      refine ⟨?_, ?_, (ConnState.traffic_handleRead _ hread).open hopen⟩
      · rwa [houtput, haccepted]
      · rwa [houtput, hinterest]
  | shutdown =>
      obtain rfl := hstep
      exact ⟨hbytes, hwriting, ⟨hopen.mirrors, hopen.added, hopen.reading⟩⟩
  | shutdownInLoop =>
      obtain rfl := hstep
      refine ⟨?_, ?_, (ConnState.traffic_shutdownInLoop _).open hopen⟩
      · simpa using hbytes
      · simpa using hwriting

theorem run_stream {p q : System} {labels : List Label} (h : Stream files p)
    (hrun : Run Step p labels q) : Stream files q :=
  hrun.invariant h fun _ _ _ hp hstep => stream_step hp hstep

/-- Does the kernel watch the socket for `EPOLLOUT`? -/
def watchesOut (s : ConnState) : Bool :=
  (s.poller.interest s.conn.channel.fd).any fun entry => entry.2 &&& EPOLLOUT ≠ 0

theorem Stream.watchesOut_eq {p : System} (h : Stream files p) :
    watchesOut p.conn = p.conn.isWriting := by
  have hinterest := h.registered.mirrors.interest_eq
  rw [if_pos h.registered.added] at hinterest
  simp only [watchesOut, hinterest, Option.any_some]
  rfl

/-- The send path of a connection, for every sequence of its steps and every
answer of the kernel: the accepted bytes and the buffered ones are the payloads
in order, without the dropped ones, and bytes are buffered exactly while the
channel, and with it the kernel, has `EPOLLOUT` interest. -/
theorem send_path_stream (files : ℕ → List Byte) (s : ConnState) (hfresh : s.Fresh)
    (labels : List Label) (p : System) (hrun : Run Step ⟨s.connectEstablished, []⟩ labels p) :
    acceptedBytes files p.conn.effects ++ p.conn.output = p.payloads.flatten ∧
      (p.conn.output ≠ [] ↔ p.conn.isWriting = true) ∧
      (p.conn.output ≠ [] ↔ watchesOut p.conn = true) := by
  have h : Stream files p := run_stream (initial_stream hfresh) hrun
  exact ⟨h.bytes, h.writing.symm, by rw [h.watchesOut_eq, h.writing]⟩

/-- A connection of fd 5 on a loop without other channels. -/
def fresh : ConnState := { conn := { channel := { fd := 5 } } }

theorem fresh_fresh : fresh.Fresh where
  state_eq := rfl
  index_eq := rfl
  events_eq := rfl
  output_eq := ValidBuffer.readable_new _
  mirrors := ⟨rfl, rfl⟩
  effects_eq := rfl

/-- A connection whose user is told when everything has been written. -/
def reporting : ConnState := { conn := { channel := { fd := 5 }, writeCompleteCallback := true } }

theorem reporting_fresh : reporting.Fresh where
  state_eq := rfl
  index_eq := rfl
  events_eq := rfl
  output_eq := ValidBuffer.readable_new _
  mirrors := ⟨rfl, rfl⟩
  effects_eq := rfl

/-- The kernel takes one byte of the first payload, the second one waits behind
the other byte. -/
theorem send_path_stream_partial :
    let p : System := ⟨(fresh.connectEstablished.sendInLoop [1, 2] (.bytes 1)).sendInLoop [3]
      (.bytes 0), [[1, 2], [3]]⟩
    acceptedBytes (fun _ => []) p.conn.effects ++ p.conn.output = [1, 2, 3] ∧
      (p.conn.output ≠ [] ↔ watchesOut p.conn = true) := by
  have hfirst : Step ⟨fresh.connectEstablished, []⟩ (.sendInLoop [1, 2] (.bytes 1))
      ⟨fresh.connectEstablished.sendInLoop [1, 2] (.bytes 1), [[1, 2]]⟩ :=
    ⟨Nat.le_succ 1, by simp [drops, IoResult.isFault]⟩
  have hsecond : Step ⟨fresh.connectEstablished.sendInLoop [1, 2] (.bytes 1), [[1, 2]]⟩
      (.sendInLoop [3] (.bytes 0)) ⟨(fresh.connectEstablished.sendInLoop [1, 2]
        (.bytes 1)).sendInLoop [3] (.bytes 0), [[1, 2], [3]]⟩ :=
    ⟨Nat.zero_le 1, by simp [drops, IoResult.isFault]⟩
  have h := send_path_stream (fun _ => []) fresh fresh_fresh _ _
    ((Run.single hfirst).snoc hsecond)
  exact ⟨h.1, h.2.2⟩

end SendPath

end MuduoLite
