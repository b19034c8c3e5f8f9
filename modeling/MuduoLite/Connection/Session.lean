import MuduoLite.Connection.Effects
import MuduoLite.Connection.FileOrder
import MuduoLite.Library.Pieces

/-!
# A session with one peer

The peer sends a stream of bytes, which the kernel keeps until `handleRead` takes a part of
it into the input buffer and runs the message callback of the user.  The callback uses up a
part of the buffer and calls `send` and `shutdown`.  What it sends goes to the kernel at
once or from the output buffer later.

The user sees none of this: to the `Handler` the session is a stream that comes in pieces.
`Matches` says that the connection carries out the handler on the pieces that were read so
far: the input buffer has what the handler has kept, and the bytes that the kernel has
taken, followed by those in the output buffer, are those that the handler has put out
before its first `shutdown`.
-/

namespace MuduoLite

open Pieces Transition

namespace ConnState

/-! ## The input buffer -/

/-- The bytes that the user has not taken yet. -/
def input (s : ConnState) : List Byte := s.conn.inputBuffer.readable

theorem input_congr {s t : ConnState} (h : s.conn = t.conn) : s.input = t.input := by
  rw [input, input, h]

section Input

variable (s : ConnState)

@[simp] theorem emit_input (effect : Effect) : (s.emit effect).input = s.input := rfl
@[simp] theorem setState_input (state : StateE) : (s.setState state).input = s.input := rfl
@[simp] theorem setOutput_input (buffer : ValidBuffer) :
    (s.setOutput buffer).input = s.input := rfl
@[simp] theorem setInput_input (buffer : ValidBuffer) :
    (s.setInput buffer).input = buffer.readable := rfl
@[simp] theorem enableWriting_input : s.enableWriting.input = s.input := rfl
@[simp] theorem disableWriting_input : s.disableWriting.input = s.input := rfl

@[simp] theorem notifyWriteComplete_input : s.notifyWriteComplete.input = s.input :=
  input_congr (by simp)

@[simp] theorem shutdownInLoop_input : s.shutdownInLoop.input = s.input := input_congr (by simp)

@[simp] theorem appendRemaining_input (remaining : List Byte) :
    (s.appendRemaining remaining).input = s.input := by
  have hnotified (oldLen newLen : ℕ) : (s.notifyHighWaterMark oldLen newLen).input = s.input :=
    input_congr (by simp)
  unfold appendRemaining
  dsimp only
  split_ifs <;> simp [hnotified]

@[simp] theorem sendInLoop_input (data : List Byte) (result : IoResult) :
    (s.sendInLoop data result).input = s.input := by
  unfold sendInLoop
  cases result with
  | bytes n =>
      dsimp only
      split_ifs <;> simp
  | error errno =>
      dsimp only
      split_ifs <;> simp

@[simp] theorem handleWrite_input (result : IoResult) :
    (s.handleWrite result).input = s.input := by
  have hfinished (t : ConnState) : t.finishWriting.input = t.input := by
    unfold finishWriting
    dsimp only
    split_ifs <;> simp
  unfold handleWrite
  cases result with
  | bytes n =>
      dsimp only
      split_ifs <;> simp [hfinished]
  | error errno =>
      dsimp only
      split_ifs <;> simp

/-- A read appends what the kernel gives. -/
theorem handleRead_input {bytes : List Byte} (hne : bytes ≠ [])
    (hfits : bytes.length ≤ s.conn.inputBuffer.raw.iovecBytes) :
    (s.handleRead (.data bytes)).input = s.input ++ bytes := by
  cases bytes with
  | nil => exact absurd rfl hne
  | cons byte rest => exact ValidBuffer.readable_readFd _ hfits

end Input

/-! ## What the kernel reports -/

/-- Does the kernel watch the socket for `EPOLLIN`? -/
def watchesIn (s : ConnState) : Bool :=
  (s.poller.interest s.conn.channel.fd).any fun entry => entry.2 &&& EPOLLIN ≠ 0

/-- Sending and receiving leave both bits of the read interest alone. -/
theorem Traffic.readEvents_eq {s t : ConnState} (h : Traffic s t) :
    t.conn.channel.events &&& Channel.kReadEvent =
      s.conn.channel.events &&& Channel.kReadEvent := by
  induction h with
  | refl => rfl
  | tail _ hlast ih =>
      rw [← ih]
      cases hlast with
      | emit effect _ => rfl
      | queueInLoop functor _ => rfl
      | setInput buffer => rfl
      | setOutput buffer => rfl
      | enableWriting =>
          simp only [enableWriting, setEvents_events, Channel.or_kWriteEvent_and_kReadEvent]
      | disableWriting =>
          simp only [disableWriting, setEvents_events, Channel.andNot_kWriteEvent_and_kReadEvent]

end ConnState

namespace Session

open FileOrder (Answers)
open SendPath (watchesOut)

/-! ## What goes to the peer -/

/-- A call that the user makes in the message callback. -/
inductive Reply
  | send (data : List Byte)
  | shutdown
  deriving DecidableEq, Repr

/-- What a handler puts out is a stream of bytes; `none` is a `shutdown`. -/
abbrev Symbol := Option Byte

def Reply.symbols : Reply → List Symbol
  | send data => data.map some
  | shutdown => [none]

/-- The bytes before the first `shutdown`. -/
def bytesOf : List Symbol → List Byte
  | [] => []
  | some byte :: rest => byte :: bytesOf rest
  | none :: _ => []

theorem bytesOf_map_some (data : List Byte) : bytesOf (data.map some) = data := by
  induction data with
  | nil => rfl
  | cons byte rest ih => rw [List.map_cons, bytesOf, ih]

theorem bytesOf_append (first second : List Symbol) : bytesOf (first ++ second) =
    if none ∈ first then bytesOf first else bytesOf first ++ bytesOf second := by
  induction first with
  | nil => simp [bytesOf]
  | cons symbol rest ih =>
      cases symbol with
      | none => simp [bytesOf]
      | some byte =>
          simp only [List.cons_append, bytesOf, ih, List.mem_cons, reduceCtorEq, false_or]
          split_ifs <;> rfl

/-- The call on the loop thread; `result` answers the direct `::write` of `send`. -/
def Reply.run (s : ConnState) (result : IoResult) : Reply → ConnState
  | send data => s.send data result
  | shutdown => s.shutdown

def Reply.Answered (result : IoResult) : Reply → Prop
  | send data => Answers data.length result
  | shutdown => True

/-- The calls of the message callback, one after the other. -/
def runReplies (s : ConnState) (calls : List (Reply × IoResult)) : ConnState :=
  calls.foldl (fun t call => call.1.run t call.2) s

/-- `out` has been handed to the connection: the kernel has taken its bytes or they wait in
the output buffer, and the write end is closed once none of them waits after a `shutdown`. -/
structure Delivers (files : ℕ → List Byte) (out : List Symbol) (s : ConnState) : Prop where
  bytes : acceptedBytes files s.effects ++ s.output = bytesOf out
  writing : s.isWriting = true ↔ s.output ≠ []
  state_eq : s.conn.state = if none ∈ out then .kDisconnecting else .kConnected
  closed_eq : s.occurrences .shutdownWrite = if none ∈ out ∧ s.output = [] then 1 else 0
  registered : s.Open
  reading : s.conn.channel.events &&& EPOLLIN ≠ 0

section Delivers

variable {files : ℕ → List Byte} {out : List Symbol} {s t : ConnState}

/-- The read interest after a chain that moves data. -/
theorem reading_of_traffic (htraffic : s.Traffic t)
    (hreading : s.conn.channel.events &&& EPOLLIN ≠ 0) :
    t.conn.channel.events &&& EPOLLIN ≠ 0 := by
  have hbit : Channel.kReadEvent &&& EPOLLIN = EPOLLIN := by decide
  rw [← hbit, ← BitVec.and_assoc] at hreading ⊢
  rwa [htraffic.readEvents_eq]

theorem Delivers.send (h : Delivers files out s) {data : List Byte} {result : IoResult}
    (hanswers : Answers data.length result) :
    Delivers files (out ++ data.map some) (s.send data result) := by
  have hnone : none ∈ out ++ data.map some ↔ none ∈ out := by simp
  by_cases hshut : none ∈ out
  · have hstate : s.conn.state = .kDisconnecting := by rw [h.state_eq, if_pos hshut]
    have hsame : s.send data result = s := by simp [ConnState.send, hstate]
    rw [hsame]
    refine ⟨?_, h.writing, ?_, ?_, h.registered, h.reading⟩
    · rw [bytesOf_append, if_pos hshut, h.bytes]
    · rw [h.state_eq]
      simp only [hnone]
    · rw [h.closed_eq]
      simp only [hnone]
  · have hstate : s.conn.state = .kConnected := by rw [h.state_eq, if_neg hshut]
    have hsend : s.send data result = s.sendInLoop data result := by simp [ConnState.send, hstate]
    have htraffic := s.traffic_sendInLoop data result
    have hkept : SendPath.drops s result = false := by simp [SendPath.drops, hanswers.2]
    rw [hsend]
    refine ⟨?_, SendPath.writing_sendInLoop data result h.writing, ?_, ?_,
      htraffic.open h.registered, reading_of_traffic htraffic h.reading⟩
    · rw [SendPath.bytes_sendInLoop, hkept, h.bytes, bytesOf_append, if_neg hshut,
        bytesOf_map_some]
      simp
    · rw [htraffic.state_eq, h.state_eq]
      simp only [hnone]
    · rw [(s.emits_sendInLoop data result).occurrences_eq id, h.closed_eq]
      simp [hshut]

theorem Delivers.shutdown (h : Delivers files out s) :
    Delivers files (out ++ [none]) s.shutdown := by
  by_cases hshut : none ∈ out
  · have hstate : s.conn.state = .kDisconnecting := by rw [h.state_eq, if_pos hshut]
    have hsame : s.shutdown = s := by simp [ConnState.shutdown, hstate]
    rw [hsame]
    refine ⟨?_, h.writing, ?_, ?_, h.registered, h.reading⟩
    · rw [bytesOf_append, if_pos hshut, h.bytes]
    · simp [h.state_eq, hshut]
    · simp [h.closed_eq, hshut]
  · have hstate : s.conn.state = .kConnected := by rw [h.state_eq, if_neg hshut]
    have hshutdown : s.shutdown = (s.setState .kDisconnecting).shutdownInLoop := by
      simp [ConnState.shutdown, hstate]
    have htraffic := (s.setState .kDisconnecting).traffic_shutdownInLoop
    have hwaiting : s.isWriting = false ↔ s.output = [] := by
      rw [← Bool.not_eq_true, h.writing, not_not]
    rw [hshutdown]
    refine ⟨?_, ?_, ?_, ?_, ?_, ?_⟩
    · rw [bytesOf_append, if_neg hshut]
      simpa [bytesOf] using h.bytes
    · simpa using h.writing
    · rw [htraffic.state_eq]
      simp
    · have hbefore : s.occurrences .shutdownWrite = 0 := by simp [h.closed_eq, hshut]
      have hstored : (s.setState .kDisconnecting).occurrences .shutdownWrite = 0 := hbefore
      rw [ConnState.occurrences_shutdownInLoop, hstored]
      cases hwriting : s.isWriting <;> simp_all
    · exact htraffic.open ⟨h.registered.mirrors, h.registered.added, h.registered.reading⟩
    · exact reading_of_traffic htraffic h.reading

theorem Delivers.handleWrite (h : Delivers files out s) (result : IoResult) :
    Delivers files out (s.handleWrite result) := by
  have htraffic := s.traffic_handleWrite result
  have hwriting := SendPath.writing_handleWrite result h.writing
  refine ⟨?_, hwriting, ?_, ?_, htraffic.open h.registered,
    reading_of_traffic htraffic h.reading⟩
  · rw [SendPath.bytes_handleWrite, h.bytes]
  · rw [htraffic.state_eq, h.state_eq]
  · have hdrained : (s.handleWrite result).isWriting = false ↔
        (s.handleWrite result).output = [] := by
      rw [← Bool.not_eq_true, hwriting, not_not]
    have hstate : s.conn.state = .kDisconnecting ↔ none ∈ out := by
      rw [h.state_eq]
      split_ifs with hshut <;> simp [hshut]
    rw [ConnState.occurrences_handleWrite, h.closed_eq]
    simp only [h.writing, hdrained, hstate]
    by_cases hempty : s.output = []
    · have hoff : s.conn.channel.isWriting = false :=
        Bool.eq_false_iff.2 fun hon => h.writing.1 hon hempty
      have hsame : s.handleWrite result = s := by simp [ConnState.handleWrite, hoff]
      simp [hsame, hempty]
    · simp [hempty, and_comm]

/-- A read concerns the input buffer only. -/
theorem Delivers.handleRead (h : Delivers files out s) {result : Buffer.ReadResult}
    (hopen : result ≠ .data []) : Delivers files out (s.handleRead result) := by
  have htraffic := s.traffic_handleRead hopen
  obtain ⟨houtput, hinterest, haccepted⟩ := s.handleRead_sendPath files hopen
  refine ⟨?_, ?_, ?_, ?_, htraffic.open h.registered, reading_of_traffic htraffic h.reading⟩
  · rw [houtput, haccepted, h.bytes]
  · rw [houtput, hinterest, h.writing]
  · rw [htraffic.state_eq, h.state_eq]
  · rw [(s.emits_handleRead hopen).occurrences_eq (by simp), houtput, h.closed_eq]

theorem Delivers.setInput (h : Delivers files out s) (buffer : ValidBuffer) :
    Delivers files out (s.setInput buffer) :=
  ⟨h.bytes, h.writing, h.state_eq, h.closed_eq,
    ⟨h.registered.mirrors, h.registered.added, h.registered.reading⟩, h.reading⟩

theorem Delivers.run (h : Delivers files out s) {reply : Reply} {result : IoResult}
    (hanswered : reply.Answered result) :
    Delivers files (out ++ reply.symbols) (reply.run s result) := by
  cases reply with
  | send data => exact h.send hanswered
  | shutdown => exact h.shutdown

theorem Delivers.runReplies {calls : List (Reply × IoResult)} (h : Delivers files out s)
    (hanswered : ∀ call ∈ calls, call.1.Answered call.2) :
    Delivers files (out ++ (calls.map Prod.fst).flatMap Reply.symbols) (runReplies s calls) := by
  induction calls generalizing out s with
  | nil => simpa [Session.runReplies] using h
  | cons call rest ih =>
      obtain ⟨hcall, hrest⟩ := List.forall_mem_cons.1 hanswered
      have hnext := ih (h.run hcall) hrest
      simpa [Session.runReplies] using hnext

theorem Delivers.interest_eq (h : Delivers files out s) :
    s.poller.interest s.conn.channel.fd = some (s.self, s.conn.channel.events) := by
  rw [h.registered.mirrors.interest_eq, if_pos h.registered.added]

theorem Delivers.watchesIn (h : Delivers files out s) : s.watchesIn = true := by
  rw [ConnState.watchesIn, h.interest_eq]
  exact decide_eq_true h.reading

theorem Delivers.watchesOut_eq (h : Delivers files out s) : watchesOut s = s.isWriting := by
  rw [watchesOut, h.interest_eq]
  rfl

end Delivers

/-! ## The session -/

/-- The message callback of the user.  From its state and the bytes in the input buffer it
determines its next state, how many bytes it takes with `retrieve`, and its calls. -/
abbrev Handler (σ : Type*) := σ → List Byte → σ × ℕ × List Reply

variable {σ : Type*}

/-- What the handler does, without the connection. -/
def Handler.consumer (handler : Handler σ) : Consumer σ Byte Symbol := fun user input =>
  let response := handler user input
  (response.1, response.2.1, response.2.2.flatMap Reply.symbols)

structure System (σ : Type*) where
  conn : ConnState
  user : σ
  /-- what the kernel has received and `handleRead` has not taken -/
  socket : List Byte := []
  /-- what the peer has sent -/
  arrived : List Byte := []

inductive Label
  | arrive (data : List Byte)
  | handleRead (n : ℕ) (results : List IoResult)
  | handleReadError (errno : Errno)
  | handleWrite (result : IoResult)
  deriving DecidableEq, Repr

/-- The connection when the kernel has given `n` bytes to `handleRead`. -/
def System.read (p : System σ) (n : ℕ) : ConnState := p.conn.handleRead (.data (p.socket.take n))

/-- What the message callback does then. -/
def System.response (handler : Handler σ) (p : System σ) (n : ℕ) : σ × ℕ × List Reply :=
  handler p.user (p.read n).input

/-- `handleRead` with the message callback, whose calls get the answers `results`. -/
def System.handleRead (handler : Handler σ) (p : System σ) (n : ℕ) (results : List IoResult) :
    System σ :=
  let response := p.response handler n
  let retrieved := (p.read n).setInput ((p.read n).conn.inputBuffer.retrieve response.2.1)
  { p with
    conn := runReplies retrieved (response.2.2.zip results)
    user := response.1
    socket := p.socket.drop n }

/-- The loop handles what the kernel reports.  The kernel gives `readv` some of the bytes it
has, and it does not report a fault to the direct write of a `send`. -/
def Step (handler : Handler σ) (p : System σ) (label : Label) (q : System σ) : Prop :=
  match label with
  | .arrive data => q = { p with socket := p.socket ++ data, arrived := p.arrived ++ data }
  | .handleRead n results =>
      p.conn.watchesIn = true ∧ 0 < n ∧ n ≤ p.socket.length ∧
        n ≤ p.conn.conn.inputBuffer.raw.iovecBytes ∧
        List.Forall₂ (fun reply result => reply.Answered result) (p.response handler n).2.2
          results ∧
        q = p.handleRead handler n results
  | .handleReadError errno =>
      p.conn.watchesIn = true ∧ q = { p with conn := p.conn.handleRead (.error errno) }
  | .handleWrite result =>
      watchesOut p.conn = true ∧ result.Fits p.conn.output.length ∧
        q = { p with conn := p.conn.handleWrite result }

/-- The connection has just been established. -/
def start (s : ConnState) (user : σ) : System σ := { conn := s.connectEstablished, user := user }

/-- The connection is where the handler is. -/
structure Matches (files : ℕ → List Byte) (a : Progress σ Byte Symbol) (p : System σ) : Prop where
  user_eq : p.user = a.state
  input_eq : p.conn.input = a.kept
  delivers : Delivers files a.out p.conn

/-- The connection carries out the handler on the pieces that were read. -/
structure Serves (handler : Handler σ) (files : ℕ → List Byte) (user : σ)
    (pieces : List (List Byte)) (p : System σ) : Prop where
  matched : Matches files (feedAll handler.consumer ⟨user, [], []⟩ pieces) p
  nonempty : ∀ piece ∈ pieces, piece ≠ []
  arrived_eq : p.arrived = pieces.flatten ++ p.socket

section Serves

variable {handler : Handler σ} {files : ℕ → List Byte} {user : σ} {pieces : List (List Byte)}
  {p q : System σ} {label : Label}

theorem Serves.watchesIn (h : Serves handler files user pieces p) : p.conn.watchesIn = true :=
  h.matched.delivers.watchesIn

theorem start_serves {s : ConnState} (hfresh : s.Fresh) (hinput : s.input = []) (user : σ) :
    Serves handler files user [] (start s user) where
  matched := by
    have hstream : SendPath.Stream files ⟨s.connectEstablished, []⟩ :=
      SendPath.initial_stream hfresh
    have hnone : s.connectEstablished.output = [] := hfresh.output_eq
    refine ⟨rfl, hinput, hstream.bytes, hstream.writing, rfl, ?_, hstream.registered, ?_⟩
    · have heffects : s.connectEstablished.effects = [.connectionCallback] := by
        simp [ConnState.connectEstablished, ConnState.enableReading, ConnState.tie,
          hfresh.effects_eq]
      simp [feedAll, ConnState.occurrences, start, heffects]
    · change s.connectEstablished.conn.channel.events &&& EPOLLIN ≠ 0
      rw [ConnState.connectEstablished_events, hfresh.events_eq]
      decide
  nonempty := by simp
  arrived_eq := rfl

theorem runReplies_input (s : ConnState) (calls : List (Reply × IoResult)) :
    (runReplies s calls).input = s.input := by
  induction calls generalizing s with
  | nil => rfl
  | cons call rest ih =>
      have hfirst : (call.1.run s call.2).input = s.input := by
        cases call.1 with
        | send data =>
            simp only [Reply.run, ConnState.send]
            split_ifs <;> simp
        | shutdown =>
            simp only [Reply.run, ConnState.shutdown]
            split_ifs <;> simp
      exact (ih _).trans hfirst

theorem Matches.handleRead {a : Progress σ Byte Symbol} (h : Matches files a p) {n : ℕ}
    {results : List IoResult} (hstep : Step handler p (.handleRead n results) q) :
    Matches files (feed handler.consumer a (p.socket.take n)) q := by
  obtain ⟨-, hpos, hle, hfits, hanswered, rfl⟩ := hstep
  have hlength : (p.socket.take n).length = n := List.length_take_of_le hle
  have hne : p.socket.take n ≠ [] := by
    rw [← List.length_pos_iff, hlength]
    exact hpos
  have hread : (p.read n).input = a.kept ++ p.socket.take n := by
    rw [System.read, p.conn.handleRead_input hne (hlength.trans_le hfits), h.input_eq]
  have hdelivers : Delivers files a.out (p.read n) := h.delivers.handleRead (by simpa using hne)
  have hresponse : handler a.state (a.kept ++ p.socket.take n) = p.response handler n := by
    rw [System.response, h.user_eq, hread]
  have hreplies : ((p.response handler n).2.2.zip results).map Prod.fst =
      (p.response handler n).2.2 := List.map_fst_zip hanswered.length_eq.le
  refine ⟨?_, ?_, ?_⟩
  · simp only [feed, Handler.consumer, hresponse, System.handleRead]
  · simp only [feed, Handler.consumer, hresponse, System.handleRead, runReplies_input]
    rw [ConnState.setInput_input, ValidBuffer.readable_retrieve, ← hread]
    rfl
  · have hall := (hdelivers.setInput ((p.read n).conn.inputBuffer.retrieve
      (p.response handler n).2.1)).runReplies fun call hmem =>
        (List.forall₂_iff_zip.1 hanswered).2 hmem
    rw [hreplies] at hall
    simp only [feed, Handler.consumer, hresponse]
    exact hall

theorem Serves.step (h : Serves handler files user pieces p) (hstep : Step handler p label q) :
    ∃ more, Serves handler files user (pieces ++ more) q := by
  obtain ⟨hmatched, hnonempty, harrived⟩ := h
  cases label with
  | arrive data =>
      obtain rfl := hstep
      refine ⟨[], ?_, by simpa using hnonempty, by simp [harrived]⟩
      rw [List.append_nil]
      exact ⟨hmatched.user_eq, hmatched.input_eq, hmatched.delivers⟩
  -- the one step that gives the handler a piece
  | handleRead n results =>
      have hread := hmatched.handleRead hstep
      obtain ⟨-, hpos, hle, -, -, rfl⟩ := hstep
      refine ⟨[p.socket.take n], ?_, ?_, ?_⟩
      · rwa [feedAll_snoc]
      · intro piece hmem
        rcases List.mem_append.1 hmem with hold | hnew
        · exact hnonempty piece hold
        · rw [List.mem_singleton.1 hnew, ← List.length_pos_iff, List.length_take_of_le hle]
          exact hpos
      · simp [System.handleRead, harrived]
  | handleReadError errno =>
      obtain ⟨-, rfl⟩ := hstep
      refine ⟨[], ?_, by simpa using hnonempty, by simp [harrived]⟩
      rw [List.append_nil]
      have hopen : Buffer.ReadResult.error errno ≠ .data [] := by simp
      exact ⟨hmatched.user_eq, hmatched.input_eq, hmatched.delivers.handleRead hopen⟩
  | handleWrite result =>
      obtain ⟨-, -, rfl⟩ := hstep
      refine ⟨[], ?_, by simpa using hnonempty, by simp [harrived]⟩
      rw [List.append_nil]
      exact ⟨hmatched.user_eq, (p.conn.handleWrite_input result).trans hmatched.input_eq,
        hmatched.delivers.handleWrite result⟩

theorem run_serves (files : ℕ → List Byte) {s : ConnState} (hfresh : s.Fresh)
    (hinput : s.input = []) {labels : List Label}
    (hrun : Run (Step handler) (start s user) labels p) :
    ∃ pieces, Serves handler files user pieces p := by
  refine hrun.invariant (P := fun p => ∃ pieces, Serves handler files user pieces p)
    ⟨[], start_serves hfresh hinput user⟩ ?_
  rintro a label b ⟨pieces, h⟩ hstep
  obtain ⟨more, hmore⟩ := h.step hstep
  exact ⟨_, hmore⟩

end Serves

/-- A session carries out its handler: after any run the handler has seen the bytes that were
read, in some pieces, the user and the input buffer are where it is then, and the bytes
that the kernel has taken, followed by those in the output buffer, are those that it put out
before its first `shutdown`.  The write end is closed once, when the last of these has been
taken. -/
theorem session_serves (handler : Handler σ) (files : ℕ → List Byte) (user : σ) (s : ConnState)
    (hfresh : s.Fresh) (hinput : s.input = []) (labels : List Label) (p : System σ)
    (hrun : Run (Step handler) (start s user) labels p) :
    ∃ pieces : List (List Byte), (∀ piece ∈ pieces, piece ≠ []) ∧
      pieces.flatten ++ p.socket = p.arrived ∧
      let a := feedAll handler.consumer ⟨user, [], []⟩ pieces
      p.user = a.state ∧ p.conn.input = a.kept ∧
      acceptedBytes files p.conn.effects ++ p.conn.output = bytesOf a.out ∧
      p.conn.occurrences .shutdownWrite = if none ∈ a.out ∧ p.conn.output = [] then 1 else 0 := by
  obtain ⟨pieces, h⟩ := run_serves files hfresh hinput hrun
  exact ⟨pieces, h.nonempty, h.arrived_eq.symm, h.matched.user_eq, h.matched.input_eq,
    h.matched.delivers.bytes, h.matched.delivers.closed_eq⟩

/-- The handler of an echo server. -/
def echo : Handler Unit := fun _ input => ((), input.length, [.send input])

theorem echo_incremental : Incremental echo.consumer := by
  intro p first second _ _
  simp [feed, Handler.consumer, echo, Reply.symbols]

/-- The echo server has been sent two bytes. -/
def asked : System Unit :=
  { start SendPath.fresh () with socket := [1, 2], arrived := [1, 2] }

theorem asked_read_input : (asked.read 2).input = [1, 2] :=
  ConnState.handleRead_input _ (by simp [asked]) (Buffer.le_iovecBytes (by decide))

theorem run_echo : Run (Step echo) (start SendPath.fresh ())
    [.arrive [1, 2], .handleRead 2 [.bytes 1]] (asked.handleRead echo 2 [.bytes 1]) := by
  have harrive : Step echo (start SendPath.fresh ()) (.arrive [1, 2]) asked := rfl
  refine (Run.single harrive).snoc
    ⟨by decide, by decide, by decide, Buffer.le_iovecBytes (by decide), ?_, rfl⟩
  have hanswers : Answers (asked.read 2).input.length (.bytes 1) := by
    rw [asked_read_input]
    exact ⟨Nat.le_succ 1, rfl⟩
  exact .cons hanswers .nil

/-- The kernel takes back one of the two bytes, the other one waits. -/
theorem session_serves_echo :
    let p := asked.handleRead echo 2 [.bytes 1]
    acceptedBytes (fun _ => []) p.conn.effects ++ p.conn.output = [1, 2] := by
  obtain ⟨pieces, hne, hstream, -, -, hbytes, -⟩ := session_serves echo (fun _ => []) ()
    SendPath.fresh SendPath.fresh_fresh rfl _ _ run_echo
  have hjoined : pieces.flatten = [[1, 2]].flatten := (List.append_nil _).symm.trans hstream
  rw [feedAll_congr echo_incremental _ hne (by simp) hjoined] at hbytes
  exact hbytes

/-- If the handler does the same for two pieces as for the two in one, nothing depends on how
the kernel, the buffers and the loop have cut the stream: where two sessions have read the
same bytes, their users are in the same state, their input buffers agree, and so do the
bytes that they have sent or still have to send. -/
theorem session_independent (handler : Handler σ) (hincremental : Incremental handler.consumer)
    (files : ℕ → List Byte) (user : σ) (s s' : ConnState) (hfresh : s.Fresh) (hfresh' : s'.Fresh)
    (hinput : s.input = []) (hinput' : s'.input = []) (labels labels' : List Label)
    (p p' : System σ) (hrun : Run (Step handler) (start s user) labels p)
    (hrun' : Run (Step handler) (start s' user) labels' p') (bytes : List Byte)
    (hread : p.arrived = bytes ++ p.socket) (hread' : p'.arrived = bytes ++ p'.socket) :
    p.user = p'.user ∧ p.conn.input = p'.conn.input ∧
      acceptedBytes files p.conn.effects ++ p.conn.output =
        acceptedBytes files p'.conn.effects ++ p'.conn.output := by
  obtain ⟨pieces, h⟩ := run_serves files hfresh hinput hrun
  obtain ⟨pieces', h'⟩ := run_serves files hfresh' hinput' hrun'
  have hstream : pieces.flatten = pieces'.flatten :=
    (List.append_cancel_right (h.arrived_eq.symm.trans hread)).trans
      (List.append_cancel_right (h'.arrived_eq.symm.trans hread')).symm
  have hsame := feedAll_congr hincremental ⟨user, [], []⟩ h.nonempty h'.nonempty hstream
  have hmatched := h.matched
  rw [hsame] at hmatched
  exact ⟨hmatched.user_eq.trans h'.matched.user_eq.symm,
    hmatched.input_eq.trans h'.matched.input_eq.symm,
    hmatched.delivers.bytes.trans h'.matched.delivers.bytes.symm⟩

/-- The same two bytes in two reads, and the kernel takes none back. -/
theorem run_echo_split : Run (Step echo) (start SendPath.fresh ())
    [.arrive [1, 2], .handleRead 1 [.bytes 0], .handleRead 1 [.bytes 0]]
    ((asked.handleRead echo 1 [.bytes 0]).handleRead echo 1 [.bytes 0]) := by
  have harrive : Step echo (start SendPath.fresh ()) (.arrive [1, 2]) asked := rfl
  have hanswered (p : System Unit) (n : ℕ) :
      List.Forall₂ (fun reply result => reply.Answered result) (p.response echo n).2.2
        [.bytes 0] :=
    .cons ⟨Nat.zero_le _, rfl⟩ .nil
  have hfirst : Run (Step echo) (start SendPath.fresh ()) [.arrive [1, 2], .handleRead 1 [.bytes 0]]
      (asked.handleRead echo 1 [.bytes 0]) := (Run.single harrive).snoc
    ⟨by decide, by decide, by decide, Buffer.le_iovecBytes (by decide), hanswered asked 1, rfl⟩
  obtain ⟨pieces, h⟩ := run_serves (fun _ => []) SendPath.fresh_fresh rfl hfirst
  exact hfirst.snoc
    ⟨h.watchesIn, by decide, by decide, Buffer.le_iovecBytes (by decide), hanswered _ 1, rfl⟩

theorem session_independent_echo :
    let p := asked.handleRead echo 2 [.bytes 1]
    let p' := (asked.handleRead echo 1 [.bytes 0]).handleRead echo 1 [.bytes 0]
    acceptedBytes (fun _ => []) p.conn.effects ++ p.conn.output =
      acceptedBytes (fun _ => []) p'.conn.effects ++ p'.conn.output :=
  (session_independent echo echo_incremental (fun _ => []) () SendPath.fresh SendPath.fresh
    SendPath.fresh_fresh SendPath.fresh_fresh rfl rfl _ _ _ _ run_echo run_echo_split [1, 2] rfl
    rfl).2.2

/-! ## Progress -/

/-- The kernel has given or taken at least one byte. -/
def Label.Moves : Label → Prop
  | .handleRead _ _ => True
  | .handleWrite (.bytes n) => 0 < n
  | _ => False

/-- A step of the connection that moves bytes. -/
def Moves (handler : Handler σ) (p q : System σ) : Prop :=
  ∃ label : Label, Step handler p label q ∧ label.Moves

section Progress

variable {handler : Handler σ} {files : ℕ → List Byte} {user : σ} {pieces : List (List Byte)}
  {p q : System σ} {label : Label} {out : List Symbol} {s : ConnState}

/-- What `handleWrite` hands to the kernel leaves the buffer. -/
theorem handleWrite_output_length (hwriting : s.isWriting = true) {n : ℕ} (hpos : 0 < n) :
    (s.handleWrite (.bytes n)).output.length = s.output.length - n := by
  have hchannel : s.conn.channel.isWriting = true := hwriting
  have hfinished (t : ConnState) : t.finishWriting.output.length = t.output.length := by simp
  simp only [ConnState.handleWrite, hchannel, if_true, hpos.ne', if_false]
  split_ifs <;> simp

/-- First the kernel runs out of bytes to be read, then the buffer of bytes to be written. -/
theorem Serves.accessible (h : Serves handler files user pieces p) :
    Acc (fun q p => Moves handler p q) p := by
  have hlex : WellFounded (Prod.Lex (· < ·) (· < · : ℕ → ℕ → Prop)) :=
    WellFounded.prod_lex Nat.lt_wfRel.wf Nat.lt_wfRel.wf
  have hmeasure := InvImage.wf (fun p : System σ => (p.socket.length, p.conn.output.length)) hlex
  induction p using hmeasure.induction generalizing pieces with
  | _ p ih =>
      refine ⟨p, fun q ⟨label, hstep, hmoves⟩ => ?_⟩
      obtain ⟨more, hq⟩ := h.step hstep
      refine ih q ?_ hq
      cases label with
      | arrive data => exact hmoves.elim
      | handleReadError errno => exact hmoves.elim
      | handleRead n results =>
          obtain ⟨-, hpos, hle, -, -, rfl⟩ := hstep
          refine Prod.Lex.left _ _ ?_
          simp only [System.handleRead, List.length_drop]
          omega
      | handleWrite result =>
          cases result with
          | error errno => exact hmoves.elim
          | bytes n =>
              obtain ⟨hwatched, hfits, rfl⟩ := hstep
              have hpos : 0 < n := hmoves
              have hle : n ≤ p.conn.output.length := hfits
              rw [h.matched.delivers.watchesOut_eq] at hwatched
              refine Prod.Lex.right _ ?_
              simp only [handleWrite_output_length hwatched hpos]
              omega

/-- The kernel may take nothing of the replies. -/
theorem forall₂_answered (replies : List Reply) :
    List.Forall₂ (fun reply result => reply.Answered result) replies
      (replies.map fun _ => .bytes 0) := by
  rw [List.forall₂_map_right_iff, List.forall₂_same]
  intro reply _
  cases reply with
  | send data => exact ⟨Nat.zero_le _, rfl⟩
  | shutdown => trivial

/-- The connection waits for the peer only when it has handed over everything. -/
theorem Serves.settled (h : Serves handler files user pieces p)
    (hstuck : ∀ q, ¬ Moves handler p q) : p.socket = [] ∧ p.conn.output = [] := by
  have hdelivers := h.matched.delivers
  constructor
  · by_contra hwaiting
    exact hstuck _ ⟨.handleRead 1 _, ⟨hdelivers.watchesIn, Nat.one_pos,
      List.length_pos_iff.2 hwaiting, Buffer.le_iovecBytes (by decide), forall₂_answered _, rfl⟩,
      trivial⟩
  · by_contra hwaiting
    have hwatched : watchesOut p.conn = true := by
      rw [hdelivers.watchesOut_eq, hdelivers.writing]
      exact hwaiting
    exact hstuck _ ⟨.handleWrite (.bytes 1), ⟨hwatched, List.length_pos_iff.2 hwaiting, rfl⟩,
      Nat.one_pos⟩

theorem moves_arrived_eq (hstep : Step handler p label q) (hmoves : label.Moves) :
    q.arrived = p.arrived := by
  cases label with
  | arrive data => exact hmoves.elim
  | handleReadError errno => exact hmoves.elim
  | handleRead n results =>
      obtain ⟨-, -, -, -, -, rfl⟩ := hstep
      rfl
  | handleWrite result =>
      obtain ⟨-, -, rfl⟩ := hstep
      rfl

end Progress

/-- From any state of a session, the steps that move bytes come to an end, and they end only
where everything that the peer has sent has been read and given to the handler, and all
that the handler has put out for it has been handed to the kernel. -/
theorem session_settles (handler : Handler σ) (files : ℕ → List Byte) (user : σ) (s : ConnState)
    (hfresh : s.Fresh) (hinput : s.input = []) (labels : List Label) (p : System σ)
    (hrun : Run (Step handler) (start s user) labels p) :
    Acc (fun q p => Moves handler p q) p ∧ ((∀ q, ¬ Moves handler p q) →
      p.socket = [] ∧ p.conn.output = [] ∧
      ∃ pieces : List (List Byte), (∀ piece ∈ pieces, piece ≠ []) ∧ pieces.flatten = p.arrived ∧
        let a := feedAll handler.consumer ⟨user, [], []⟩ pieces
        p.user = a.state ∧ p.conn.input = a.kept ∧
        acceptedBytes files p.conn.effects = bytesOf a.out ∧
        p.conn.occurrences .shutdownWrite = if none ∈ a.out then 1 else 0) := by
  obtain ⟨pieces, h⟩ := run_serves files hfresh hinput hrun
  refine ⟨h.accessible, fun hstuck => ?_⟩
  obtain ⟨hsocket, houtput⟩ := h.settled hstuck
  have hbytes := h.matched.delivers.bytes
  have hclosed := h.matched.delivers.closed_eq
  refine ⟨hsocket, houtput, pieces, h.nonempty, ?_, h.matched.user_eq, h.matched.input_eq, ?_, ?_⟩
  · rw [h.arrived_eq, hsocket, List.append_nil]
  · rwa [houtput, List.append_nil] at hbytes
  · simpa [houtput] using hclosed

/-- However the echo server is brought to its end, it has sent back the two bytes. -/
theorem session_settles_echo : ∃ labels p, Run (Step echo) (start SendPath.fresh ()) labels p ∧
    (∀ q, ¬ Moves echo p q) ∧ p.socket = [] ∧
      acceptedBytes (fun _ => []) p.conn.effects = [1, 2] := by
  have hmoving := (session_settles echo (fun _ => []) () SendPath.fresh SendPath.fresh_fresh rfl
    _ _ run_echo).1
  obtain ⟨labels, p, hrun, hstuck⟩ := Run.exists_stuck hmoving
  have harrived : p.arrived = [1, 2] := hrun.invariant (P := fun p => p.arrived = [1, 2]) rfl
    fun _ _ _ h hstep => (moves_arrived_eq hstep.1 hstep.2).trans h
  have hwhole := run_echo.append (hrun.mono fun _ _ _ hstep => hstep.1)
  obtain ⟨hsocket, -, pieces, hne, hflatten, -, -, hbytes, -⟩ :=
    (session_settles echo (fun _ => []) () SendPath.fresh SendPath.fresh_fresh rfl
      _ p hwhole).2 hstuck
  refine ⟨_, p, hwhole, hstuck, hsocket, ?_⟩
  -- in whatever pieces it read them, they are the two bytes
  have hjoined : pieces.flatten = [[1, 2]].flatten := hflatten.trans harrived
  rw [feedAll_congr echo_incremental _ hne (by simp) hjoined] at hbytes
  exact hbytes

end Session

end MuduoLite
