import MuduoLite.Connection.Effects
import MuduoLite.Connection.SendPath
import MuduoLite.Connection.StateOrder
import MuduoLite.Library.Dispatch

/-!
# The order of calls from different threads

`send` and `shutdown` take effect at once on the loop thread.  On another thread they
test for `kConnected`, `shutdown` stores `kDisconnecting`, and then a functor is put into
the loop's queue.  A `send` has returned when its call has run or its functor is in the
queue, that is, when it is in the `line` of calls.

So a call that begins later comes behind it in the line, unless it is made on the loop
thread while the functor still waits (`InTurn`).  The bytes go to the socket in the order
in which the calls have run, and the write end is closed only when all bytes of these
calls have been written.

Calls are numbered in the order in which they begin.  There are no write faults.
-/

namespace MuduoLite

open Transition
open scoped List

namespace CallOrder

inductive Request
  | send (data : List Byte)
  | shutdown
  deriving DecidableEq, Repr

structure Call where
  number : ℕ
  request : Request
  deriving DecidableEq, Repr

def Call.bytes (c : Call) : List Byte :=
  match c.request with
  | .send data => data
  | .shutdown => []

structure System where
  conn : ConnState
  /-- the `sendInLoop` and `shutdownInLoop` calls, run or in the queue of the loop -/
  calls : Dispatch Call := {}
  /-- the calls on other threads that are about to queue their functor -/
  starting : List Call := []
  /-- the `shutdown` calls on other threads that are about to store `kDisconnecting` -/
  testing : List Call := []
  begun : ℕ := 0
  /-- has the connection been closed? -/
  closed : Bool := false

/-- `call` is a call on the loop thread, `callFrom` one on another thread. -/
inductive Label
  | call (request : Request) (result : IoResult)
  | callFrom (request : Request)
  | storeDisconnecting (c : Call)
  | queueInLoop (c : Call)
  | runFunctor (result : IoResult)
  | handle (loopCall : ConnState.LoopCall)
  deriving DecidableEq, Repr

/-- The event handlers, and `connectDestroyed`. -/
def IsHandler : ConnState.LoopCall → Prop
  | .handleRead _ => True
  | .handleWrite _ => True
  | .handleClose => True
  | .handleError => True
  | .connectDestroyed => True
  | _ => False

def perform (s : ConnState) (request : Request) (result : IoResult) : ConnState :=
  match request with
  | .send data => s.sendInLoop data result
  | .shutdown => s.shutdownInLoop

/-- What `send` and `shutdown` do to a connected connection before that. -/
def prepare (s : ConnState) (request : Request) : ConnState :=
  match request with
  | .send _ => s
  | .shutdown => s.setState .kDisconnecting

/-- The number of a call is the number of calls that have begun before it. -/
def System.next (p : System) (request : Request) : Call := ⟨p.begun, request⟩

def System.begin (p : System) : System := { p with begun := p.begun + 1 }

/-- A call on another thread has found `kConnected`. -/
def System.beginFrom (p : System) (c : Call) : System :=
  match c.request with
  | .send _ => { p.begin with starting := c :: p.starting }
  | .shutdown => { p.begin with testing := c :: p.testing }

def Step (p : System) (label : Label) (q : System) : Prop :=
  match label with
  | .call request result => result.isFault = false ∧
      q = if p.conn.conn.state = .kConnected then
        { p.begin with
          conn := perform (prepare p.conn request) request result
          calls := p.calls.runNow (p.next request) } else p.begin
  | .callFrom request =>
      q = if p.conn.conn.state = .kConnected then p.beginFrom (p.next request) else p.begin
  | .storeDisconnecting c => c ∈ p.testing ∧
      q = { p with
        conn := p.conn.setState .kDisconnecting
        testing := p.testing.erase c
        starting := c :: p.starting }
  | .queueInLoop c => c ∈ p.starting ∧
      q = { p with starting := p.starting.erase c, calls := p.calls.queue c }
  | .runFunctor result => result.isFault = false ∧ ∃ c rest, p.calls.pending = c :: rest ∧
      q = { p with conn := perform p.conn c.request result, calls := p.calls.runNext }
  | .handle loopCall => IsHandler loopCall ∧
      q = { p with
        conn := p.conn.call loopCall
        closed := p.closed || (p.conn.call loopCall).conn.state = .kDisconnected }

/-- The connection has just been established. -/
def start (s : ConnState) : System := { conn := s.connectEstablished }

/-- The step is a call that is not made on the loop thread while `x` still waits. -/
def InTurn (p : System) (x : Call) (request : Request) (label : Label) : Prop :=
  label = .callFrom request ∨ x ∈ p.calls.executed ∧ ∃ result, label = .call request result

def System.shutdownWrites (p : System) : ℕ := p.conn.occurrences .shutdownWrite

/-- The bytes of the calls that have run, in order. -/
def System.bytes (p : System) : List Byte := p.calls.executed.flatMap Call.bytes

/-- `x` has run, and the kernel has accepted the bytes of all calls that have run. -/
def Written (files : ℕ → List Byte) (p : System) (x : Call) : Prop :=
  x ∈ p.calls.executed ∧ acceptedBytes files p.conn.effects = p.bytes

/-- On a connected connection `prepare` and `perform` are `send` and `shutdown`. -/
theorem perform_prepare {s : ConnState} (hconnected : s.conn.state = .kConnected)
    (request : Request) (result : IoResult) : perform (prepare s request) request result =
      match request with
      | .send data => s.send data result
      | .shutdown => s.shutdown := by
  cases request with
  | send data => simp [perform, prepare, ConnState.send, hconnected]
  | shutdown => simp [perform, prepare, ConnState.shutdown, hconnected]

/-! ## The byte stream -/

/-- What the kernel has accepted and what waits are the bytes of the calls that have
run; until the connection is closed bytes wait exactly while the channel is writing. -/
structure Streams (files : ℕ → List Byte) (p : System) : Prop where
  bytes : acceptedBytes files p.conn.effects ++ p.conn.output = p.bytes
  writing : p.closed = false → (p.conn.isWriting = true ↔ p.conn.output ≠ [])

section Stream

variable {files : ℕ → List Byte} {s : ConnState}

theorem bytes_perform (c : Call) {result : IoResult} (hfault : result.isFault = false) :
    acceptedBytes files (perform s c.request result).effects ++
        (perform s c.request result).output =
      acceptedBytes files s.effects ++ s.output ++ c.bytes := by
  cases hrequest : c.request with
  | send data =>
      have hkept : SendPath.drops s result = false := by simp [SendPath.drops, hfault]
      simp [perform, SendPath.bytes_sendInLoop, hkept, Call.bytes, hrequest]
  | shutdown => simp [perform, Call.bytes, hrequest]

theorem writing_perform (request : Request) (result : IoResult)
    (h : s.isWriting = true ↔ s.output ≠ []) :
    (perform s request result).isWriting = true ↔ (perform s request result).output ≠ [] := by
  cases request with
  | send data => exact SendPath.writing_sendInLoop data result h
  | shutdown => simpa [perform] using h

@[simp] theorem prepare_output (request : Request) : (prepare s request).output = s.output := by
  cases request <;> rfl

@[simp] theorem prepare_isWriting (request : Request) :
    (prepare s request).isWriting = s.isWriting := by
  cases request <;> rfl

@[simp] theorem prepare_effects (request : Request) : (prepare s request).effects = s.effects := by
  cases request <;> rfl

theorem bytes_handler {loopCall : ConnState.LoopCall} (hhandler : IsHandler loopCall) :
    acceptedBytes files (s.call loopCall).effects ++ (s.call loopCall).output =
      acceptedBytes files s.effects ++ s.output := by
  have hclose (t : ConnState) : acceptedBytes files t.handleClose.effects ++ t.handleClose.output =
      acceptedBytes files t.effects ++ t.output := by
    have haccepted := t.emits_handleClose.acceptedBytes_eq files
      (by rintro effect (rfl | rfl) <;> rfl)
    have houtput : t.handleClose.output = t.output := rfl
    rw [haccepted, houtput]
  cases loopCall with
  | handleRead result =>
      by_cases hclosed : result = .data []
      · obtain ⟨buffer, heof⟩ := s.exists_handleRead_eof
        rw [ConnState.call, hclosed, heof]
        exact hclose (s.setInput buffer)
      · obtain ⟨houtput, _, haccepted⟩ := s.handleRead_sendPath files hclosed
        rw [ConnState.call, houtput, haccepted]
  | handleWrite result => exact SendPath.bytes_handleWrite s result
  | handleClose => exact hclose s
  | handleError => rfl
  | connectDestroyed =>
      have haccepted := s.emits_connectDestroyed.acceptedBytes_eq files (by rintro effect rfl; rfl)
      have houtput : s.connectDestroyed.output = s.output := by
        unfold ConnState.connectDestroyed
        split_ifs <;> rfl
      rw [ConnState.call, haccepted, houtput]
  | runFunctor functor result => exact hhandler.elim
  | send data result => exact hhandler.elim
  | sendFile fileDescriptor offset count result => exact hhandler.elim
  | shutdown => exact hhandler.elim

/-- A handler that does not close the connection keeps the write interest in step with
the buffer. -/
theorem writing_handler {loopCall : ConnState.LoopCall} (hhandler : IsHandler loopCall)
    (hopen : (s.call loopCall).conn.state ≠ .kDisconnected)
    (h : s.isWriting = true ↔ s.output ≠ []) :
    (s.call loopCall).isWriting = true ↔ (s.call loopCall).output ≠ [] := by
  cases loopCall with
  | handleRead result =>
      by_cases hclosed : result = .data []
      · subst hclosed
        exact absurd rfl hopen
      · obtain ⟨houtput, hwriting, _⟩ := s.handleRead_sendPath (fun _ => []) hclosed
        rw [ConnState.call, houtput, hwriting]
        exact h
  | handleWrite result => exact SendPath.writing_handleWrite result h
  | handleClose => exact absurd rfl hopen
  | handleError => exact h
  | connectDestroyed =>
      simp only [ConnState.call, StateOrder.connectDestroyed_eq] at hopen ⊢
      split_ifs at hopen ⊢ with hconnected
      · exact absurd rfl hopen
      · exact h
  | runFunctor functor result => exact hhandler.elim
  | send data result => exact hhandler.elim
  | sendFile fileDescriptor offset count result => exact hhandler.elim
  | shutdown => exact hhandler.elim

end Stream

section StreamSteps

variable {files : ℕ → List Byte} {p q : System} {label : Label}

/-- `c` runs, at once or as the next functor. -/
theorem Streams.perform (h : Streams files p) (c : Call) {result : IoResult}
    (hfault : result.isFault = false) {before : ConnState}
    (heffects : before.effects = p.conn.effects) (houtput : before.output = p.conn.output)
    (hwriting : before.isWriting = p.conn.isWriting)
    (hconn : q.conn = CallOrder.perform before c.request result)
    (hexecuted : q.calls.executed = p.calls.executed ++ [c]) (hclosed : q.closed = p.closed) :
    Streams files q where
  bytes := by
    calc acceptedBytes files q.conn.effects ++ q.conn.output
        = acceptedBytes files before.effects ++ before.output ++ c.bytes := by
          rw [hconn, bytes_perform c hfault]
      _ = p.bytes ++ c.bytes := by rw [heffects, houtput, h.bytes]
      _ = q.bytes := by
          rw [System.bytes, System.bytes, hexecuted, List.flatMap_append, List.flatMap_singleton]
  writing := fun hopen => by
    rw [hconn]
    refine writing_perform c.request result ?_
    rw [hwriting, houtput]
    exact h.writing (hclosed ▸ hopen)

theorem Streams.keep (h : Streams files p) (heffects : q.conn.effects = p.conn.effects)
    (houtput : q.conn.output = p.conn.output) (hwriting : q.conn.isWriting = p.conn.isWriting)
    (hexecuted : q.calls.executed = p.calls.executed) (hclosed : q.closed = p.closed) :
    Streams files q where
  bytes := by
    calc acceptedBytes files q.conn.effects ++ q.conn.output
        = acceptedBytes files p.conn.effects ++ p.conn.output := by rw [heffects, houtput]
      _ = p.bytes := h.bytes
      _ = q.bytes := by rw [System.bytes, System.bytes, hexecuted]
  writing := by
    rw [hwriting, houtput, hclosed]
    exact h.writing

theorem streams_step (h : Streams files p) (hstep : Step p label q) : Streams files q := by
  cases label with
  | call request result =>
      obtain ⟨hfault, rfl⟩ := hstep
      split_ifs
      · exact h.perform (p.next request) hfault (prepare_effects request) (prepare_output request)
          (prepare_isWriting request) rfl rfl rfl
      · exact h.keep rfl rfl rfl rfl rfl
  | callFrom request =>
      obtain rfl := hstep
      split_ifs
      · cases request <;> exact h.keep rfl rfl rfl rfl rfl
      · exact h.keep rfl rfl rfl rfl rfl
  | storeDisconnecting c =>
      obtain ⟨_, rfl⟩ := hstep
      exact h.keep rfl rfl rfl rfl rfl
  | queueInLoop c =>
      obtain ⟨_, rfl⟩ := hstep
      exact h.keep rfl rfl rfl rfl rfl
  | runFunctor result =>
      obtain ⟨hfault, c, rest, hpending, rfl⟩ := hstep
      refine h.perform c hfault rfl rfl rfl rfl ?_ rfl
      exact congrArg Dispatch.executed (p.calls.runNext_of_pending hpending)
  | handle loopCall =>
      obtain ⟨hhandler, rfl⟩ := hstep
      refine ⟨(bytes_handler hhandler).trans h.bytes, fun hopen => ?_⟩
      rw [Bool.or_eq_false_iff, decide_eq_false_iff_not] at hopen
      exact writing_handler hhandler hopen.2 (h.writing hopen.1)

theorem shutdownWrites_perform (s : ConnState) {request : Request} {result : IoResult}
    (hcloses : s.occurrences .shutdownWrite <
      (perform s request result).occurrences .shutdownWrite) :
    (perform s request result).isWriting = false := by
  cases request with
  | send data =>
      have hsame : (s.sendInLoop data result).occurrences .shutdownWrite =
          s.occurrences .shutdownWrite := (s.emits_sendInLoop data result).occurrences_eq id
      exact absurd hcloses (by simp [perform, hsame])
  | shutdown =>
      rw [perform, ConnState.occurrences_shutdownInLoop] at hcloses
      rw [perform, ConnState.shutdownInLoop_isWriting]
      split_ifs at hcloses with hwriting
      · exact absurd hcloses (lt_irrefl _)
      · exact Bool.eq_false_iff.2 hwriting

theorem shutdownWrites_handler (s : ConnState) {loopCall : ConnState.LoopCall}
    (hhandler : IsHandler loopCall) (hcloses : s.occurrences .shutdownWrite <
      (s.call loopCall).occurrences .shutdownWrite) :
    (s.call loopCall).isWriting = false ∧ (s.call loopCall).conn.state ≠ .kDisconnected := by
  have hclose (t : ConnState) :
      t.handleClose.occurrences .shutdownWrite = t.occurrences .shutdownWrite :=
    t.emits_handleClose.occurrences_eq (by simp)
  cases loopCall with
  | handleRead result =>
      by_cases hclosed : result = .data []
      · obtain ⟨buffer, heof⟩ := s.exists_handleRead_eof
        rw [ConnState.call, hclosed, heof, hclose] at hcloses
        exact absurd hcloses (lt_irrefl _)
      · have hsame : (s.handleRead result).occurrences .shutdownWrite =
            s.occurrences .shutdownWrite := (s.emits_handleRead hclosed).occurrences_eq (by simp)
        exact absurd hcloses hsame.le.not_gt
  | handleWrite result =>
      rw [ConnState.call, s.occurrences_handleWrite] at hcloses
      split_ifs at hcloses with hdrained
      · refine ⟨hdrained.2.1, ?_⟩
        rw [ConnState.call, (s.traffic_handleWrite result).state_eq, hdrained.2.2]
        decide
      · exact absurd hcloses (lt_irrefl _)
  | handleClose => exact absurd hcloses (hclose s).le.not_gt
  | handleError => exact absurd hcloses (lt_irrefl _)
  | connectDestroyed =>
      have hsame : s.connectDestroyed.occurrences .shutdownWrite =
          s.occurrences .shutdownWrite := s.emits_connectDestroyed.occurrences_eq (by simp)
      exact absurd hcloses hsame.le.not_gt
  | runFunctor functor result => exact hhandler.elim
  | send data result => exact hhandler.elim
  | sendFile fileDescriptor offset count result => exact hhandler.elim
  | shutdown => exact hhandler.elim

/-- The write end of an open connection is closed when all bytes of the calls that have
run have been written. -/
theorem Streams.written_of_closes (h : Streams files p) (hstep : Step p label q)
    (hopen : p.closed = false) (hcloses : p.shutdownWrites < q.shutdownWrites) :
    acceptedBytes files q.conn.effects = q.bytes := by
  have hq : Streams files q := streams_step h hstep
  -- the step ends without write interest and does not close the connection
  have hdrained : q.conn.isWriting = false ∧ q.closed = false := by
    cases label with
    | call request result =>
        obtain ⟨_, rfl⟩ := hstep
        split_ifs at hcloses ⊢
        · refine ⟨shutdownWrites_perform (prepare p.conn request) ?_, hopen⟩
          rwa [ConnState.occurrences_congr (prepare_effects request)]
        · exact absurd hcloses (lt_irrefl _)
    | callFrom request =>
        obtain rfl := hstep
        split_ifs at hcloses
        · cases request <;> exact absurd hcloses (lt_irrefl _)
        · exact absurd hcloses (lt_irrefl _)
    | storeDisconnecting c =>
        obtain ⟨_, rfl⟩ := hstep
        exact absurd hcloses (lt_irrefl _)
    | queueInLoop c =>
        obtain ⟨_, rfl⟩ := hstep
        exact absurd hcloses (lt_irrefl _)
    | runFunctor result =>
        obtain ⟨_, c, rest, _, rfl⟩ := hstep
        exact ⟨shutdownWrites_perform p.conn hcloses, hopen⟩
    | handle loopCall =>
        obtain ⟨hhandler, rfl⟩ := hstep
        obtain ⟨hoff, hstate⟩ := shutdownWrites_handler p.conn hhandler hcloses
        exact ⟨hoff, by simp [hopen, hstate]⟩
  have hempty : q.conn.output = [] := by
    by_contra hwaiting
    have hon := (hq.writing hdrained.2).2 hwaiting
    simp [hdrained.1] at hon
  have hbytes := hq.bytes
  rwa [hempty, List.append_nil] at hbytes

end StreamSteps

/-! ## The order of two calls -/

/-- The calls that have not come to their end. -/
def System.begunCalls (p : System) : List Call := p.calls.line ++ p.starting ++ p.testing

abbrev Numbered (p : System) : Prop := Dispatch.Numbered Call.number p.begun p.begunCalls

section Order

variable {p q : System} {label : Label}

theorem numbered_step (h : Numbered p) (hstep : Step p label q) : Numbered q := by
  cases label with
  | call request result =>
      obtain ⟨_, rfl⟩ := hstep
      split_ifs
      · refine h.begin (c := p.next request) rfl ?_
        simp only [System.begunCalls, System.begin, List.append_assoc]
        exact (p.calls.line_runNow_perm (p.next request)).append_right _
      · exact h.succ
  | callFrom request =>
      obtain rfl := hstep
      split_ifs
      · cases request with
        | send data =>
            refine h.begin (c := p.next (.send data)) rfl ?_
            simp only [System.begunCalls, System.beginFrom, System.begin, System.next]
            exact List.perm_middle.append_right _
        | shutdown =>
            refine h.begin (c := p.next .shutdown) rfl ?_
            simp only [System.begunCalls, System.beginFrom, System.begin, System.next]
            exact List.perm_middle
      · exact h.succ
  | storeDisconnecting c =>
      obtain ⟨hmem, rfl⟩ := hstep
      refine h.of_perm ?_
      have hmoved : (c :: p.testing.erase c).Perm p.testing := (List.perm_cons_erase hmem).symm
      simp only [System.begunCalls, List.append_assoc, List.cons_append]
      exact (List.perm_middle.symm.trans (hmoved.append_left p.starting)).append_left _
  | queueInLoop c =>
      obtain ⟨hmem, rfl⟩ := hstep
      refine h.of_perm ?_
      have hmoved : (c :: p.starting.erase c).Perm p.starting := (List.perm_cons_erase hmem).symm
      simp only [System.begunCalls, Dispatch.line_queue, List.append_assoc, List.singleton_append]
      exact (hmoved.append_right _).append_left _
  | runFunctor result =>
      obtain ⟨_, c, rest, _, rfl⟩ := hstep
      refine h.of_perm ?_
      simp only [System.begunCalls, Dispatch.line_runNext]
      exact .refl _
  | handle loopCall =>
      obtain ⟨_, rfl⟩ := hstep
      exact h

theorem behind_step {x y : Call} (hbegun : y.number < p.begun) (h : p.calls.Behind x y)
    (hstep : Step p label q) : y.number < q.begun ∧ q.calls.Behind x y := by
  cases label with
  | call request result =>
      obtain ⟨_, rfl⟩ := hstep
      split_ifs
      · refine ⟨hbegun.trans (Nat.lt_succ_self _), h.runNow ?_⟩
        rintro rfl
        exact lt_irrefl _ hbegun
      · exact ⟨hbegun.trans (Nat.lt_succ_self _), h⟩
  | callFrom request =>
      obtain rfl := hstep
      split_ifs
      · cases request <;> exact ⟨hbegun.trans (Nat.lt_succ_self _), h⟩
      · exact ⟨hbegun.trans (Nat.lt_succ_self _), h⟩
  | storeDisconnecting c =>
      obtain ⟨_, rfl⟩ := hstep
      exact ⟨hbegun, h⟩
  | queueInLoop c =>
      obtain ⟨_, rfl⟩ := hstep
      exact ⟨hbegun, h.queue c⟩
  | runFunctor result =>
      obtain ⟨_, c, rest, _, rfl⟩ := hstep
      exact ⟨hbegun, h.runNext⟩
  | handle loopCall =>
      obtain ⟨_, rfl⟩ := hstep
      exact ⟨hbegun, h⟩

/-- A call that begins in its turn is behind `x`. -/
theorem behind_of_inTurn (h : Numbered p) {x : Call} (hx : x ∈ p.calls.line) {request : Request}
    (hturn : InTurn p x request label) (hstep : Step p label q) :
    (p.next request).number < q.begun ∧ q.calls.Behind x (p.next request) := by
  have hnew : p.next request ∉ p.calls.line := fun hmem =>
    h.not_mem (c := p.next request) le_rfl
      (List.mem_append_left _ (List.mem_append_left _ hmem))
  have hbehind : p.calls.Behind x (p.next request) := .of_not_mem hx hnew
  rcases hturn with rfl | ⟨hran, result, rfl⟩
  · obtain rfl := hstep
    split_ifs
    · cases request <;> exact ⟨Nat.lt_succ_self _, hbehind⟩
    · exact ⟨Nat.lt_succ_self _, hbehind⟩
  · obtain ⟨_, rfl⟩ := hstep
    split_ifs
    · exact ⟨Nat.lt_succ_self _, .runNow_self hran⟩
    · exact ⟨Nat.lt_succ_self _, hbehind⟩

/-- A call that has run has run for good. -/
theorem executed_subset (hstep : Step p label q) : p.calls.executed ⊆ q.calls.executed := by
  cases label with
  | call request result =>
      obtain ⟨_, rfl⟩ := hstep
      split_ifs
      · exact List.subset_append_left _ _
      · exact List.Subset.refl _
  | callFrom request =>
      obtain rfl := hstep
      split_ifs
      · cases request <;> exact List.Subset.refl _
      · exact List.Subset.refl _
  | storeDisconnecting c =>
      obtain ⟨_, rfl⟩ := hstep
      exact List.Subset.refl _
  | queueInLoop c =>
      obtain ⟨_, rfl⟩ := hstep
      exact List.Subset.refl _
  | runFunctor result =>
      obtain ⟨_, c, rest, _, rfl⟩ := hstep
      exact List.subset_append_left _ _
  | handle loopCall =>
      obtain ⟨_, rfl⟩ := hstep
      exact List.Subset.refl _

/-- Starting a call on another thread does not close the write end. -/
theorem shutdownWrites_callFrom {request : Request} (hstep : Step p (.callFrom request) q) :
    q.shutdownWrites = p.shutdownWrites := by
  obtain rfl := hstep
  split_ifs
  · cases request <;> rfl
  · rfl

end Order

/-! ## Runs -/

section Runs

variable {files : ℕ → List Byte} {s : ConnState} {labels : List Label} {p : System}

theorem run_numbered (hrun : Run Step (start s) labels p) : Numbered p :=
  hrun.invariant ⟨by simp [start, System.begunCalls, Dispatch.line],
    by simp [start, System.begunCalls, Dispatch.line]⟩ fun _ _ _ => numbered_step

theorem run_streams (hfresh : s.Fresh) (hrun : Run Step (start s) labels p) : Streams files p := by
  have hstream : SendPath.Stream files ⟨s.connectEstablished, []⟩ := SendPath.initial_stream hfresh
  exact hrun.invariant ⟨hstream.bytes, fun _ => hstream.writing⟩ fun _ _ _ => streams_step

end Runs

/-- Let `x` have returned before a call begins that is not made on the loop thread while
`x` still waits.  Then that call runs after `x`, and the bytes go to the socket in the
order in which the calls run.  As long as the connection has not been closed, the bytes
of `x` are written before the write end is closed, by that call itself, once that call
has run or once `x` no longer waits. -/
theorem call_order (files : ℕ → List Byte) (s : ConnState) (hfresh : s.Fresh)
    (labels : List Label) (p : System) (hrun : Run Step (start s) labels p) (x : Call)
    (hreturned : x ∈ p.calls.line) (request : Request) (label : Label) (q : System)
    (hturn : InTurn p x request label) (hstep : Step p label q) :
    (p.closed = false → p.shutdownWrites < q.shutdownWrites → Written files q x) ∧
      ∀ more r, Run Step q more r →
        acceptedBytes files r.conn.effects ++ r.conn.output = r.bytes ∧
          (p.next request ∈ r.calls.executed → [x, p.next request] <+ r.calls.executed) ∧
          ∀ label' r', Step r label' r' → r.closed = false →
            r.shutdownWrites < r'.shutdownWrites →
            p.next request ∈ r'.calls.executed ∨ x ∉ r.calls.pending → Written files r' x := by
  have hnumbered := run_numbered hrun
  have hstreams : Streams files p := run_streams hfresh hrun
  refine ⟨fun hopen hcloses => ⟨?_, hstreams.written_of_closes hstep hopen hcloses⟩,
    fun more r hmore => ?_⟩
  · rcases hturn with rfl | ⟨hran, result, rfl⟩
    · exact absurd hcloses (shutdownWrites_callFrom hstep).le.not_gt
    · exact executed_subset hstep hran
  · have hrun' : Run Step (start s) _ r := (hrun.snoc hstep).append hmore
    have hstreams' : Streams files r := run_streams hfresh hrun'
    have hbehind := hmore.invariant (behind_of_inTurn hnumbered hreturned hturn hstep)
      fun _ _ _ hbehind hstep => behind_step hbehind.1 hbehind.2 hstep
    refine ⟨hstreams'.bytes, fun hran => ?_, fun label' r' hstep' hopen hcloses hwaits => ?_⟩
    · have hnodup := (run_numbered hrun').nodup
      exact hbehind.2.executed (hnodup.of_append_left.of_append_left) hran
    · refine ⟨?_, hstreams'.written_of_closes hstep' hopen hcloses⟩
      rcases hwaits with hran | hgone
      · have hnodup := (run_numbered (hrun'.snoc hstep')).nodup
        have hbehind' := (behind_step hbehind.1 hbehind.2 hstep').2
        exact (hbehind'.executed (hnodup.of_append_left.of_append_left) hran).subset (by simp)
      · exact executed_subset hstep'
          ((List.mem_append.1 hbehind.2.ahead).resolve_right hgone)

/-! ## A payload that waits in the queue -/

/-- The payload of another thread. -/
def waitingSend : Call := ⟨0, .send [1]⟩

/-- Its functor is in the queue. -/
def queued : System :=
  { start SendPath.fresh with calls := { pending := [waitingSend] }, begun := 1 }

theorem run_queued : Run Step (start SendPath.fresh)
    [.callFrom (.send [1]), .queueInLoop waitingSend] queued := by
  let called : System := { start SendPath.fresh with starting := [waitingSend], begun := 1 }
  have hcalled : Step (start SendPath.fresh) (.callFrom (.send [1])) called := rfl
  have hqueued : Step called (.queueInLoop waitingSend) queued :=
    ⟨by simp [called], by simp [called, queued, start, Dispatch.queue]⟩
  exact (Run.single hcalled).snoc hqueued

/-- A second payload of another thread is queued behind it. -/
theorem call_order_queued :
    let second : Call := ⟨1, .send [2]⟩
    let both : System := { queued with calls := { pending := [waitingSend, second] }, begun := 2 }
    let sent : System := { both with
      conn := (both.conn.sendInLoop [1] (.bytes 1)).sendInLoop [2] (.bytes 1)
      calls := { executed := [waitingSend, second] } }
    [waitingSend, second] <+ sent.calls.executed := by
  intro second both sent
  let called : System := { queued with starting := [second], begun := 2 }
  let first : System := { both with
    conn := both.conn.sendInLoop [1] (.bytes 1)
    calls := { executed := [waitingSend], pending := [second] } }
  have hcalled : Step queued (.callFrom (.send [2])) called := rfl
  have hboth : Step called (.queueInLoop second) both :=
    ⟨by simp [called], by simp [called, both, queued, start, Dispatch.queue]⟩
  have hfirst : Step both (.runFunctor (.bytes 1)) first := ⟨rfl, waitingSend, [second], rfl, rfl⟩
  have hsent : Step first (.runFunctor (.bytes 1)) sent := ⟨rfl, second, [], rfl, rfl⟩
  have horder := call_order (fun _ => []) SendPath.fresh SendPath.fresh_fresh _ queued run_queued
    waitingSend (by simp [queued, Dispatch.line]) (.send [2]) _ called (.inl rfl) hcalled
  exact (horder.2 _ sent (((Run.single hboth).snoc hfirst).snoc hsent)).2.1
    (by simp [sent, second, System.next, queued])

/-- The loop thread calls `send` while the functor waits: its bytes go first. -/
theorem loop_thread_overtakes :
    ¬ ∀ (s : ConnState) (labels : List Label) (p : System), s.Fresh →
      Run Step (start s) labels p → ∀ x ∈ p.calls.line, ∀ (request : Request) (label : Label)
        (q : System), label = .callFrom request ∨ (∃ result, label = .call request result) →
        Step p label q → ∀ more r, Run Step q more r → p.next request ∈ r.calls.executed →
        [x, p.next request] <+ r.calls.executed := by
  intro hclaim
  let second : Call := ⟨1, .send [2]⟩
  let overtaken : System := { queued with
    conn := queued.conn.sendInLoop [2] (.bytes 1)
    calls := { executed := [second], pending := [waitingSend] }
    begun := 2 }
  let sent : System := { overtaken with
    conn := overtaken.conn.sendInLoop [1] (.bytes 1)
    calls := { executed := [second, waitingSend] } }
  have hcalled : Step queued (.call (.send [2]) (.bytes 1)) overtaken := ⟨rfl, rfl⟩
  have hsent : Step overtaken (.runFunctor (.bytes 1)) sent := ⟨rfl, waitingSend, [], rfl, rfl⟩
  have horder : [waitingSend, second] <+ [second, waitingSend] :=
    hclaim SendPath.fresh _ queued SendPath.fresh_fresh run_queued waitingSend
      (by simp [queued, Dispatch.line]) (.send [2]) _ overtaken (.inr ⟨_, rfl⟩) hcalled _ sent
      (Run.single hsent) (by simp [sent, second, System.next, queued])
  revert horder
  decide

end CallOrder

end MuduoLite
