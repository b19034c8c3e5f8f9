import MuduoLite.Connection.Effects
import MuduoLite.Connection.FileOrder
import MuduoLite.Connection.StateOrder

/-!
# Half-close and file transfers

What `sendFile` could not send at once is known to a functor in the queue of the loop
only.  `shutdown` looks at the write interest of the channel, which says nothing about
that functor, and the functor gives up in state `kDisconnecting`.

Transfers are numbered in the order in which they are accepted.  The history variables
`ranges` and `handed` say for each number what was asked for and what the socket was
handed.  `Accounted` is the invariant of the runs in which `shutdown` finds no transfer
with bytes left (`Finished`): what a transfer that waits has been handed and what it
will send make up its range.

A functor of the connection that sends no file runs as a call at any time, and so do the
event handlers, the close of the connection included.
-/

namespace MuduoLite

open Transition

namespace FileHalfClose

open FileOrder (fileRange Answers)

/-- The rest of a transfer, which a functor will send. -/
structure Transfer where
  number : ℕ
  fileDescriptor : ℕ
  offset : ℕ
  count : ℕ
  deriving DecidableEq, Repr

def Transfer.bytes (files : ℕ → List Byte) (t : Transfer) : List Byte :=
  fileRange files t.fileDescriptor t.offset t.count

/-- What is left when `n` bytes have been sent. -/
def Transfer.rest (t : Transfer) (n : ℕ) : Transfer :=
  { t with offset := t.offset + n, count := t.count - n }

/-- The functors that go on with transfer `number`. -/
def Transfer.ofFunctor (number : ℕ) : Functor → Option Transfer
  | .sendFileInLoop fileDescriptor offset count => some ⟨number, fileDescriptor, offset, count⟩
  | _ => none

structure System where
  conn : ConnState
  /-- the ranges of the accepted transfers, by number -/
  ranges : List (List Byte) := []
  /-- the bytes of each transfer that the socket has been handed -/
  handed : ℕ → List Byte := fun _ => []
  /-- the `sendFileInLoop` functors in the queue of the loop -/
  queue : List Transfer := []
  /-- the calls on other threads that have found `kConnected` and not queued their functor yet -/
  starting : List Transfer := []

def System.waiting (p : System) : List Transfer := p.queue ++ p.starting

def System.shutdownWrites (p : System) : ℕ := p.conn.occurrences .shutdownWrite

inductive Label
  | call (loopCall : ConnState.LoopCall)
  | sendFile (fileDescriptor offset count : ℕ) (result : IoResult)
  | sendFileFrom (fileDescriptor offset count : ℕ)
  | queueSendFile (t : Transfer)
  | runSendFile (result : IoResult)
  | shutdown
  deriving DecidableEq, Repr

/-- The calls that have no label of their own. -/
def OtherCall : ConnState.LoopCall → Prop
  | .sendFile _ _ _ _ => False
  | .shutdown => False
  | .runFunctor (.sendFileInLoop _ _ _) _ => False
  | .runFunctor .shutdownInLoop _ => False
  | _ => True

/-- The bytes the kernel has accepted between `s` and `t`. -/
def newBytes (files : ℕ → List Byte) (s t : ConnState) : List Byte :=
  (acceptedBytes files t.effects).drop (acceptedBytes files s.effects).length

/-- A new transfer. -/
def System.accept (files : ℕ → List Byte) (p : System) (t : Transfer) : System :=
  { p with ranges := p.ranges ++ [t.bytes files] }

/-- `sendFileInLoop` for the transfer `t`, which is not in the queue. -/
def System.attempt (files : ℕ → List Byte) (p : System) (t : Transfer) (result : IoResult) :
    System :=
  let before : ConnState := { p.conn with pendingFunctors := [] }
  let sent := before.sendFileInLoop t.fileDescriptor t.offset t.count result
  { p with
    conn := sent
    handed := Function.update p.handed t.number (p.handed t.number ++ newBytes files before sent)
    queue := p.queue ++ sent.pendingFunctors.filterMap (Transfer.ofFunctor t.number) }

def Step (files : ℕ → List Byte) (p : System) (label : Label) (q : System) : Prop :=
  match label with
  | .call loopCall => OtherCall loopCall ∧ q = { p with conn := p.conn.call loopCall }
  | .sendFile fileDescriptor offset count result => p.conn.conn.state = .kConnected ∧
      Answers (fileRange files fileDescriptor offset count).length result ∧
        let t : Transfer := ⟨p.ranges.length, fileDescriptor, offset, count⟩
        q = (p.accept files t).attempt files t result
  | .sendFileFrom fileDescriptor offset count => p.conn.conn.state = .kConnected ∧
      let t : Transfer := ⟨p.ranges.length, fileDescriptor, offset, count⟩
      q = { p.accept files t with starting := t :: p.starting }
  | .queueSendFile t => t ∈ p.starting ∧
      q = { p with queue := p.queue ++ [t], starting := p.starting.erase t }
  | .runSendFile result => ∃ t rest, p.queue = t :: rest ∧
      Answers (t.bytes files).length result ∧ q = { p with queue := rest }.attempt files t result
  | .shutdown => q = { p with conn := p.conn.shutdown }

/-- The connection has just been established. -/
def start (s : ConnState) : System := { conn := s.connectEstablished }

/-- A `shutdown` that takes effect finds no transfer with bytes left. -/
def Finished (p : System) : Label → Prop
  | .shutdown => p.conn.conn.state = .kConnected → ∀ t ∈ p.waiting, t.count = 0
  | _ => True

/-- No transfer has been abandoned: each one is complete, or the rest of it waits. -/
def Kept (files : ℕ → List Byte) (p : System) : Prop :=
  ∀ number range, p.ranges[number]? = some range → p.handed number = range ∨
    ∃ t ∈ p.waiting, t.number = number ∧ p.handed number ++ t.bytes files = range

/-- The socket has been handed every transfer. -/
def Complete (p : System) : Prop :=
  ∀ number range, p.ranges[number]? = some range → p.handed number = range

structure Accounted (files : ℕ → List Byte) (p : System) : Prop where
  numbers : (p.waiting.map Transfer.number).Nodup
  waiting : ∀ t ∈ p.waiting, p.ranges[t.number]? = some (p.handed t.number ++ t.bytes files)
  complete : ∀ number range, p.ranges[number]? = some range →
    number ∉ p.waiting.map Transfer.number → p.handed number = range
  fresh : ∀ number, p.ranges.length ≤ number → p.handed number = []
  closing : p.conn.conn.state = .kDisconnecting ∨ 0 < p.shutdownWrites →
    p.conn.conn.state ≠ .kConnected ∧ ∀ t ∈ p.waiting, t.count = 0

section Accounted

variable {files : ℕ → List Byte} {p q : System} {t : Transfer}

@[simp] theorem bytes_of_count_eq_zero (h : t.count = 0) : t.bytes files = [] := by
  simp [Transfer.bytes, fileRange, h]

theorem bytes_rest (t : Transfer) (n : ℕ) : (t.rest n).bytes files = (t.bytes files).drop n :=
  FileOrder.fileRange_drop _ _ _ _

theorem take_bytes {n : ℕ} (h : t.count - n = 0) : (t.bytes files).take n = t.bytes files :=
  List.take_of_length_le ((FileOrder.length_fileRange_le _ _ _).trans (by omega))

theorem Accounted.kept (h : Accounted files p) : Kept files p := by
  intro number range hrange
  by_cases hwaits : number ∈ p.waiting.map Transfer.number
  · obtain ⟨t, hmem, rfl⟩ := List.mem_map.1 hwaits
    have howed := h.waiting t hmem
    rw [hrange, Option.some.injEq] at howed
    exact .inr ⟨t, hmem, rfl, howed.symm⟩
  · exact .inl (h.complete number range hrange hwaits)

theorem Accounted.complete_of_closed (h : Accounted files p) (hclosed : 0 < p.shutdownWrites) :
    Complete p := by
  intro number range hrange
  rcases h.kept number range hrange with hhanded | ⟨t, hmem, rfl, howed⟩
  · exact hhanded
  · rwa [bytes_of_count_eq_zero ((h.closing (.inr hclosed)).2 t hmem), List.append_nil] at howed

/-! ## Waiting transfers -/

/-- Where a transfer waits makes no difference. -/
theorem Accounted.perm (h : Accounted files p) (hconn : q.conn = p.conn)
    (hranges : q.ranges = p.ranges) (hhanded : q.handed = p.handed)
    (hperm : q.waiting.Perm p.waiting) : Accounted files q where
  numbers := (hperm.map _).nodup_iff.2 h.numbers
  waiting := fun t hmem => by
    rw [hranges, hhanded]
    exact h.waiting t (hperm.mem_iff.1 hmem)
  complete := fun number range hrange habsent => by
    rw [hranges] at hrange
    rw [hhanded]
    exact h.complete number range hrange fun hmem => habsent ((hperm.map _).mem_iff.2 hmem)
  fresh := by
    rw [hranges, hhanded]
    exact h.fresh
  closing := fun hclosing => by
    rw [System.shutdownWrites, hconn] at hclosing
    rw [hconn]
    exact ⟨(h.closing hclosing).1, fun t hmem => (h.closing hclosing).2 t (hperm.mem_iff.1 hmem)⟩

theorem Accounted.number_lt (h : Accounted files p) (hmem : t ∈ p.waiting) :
    t.number < p.ranges.length := by
  by_contra hge
  have howed := h.waiting t hmem
  rw [List.getElem?_eq_none (Nat.le_of_not_lt hge)] at howed
  simp at howed

/-- A transfer is accepted and waits. -/
theorem Accounted.accept (h : Accounted files p) (hconnected : p.conn.conn.state = .kConnected)
    (hnumber : t.number = p.ranges.length) (hconn : q.conn = p.conn)
    (hranges : q.ranges = p.ranges ++ [t.bytes files]) (hhanded : q.handed = p.handed)
    (hperm : q.waiting.Perm (t :: p.waiting)) : Accounted files q where
  numbers := by
    rw [(hperm.map _).nodup_iff, List.map_cons, List.nodup_cons]
    refine ⟨fun hmem => ?_, h.numbers⟩
    obtain ⟨u, hu, hsame⟩ := List.mem_map.1 hmem
    have hlt := h.number_lt hu
    omega
  waiting := fun u hmem => by
    rw [hranges, hhanded]
    rcases List.mem_cons.1 (hperm.mem_iff.1 hmem) with rfl | hold
    · rw [h.fresh _ hnumber.ge, hnumber]
      simp
    · rw [List.getElem?_append_left (h.number_lt hold)]
      exact h.waiting u hold
  complete := fun number range hrange habsent => by
    rw [hranges] at hrange
    rw [(hperm.map _).mem_iff, List.map_cons, List.mem_cons, not_or] at habsent
    have hlt : number < p.ranges.length := by
      by_contra hge
      have hbound := (List.getElem?_eq_some_iff.1 hrange).1
      rw [List.length_append, List.length_singleton] at hbound
      omega
    rw [List.getElem?_append_left hlt] at hrange
    rw [hhanded]
    exact h.complete number range hrange habsent.2
  fresh := fun number hge => by
    rw [hranges, List.length_append] at hge
    rw [hhanded]
    exact h.fresh number (by omega)
  closing := fun hclosing => by
    rw [System.shutdownWrites, hconn] at hclosing
    exact absurd hconnected (h.closing hclosing).1

end Accounted

/-! ## One attempt to send -/

section Attempt

variable {files : ℕ → List Byte} {s : ConnState}

theorem newBytes_of_eq {s t : ConnState} {bytes : List Byte}
    (h : acceptedBytes files t.effects = acceptedBytes files s.effects ++ bytes) :
    newBytes files s t = bytes := by
  rw [newBytes, h, List.drop_left]

theorem requeueFile_requeued (hnone : s.pendingFunctors = [])
    (number fileDescriptor offset count : ℕ) :
    (s.requeueFile fileDescriptor offset count).pendingFunctors.filterMap
        (Transfer.ofFunctor number) =
      if count = 0 then [] else [⟨number, fileDescriptor, offset, count⟩] := by
  unfold ConnState.requeueFile
  split_ifs <;> simp [hnone, Transfer.ofFunctor]

theorem notifyWriteComplete_requeued (hnone : s.pendingFunctors = []) (number : ℕ) :
    s.notifyWriteComplete.pendingFunctors.filterMap (Transfer.ofFunctor number) = [] := by
  unfold ConnState.notifyWriteComplete
  split_ifs <;> simp [hnone, Transfer.ofFunctor]

/-- The kernel takes the first `n` bytes of what is left, and the rest is queued again.
In state `kDisconnecting` nothing may be left. -/
theorem sendFileInLoop_outcome (hnone : s.pendingFunctors = []) (t : Transfer) {result : IoResult}
    (hanswers : Answers (t.bytes files).length result)
    (hclosing : s.conn.state = .kDisconnecting → t.count = 0) :
    let sent := s.sendFileInLoop t.fileDescriptor t.offset t.count result
    ∃ n, newBytes files s sent = (t.bytes files).take n ∧
      sent.pendingFunctors.filterMap (Transfer.ofFunctor t.number) =
        if t.count - n = 0 then [] else [t.rest n] := by
  intro sent
  have hsent : sent = s.sendFileInLoop t.fileDescriptor t.offset t.count result := rfl
  by_cases hstate : s.conn.state = .kDisconnecting
  · refine ⟨0, ?_, ?_⟩
    · rw [hsent, ConnState.sendFileInLoop, if_pos hstate, List.take_zero]
      exact newBytes_of_eq (List.append_nil _).symm
    · rw [hsent, ConnState.sendFileInLoop, if_pos hstate, hnone]
      simp [hclosing hstate]
  · by_cases hidle : s.isIdle = true
    · cases result with
      | bytes n =>
          have hcount : n ≤ t.count := hanswers.1.trans (FileOrder.length_fileRange_le _ _ _)
          have hbytes : acceptedBytes files
              (s.emit (.sendfile t.fileDescriptor t.offset t.count (.bytes n))).effects =
              acceptedBytes files s.effects ++ (t.bytes files).take n := by
            simp [Effect.accepted, Transfer.bytes, FileOrder.fileRange_take hcount]
          have hemitted : (s.emit (.sendfile t.fileDescriptor t.offset t.count
              (.bytes n))).pendingFunctors = [] := hnone
          simp only [ConnState.sendFileInLoop, hstate, hidle, if_true, if_false] at hsent
          refine ⟨n, ?_, ?_⟩
          · rw [hsent]
            split_ifs
            · exact newBytes_of_eq ((ConnState.notifyWriteComplete_acceptedBytes _ _).trans hbytes)
            · exact newBytes_of_eq ((ConnState.requeueFile_acceptedBytes _ _ _ _ _).trans hbytes)
          · rw [hsent]
            split_ifs with hdone
            · exact notifyWriteComplete_requeued hemitted _
            · rw [requeueFile_requeued hemitted, if_neg hdone]
              rfl
      | error errno =>
          have hfault : (IoResult.error errno).isFault = false := hanswers.2
          have hemitted : (s.emit (.sendfile t.fileDescriptor t.offset t.count
              (.error errno))).pendingFunctors = [] := hnone
          simp only [ConnState.sendFileInLoop, hstate, hidle, hfault, if_true, if_false,
            Bool.false_eq_true] at hsent
          refine ⟨0, ?_, ?_⟩
          · rw [hsent, List.take_zero]
            refine newBytes_of_eq ((ConnState.requeueFile_acceptedBytes _ _ _ _ _).trans ?_)
            simp [Effect.accepted]
          · rw [hsent]
            exact requeueFile_requeued hemitted _ _ _ _
    · simp only [ConnState.sendFileInLoop, hstate, hidle, if_false, Bool.false_eq_true] at hsent
      refine ⟨0, ?_, ?_⟩
      · rw [hsent, List.take_zero]
        refine newBytes_of_eq ((ConnState.requeueFile_acceptedBytes _ _ _ _ _).trans ?_)
        exact (List.append_nil _).symm
      · rw [hsent]
        exact requeueFile_requeued hnone _ _ _ _

/-- An attempt takes the transfer from the head of the queue and puts its rest to the end. -/
theorem Accounted.attempt {p : System} {t : Transfer} {result : IoResult}
    (h : Accounted files { p with queue := t :: p.queue })
    (hanswers : Answers (t.bytes files).length result) :
    Accounted files (p.attempt files t result) := by
  let before : ConnState := { p.conn with pendingFunctors := [] }
  let sent := before.sendFileInLoop t.fileDescriptor t.offset t.count result
  have hclosing : before.conn.state = .kDisconnecting → t.count = 0 := fun hstate =>
    (h.closing (.inl hstate)).2 t (by simp [System.waiting])
  obtain ⟨n, hbytes, hrequeued⟩ := sendFileInLoop_outcome (s := before) rfl t hanswers hclosing
  have hstate : (p.attempt files t result).conn.conn.state = p.conn.conn.state :=
    (before.traffic_sendFileInLoop _ _ _ result).state_eq
  have hcount : (p.attempt files t result).shutdownWrites = p.shutdownWrites :=
    (before.emits_sendFileInLoop _ _ _ result).occurrences_eq id
  have hhanded : (p.attempt files t result).handed = Function.update p.handed t.number
      (p.handed t.number ++ (t.bytes files).take n) := by
    rw [← hbytes]
    rfl
  -- what waits now, in an order that puts the rest of the transfer first
  have hperm : (p.attempt files t result).waiting.Perm
      ((if t.count - n = 0 then [] else [t.rest n]) ++ p.waiting) := by
    rw [← hrequeued]
    exact (List.perm_append_comm.append_right _).trans (.of_eq (List.append_assoc _ _ _))
  have hnodup : (t.number :: p.waiting.map Transfer.number).Nodup := h.numbers
  have howed : p.ranges[t.number]? = some (p.handed t.number ++ t.bytes files) :=
    h.waiting t (by simp [System.waiting])
  have hother : ∀ u ∈ p.waiting, u.number ≠ t.number := fun u hu hsame =>
    (List.nodup_cons.1 hnodup).1 (hsame ▸ List.mem_map_of_mem hu)
  refine ⟨(hperm.map _).nodup_iff.2 ?_, fun u hu => ?_, fun number range hrange habsent => ?_,
    fun number hge => ?_, fun hclosed => ?_⟩
  · split_ifs
    · exact (List.nodup_cons.1 hnodup).2
    · exact hnodup
  · have hcases : u = t.rest n ∧ ¬ t.count - n = 0 ∨ u ∈ p.waiting := by
      rcases List.mem_append.1 (hperm.mem_iff.1 hu) with hrest | hold
      · split_ifs at hrest with hdone
        · simp at hrest
        · exact .inl ⟨List.mem_singleton.1 hrest, hdone⟩
      · exact .inr hold
    rw [hhanded]
    rcases hcases with ⟨rfl, _⟩ | hold
    · have hnumber : (t.rest n).number = t.number := rfl
      have hwhole : p.handed t.number ++ (t.bytes files).take n ++ (t.rest n).bytes files =
          p.handed t.number ++ t.bytes files := by
        calc p.handed t.number ++ (t.bytes files).take n ++ (t.rest n).bytes files
            = p.handed t.number ++ ((t.bytes files).take n ++ (t.bytes files).drop n) := by
              rw [bytes_rest, List.append_assoc]
          _ = p.handed t.number ++ t.bytes files := by rw [List.take_append_drop]
      rw [hnumber, Function.update_self, hwhole]
      exact howed
    · rw [Function.update_of_ne (hother u hold)]
      exact h.waiting u (List.mem_cons_of_mem _ hold)
  · rw [(hperm.map _).mem_iff] at habsent
    rw [hhanded]
    by_cases hsame : number = t.number
    · subst hsame
      have hdone : t.count - n = 0 := by
        by_contra hleft
        exact habsent (by simp [hleft, Transfer.rest])
      have hrange' : p.ranges[t.number]? = some range := hrange
      rw [Function.update_self, take_bytes hdone]
      exact Option.some.inj (howed.symm.trans hrange')
    · rw [Function.update_of_ne hsame]
      refine h.complete number range hrange fun hmem => ?_
      rcases List.mem_cons.1 hmem with hhead | hold
      · exact hsame hhead
      · exact habsent (by simp only [List.map_append, List.mem_append]; exact .inr hold)
  · have hlt := h.number_lt (t := t) (by simp [System.waiting])
    have hne : number ≠ t.number := fun hsame => absurd (hsame ▸ hge) (Nat.not_le_of_lt hlt)
    rw [hhanded, Function.update_of_ne hne]
    exact h.fresh number hge
  · rw [hstate, hcount] at hclosed
    obtain ⟨hnot, hempty⟩ := h.closing hclosed
    have hzero : t.count = 0 := hempty t (by simp [System.waiting])
    refine ⟨hstate.trans_ne hnot, fun u hu => ?_⟩
    have hold : u ∈ p.waiting := by simpa [hzero] using hperm.mem_iff.1 hu
    exact hempty u (List.mem_cons_of_mem _ hold)

end Attempt

/-! ## Steps -/

section Steps

variable {files : ℕ → List Byte} {p q : System} {label : Label} {loopCall : ConnState.LoopCall}

theorem state_call (s : ConnState) (hother : OtherCall loopCall) :
    (s.call loopCall).conn.state = s.conn.state ∨
      (s.call loopCall).conn.state = .kDisconnected := by
  cases loopCall with
  | connectDestroyed =>
      rw [ConnState.call, StateOrder.connectDestroyed_eq]
      split_ifs
      · exact .inr rfl
      · exact .inl rfl
  | shutdown => exact hother.elim
  | _ => exact StateOrder.call_state s trivial

/-- Among these calls only `handleWrite` closes the write end. -/
theorem occurrences_call (s : ConnState) (hother : OtherCall loopCall)
    (hstate : s.conn.state ≠ .kDisconnecting) :
    (s.call loopCall).occurrences .shutdownWrite = s.occurrences .shutdownWrite := by
  cases loopCall with
  | handleRead result =>
      by_cases hclosed : result = .data []
      · obtain ⟨buffer, heof⟩ := s.exists_handleRead_eof
        rw [ConnState.call, hclosed, heof]
        exact (s.setInput buffer).emits_handleClose.occurrences_eq (by simp)
      · exact (s.emits_handleRead hclosed).occurrences_eq (by simp)
  | handleWrite result =>
      rw [ConnState.call, s.occurrences_handleWrite, if_neg fun h => hstate h.2.2, Nat.add_zero]
  | handleClose => exact s.emits_handleClose.occurrences_eq (by simp)
  | handleError => rfl
  | connectDestroyed => exact s.emits_connectDestroyed.occurrences_eq (by simp)
  | runFunctor functor result =>
      cases functor with
      | writeComplete => rfl
      | highWaterMark size => rfl
      | sendInLoop data => exact (s.emits_sendInLoop data result).occurrences_eq id
      | sendFileInLoop fileDescriptor offset count => exact hother.elim
      | shutdownInLoop => exact hother.elim
  | send data result => exact (s.emits_send data result).occurrences_eq id
  | sendFile fileDescriptor offset count result => exact hother.elim
  | shutdown => exact hother.elim

/-- A step of the connection that has nothing to do with its transfers. -/
theorem Accounted.move (h : Accounted files p) (conn : ConnState)
    (hclosing : conn.conn.state = .kDisconnecting ∨ 0 < conn.occurrences .shutdownWrite →
      conn.conn.state ≠ .kConnected ∧ ∀ t ∈ p.waiting, t.count = 0) :
    Accounted files { p with conn := conn } :=
  ⟨h.numbers, h.waiting, h.complete, h.fresh, hclosing⟩

theorem Accounted.call (h : Accounted files p) (hother : OtherCall loopCall) :
    Accounted files { p with conn := p.conn.call loopCall } := by
  refine h.move _ fun hclosing => ?_
  have hbefore : p.conn.conn.state = .kDisconnecting ∨ 0 < p.shutdownWrites := by
    by_cases hstate : p.conn.conn.state = .kDisconnecting
    · exact .inl hstate
    · rw [occurrences_call p.conn hother hstate] at hclosing
      refine hclosing.imp_left fun hafter => ?_
      rcases state_call p.conn hother with hsame | hclosed
      · exact hsame.symm.trans hafter
      · simp [hclosed] at hafter
  obtain ⟨hnot, hempty⟩ := h.closing hbefore
  refine ⟨?_, hempty⟩
  rcases state_call p.conn hother with hsame | hclosed
  · exact hsame.trans_ne hnot
  · simp [hclosed]

theorem Accounted.shutdown (h : Accounted files p) (hfinished : Finished p .shutdown) :
    Accounted files { p with conn := p.conn.shutdown } := by
  by_cases hconnected : p.conn.conn.state = .kConnected
  · refine h.move _ fun _ => ⟨?_, hfinished hconnected⟩
    simp [ConnState.shutdown, hconnected]
  · rw [ConnState.shutdown, if_neg hconnected]
    exact h

theorem accounted_step (h : Accounted files p)
    (hstep : restrict (Step files) Finished p label q) : Accounted files q := by
  obtain ⟨hstep, hfinished⟩ := hstep
  cases label with
  | call loopCall =>
      obtain ⟨hother, rfl⟩ := hstep
      exact h.call hother
  | sendFile fileDescriptor offset count result =>
      obtain ⟨hconnected, hanswers, rfl⟩ := hstep
      let t : Transfer := ⟨p.ranges.length, fileDescriptor, offset, count⟩
      have haccepted : Accounted files { p.accept files t with queue := t :: p.queue } :=
        h.accept (t := t) hconnected rfl rfl rfl rfl (.refl _)
      exact Accounted.attempt (p := p.accept files t) haccepted hanswers
  | sendFileFrom fileDescriptor offset count =>
      obtain ⟨hconnected, rfl⟩ := hstep
      exact h.accept (t := ⟨p.ranges.length, fileDescriptor, offset, count⟩) hconnected rfl rfl rfl
        rfl List.perm_middle
  | queueSendFile t =>
      obtain ⟨hmem, rfl⟩ := hstep
      refine h.perm rfl rfl rfl ?_
      -- the functor moves from the calls that are starting to the queue
      have hmoved : (t :: p.starting.erase t).Perm p.starting := (List.perm_cons_erase hmem).symm
      simpa [System.waiting] using hmoved.append_left p.queue
  | runSendFile result =>
      obtain ⟨t, rest, hqueue, hanswers, rfl⟩ := hstep
      have hpopped : Accounted files { p with queue := t :: rest } := by
        rw [← hqueue]
        exact h
      exact Accounted.attempt (p := { p with queue := rest }) hpopped hanswers
  | shutdown =>
      obtain rfl := hstep
      exact h.shutdown hfinished

end Steps

theorem start_accounted {s : ConnState} (hfresh : s.Fresh) (files : ℕ → List Byte) :
    Accounted files (start s) := by
  have hnone : (start s).shutdownWrites = 0 := by
    simp [System.shutdownWrites, start, ConnState.occurrences,
      ConnState.connectEstablished, ConnState.enableReading, ConnState.tie, hfresh.effects_eq]
  refine ⟨by simp [start, System.waiting], by simp [start, System.waiting], by simp [start],
    fun _ _ => rfl, fun hclosing => ?_⟩
  rcases hclosing with hstate | hclosed
  · simp [start] at hstate
  · exact absurd hnone (Nat.ne_of_gt hclosed)

/-- While every `shutdown` that takes effect finds no transfer with bytes left, no
transfer is abandoned, and the socket has been handed all of them before its write end
is closed. -/
theorem file_half_close (files : ℕ → List Byte) (s : ConnState) (hfresh : s.Fresh)
    (labels : List Label) (p : System)
    (hrun : Run (restrict (Step files) Finished) (start s) labels p) :
    Kept files p ∧ (0 < p.shutdownWrites → Complete p) := by
  have h : Accounted files p :=
    hrun.invariant (start_accounted hfresh files) fun _ _ _ => accounted_step
  exact ⟨h.kept, h.complete_of_closed⟩

/-! ## A file of four bytes -/

open FileOrder (fourBytes)

/-- The kernel takes two of the four bytes. -/
def partway : System := ((start SendPath.fresh).accept fourBytes ⟨0, 0, 0, 4⟩).attempt fourBytes
  ⟨0, 0, 0, 4⟩ (.bytes 2)

theorem step_partway : Step fourBytes (start SendPath.fresh) (.sendFile 0 0 4 (.bytes 2)) partway :=
  ⟨rfl, ⟨Nat.le_add_left 2 2, rfl⟩, rfl⟩

/-- The functor sends the other two, then the user shuts down. -/
theorem file_half_close_resumed :
    let sent := { partway with queue := [] }.attempt fourBytes ⟨0, 0, 2, 2⟩ (.bytes 2)
    Complete { sent with conn := sent.conn.shutdown } := by
  intro sent
  have hsent : Step fourBytes partway (.runSendFile (.bytes 2)) sent :=
    ⟨⟨0, 0, 2, 2⟩, [], by decide, ⟨Nat.le_refl 2, rfl⟩, rfl⟩
  have hshutdown : Step fourBytes sent .shutdown { sent with conn := sent.conn.shutdown } := rfl
  exact (file_half_close fourBytes SendPath.fresh SendPath.fresh_fresh _ _
    (((Run.single ⟨step_partway, trivial⟩).snoc ⟨hsent, trivial⟩).snoc
      ⟨hshutdown, fun _ => by decide⟩)).2 (by decide)

/-- The user shuts down before the functor runs: the write end is closed after two of
the four bytes. -/
theorem shutdown_overtakes_file :
    ¬ ∀ (files : ℕ → List Byte) (s : ConnState) (labels : List Label) (p : System), s.Fresh →
      Run (Step files) (start s) labels p → 0 < p.shutdownWrites → Complete p := by
  intro hclaim
  let closed : System := { partway with conn := partway.conn.shutdown }
  have hclosed : Step fourBytes partway .shutdown closed := rfl
  have hcomplete : Complete closed := hclaim fourBytes SendPath.fresh _ _ SendPath.fresh_fresh
    ((Run.single step_partway).snoc hclosed) (by decide)
  have hhanded : closed.handed 0 = [1, 2, 3, 4] := hcomplete 0 [1, 2, 3, 4] (by decide)
  revert hhanded
  decide

end FileHalfClose

end MuduoLite
