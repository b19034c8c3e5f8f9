import MuduoLite.Connection.FileOrder
import MuduoLite.Library.Ranges

/-!
# The executions of one `sendFile`

One call of `sendFile` leads to a chain of executions of `sendFileInLoop`, each of which
may queue the next one.  `sendfile` advances the offset, the code subtracts from the
count, and both go into the functor.  `Covers` says that they stay in step: the ranges
that were transferred are consecutive, and the functor has what follows them.

What happens to the connection between two executions is not modelled.  Every execution
finds the connection in any state at all, so the chain may have been held up by other
payloads, and it may find the connection in `kDisconnecting`.
-/

namespace MuduoLite

open Transition Ranges

namespace FileChain

open FileOrder (fileRange)

/-! ## Steps -/

/-- What one call of `sendFile` has added to its connection: the functors that have not
run yet, and the effects. -/
structure Chain where
  called : Bool := false
  pendingFunctors : List Functor := []
  effects : List Effect := []

/-- `sendFile` is a call on the loop thread, `sendFileFrom` one on another thread; then the
functors run one after the other.  The connection is in state `s` each time. -/
inductive Label
  | sendFile (s : ConnState) (result : IoResult)
  | sendFileFrom (s : ConnState)
  | runFunctor (s : ConnState) (result : IoResult)

/-- The bytes that a functor of the chain asks the kernel to transfer. -/
def request : Functor → ℕ
  | .sendFileInLoop _ _ count => count
  | _ => 0

/-- What was added to the connection from `s` to `t`, with `rest` waiting in the queue. -/
def Chain.add (c : Chain) (rest : List Functor) (s t : ConnState) : Chain where
  called := true
  pendingFunctors := rest ++ t.pendingFunctors.drop s.pendingFunctors.length
  effects := c.effects ++ t.effects.drop s.effects.length

def Step (fileDescriptor offset count : ℕ) (c : Chain) (label : Label) (d : Chain) : Prop :=
  match label with
  | .sendFile s result => c.called = false ∧ result.Fits count ∧
      d = c.add [] s (s.sendFile fileDescriptor offset count result)
  | .sendFileFrom s => c.called = false ∧
      d = { c with
        called := true
        pendingFunctors :=
          if s.conn.state = .kConnected then [.sendFileInLoop fileDescriptor offset count] else [] }
  | .runFunctor s result => ∃ functor rest, c.pendingFunctors = functor :: rest ∧
      result.Fits (request functor) ∧ d = c.add rest s (s.runFunctor functor result)

/-- Does an execution that finds the connection in state `s` end the chain early? -/
def Stops (s : ConnState) (result : IoResult) : Prop :=
  s.conn.state = .kDisconnecting ∨ s.isIdle = true ∧ result.isFault = true

/-- Does a step of the chain end it, or not even begin it? -/
def Label.Stops : Label → Prop
  | .sendFile s result => s.conn.state ≠ .kConnected ∨ FileChain.Stops s result
  | .sendFileFrom s => s.conn.state ≠ .kConnected
  | .runFunctor s result => FileChain.Stops s result

/-- The range that an effect has transferred. -/
def transfer : Effect → Option (ℕ × ℕ)
  | .sendfile _ offset _ (.bytes n) => some (offset, n)
  | _ => none

def transferred (effects : List Effect) : List (ℕ × ℕ) := effects.filterMap transfer

/-- How often the chain has queued `writeCompleteCallback_`. -/
def Chain.completions (c : Chain) : ℕ := c.effects.count (.queued .writeComplete)

/-! ## One execution -/

/-- The functors and the effects that an execution for `count` bytes from `offset` on adds
when it transfers `n` of them. -/
structure Execution (fileDescriptor offset count n : ℕ) (functors : List Functor)
    (effects : List Effect) : Prop where
  le : n ≤ count
  consecutive : Consecutive offset (transferred effects) (offset + n)
  accepted_eq : ∀ files, acceptedBytes files effects =
    (transferred effects).flatMap fun range => ((files fileDescriptor).drop range.1).take range.2
  functors_eq : functors = [] ∨
    functors = [.sendFileInLoop fileDescriptor (offset + n) (count - n)] ∨
    n = count ∧ functors = [.writeComplete]
  count_eq : effects.count (.queued .writeComplete) = functors.count .writeComplete

section Executions

variable {s : ConnState} {fileDescriptor offset count n : ℕ} {functors : List Functor}
  {effects : List Effect}

/-- From `s` to `t` these functors and effects were added. -/
structure Adds (s t : ConnState) (functors : List Functor) (effects : List Effect) : Prop where
  functors_eq : t.pendingFunctors = s.pendingFunctors ++ functors
  effects_eq : t.effects = s.effects ++ effects

theorem Adds.refl (s : ConnState) : Adds s s [] [] :=
  ⟨(List.append_nil _).symm, (List.append_nil _).symm⟩

theorem Adds.trans {t u : ConnState} {functors' : List Functor} {effects' : List Effect}
    (h : Adds s t functors effects) (h' : Adds t u functors' effects') :
    Adds s u (functors ++ functors') (effects ++ effects') where
  functors_eq := by rw [h'.functors_eq, h.functors_eq, List.append_assoc]
  effects_eq := by rw [h'.effects_eq, h.effects_eq, List.append_assoc]

theorem Adds.emit (s : ConnState) (effect : Effect) : Adds s (s.emit effect) [] [effect] :=
  ⟨(List.append_nil _).symm, rfl⟩

theorem Adds.queueInLoop (s : ConnState) (functor : Functor) :
    Adds s (s.queueInLoop functor) [functor] [.queued functor] := ⟨rfl, rfl⟩

theorem add_eq {t : ConnState} (h : Adds s t functors effects) (c : Chain) (rest : List Functor) :
    c.add rest s t = ⟨true, rest ++ functors, c.effects ++ effects⟩ := by
  rw [Chain.add, h.functors_eq, h.effects_eq, List.drop_left, List.drop_left]

/-- Nothing was transferred, and the chain goes on with the same arguments or ends. -/
theorem exists_adds_requeueFile (s : ConnState) (fileDescriptor offset count : ℕ) :
    ∃ functors effects, Adds s (s.requeueFile fileDescriptor offset count) functors effects ∧
      (functors = [] ∧ count = 0 ∨ functors = [.sendFileInLoop fileDescriptor offset count]) ∧
      transferred effects = [] ∧ (∀ files, acceptedBytes files effects = []) ∧
      effects.count (.queued .writeComplete) = 0 := by
  unfold ConnState.requeueFile
  split_ifs with hzero
  · exact ⟨[], [], .refl s, .inl ⟨rfl, hzero⟩, rfl, fun _ => rfl, rfl⟩
  · exact ⟨_, _, .queueInLoop s _, .inr rfl, rfl, fun _ => rfl, rfl⟩

/-- An execution that finds the channel writing, or bytes in the buffer, or gets an error. -/
theorem execution_requeueFile {t : ConnState} {effect : List Effect} (hadds : Adds s t [] effect)
    (htransferred : transferred effect = []) (haccepted : ∀ files, acceptedBytes files effect = [])
    (hcount : effect.count (.queued .writeComplete) = 0) :
    ∃ functors effects, Adds s (t.requeueFile fileDescriptor offset count) functors effects ∧
      Execution fileDescriptor offset count 0 functors effects ∧
      (functors = [] → 0 = count) := by
  obtain ⟨functors, effects, hrest, hfunctors, hnone, hempty, hzero⟩ :=
    exists_adds_requeueFile t fileDescriptor offset count
  have hall : transferred (effect ++ effects) = [] := by
    rw [transferred, List.filterMap_append]
    exact List.append_eq_nil_iff.2 ⟨htransferred, hnone⟩
  refine ⟨_, _, hadds.trans hrest, ⟨Nat.zero_le _, ?_, fun files => ?_, ?_, ?_⟩, ?_⟩
  · rw [hall]
    rfl
  · rw [hall, acceptedBytes_append, haccepted, hempty]
    rfl
  · exact hfunctors.imp And.left .inl
  · rw [List.count_append, hcount, hzero]
    rcases hfunctors with ⟨rfl, -⟩ | rfl <;> rfl
  · rcases hfunctors with ⟨-, hcount⟩ | rfl
    · exact fun _ => hcount.symm
    · exact fun hnone => absurd hnone (List.cons_ne_nil _ _)

/-- The kernel has taken `n` bytes of the range. -/
theorem execution_sent (s : ConnState) {n : ℕ} (hn : n ≤ count) :
    let sent := s.emit (.sendfile fileDescriptor offset count (.bytes n))
    ∃ functors effects, Adds s
      (if count - n = 0 then sent.notifyWriteComplete
        else sent.requeueFile fileDescriptor (offset + n) (count - n)) functors effects ∧
      Execution fileDescriptor offset count n functors effects ∧ (functors = [] → n = count) := by
  intro sent
  have hsent : Adds s sent [] [.sendfile fileDescriptor offset count (.bytes n)] := .emit s _
  by_cases hdone : count - n = 0
  · rw [if_pos hdone]
    have hall : n = count := Nat.le_antisymm hn (Nat.le_of_sub_eq_zero hdone)
    unfold ConnState.notifyWriteComplete
    split_ifs with hcallback
    · exact ⟨_, _, hsent.trans (.queueInLoop _ _), ⟨hn, .single offset n, fun _ => rfl,
        .inr (.inr ⟨hall, rfl⟩), rfl⟩, fun _ => hall⟩
    · exact ⟨_, _, hsent, ⟨hn, .single offset n, fun _ => rfl, .inl rfl, rfl⟩, fun _ => hall⟩
  · rw [if_neg hdone]
    unfold ConnState.requeueFile
    rw [if_neg hdone]
    exact ⟨_, _, hsent.trans (.queueInLoop _ _), ⟨hn, .single offset n, fun _ => rfl,
      .inr (.inl rfl), rfl⟩, fun hnone => absurd hnone (List.cons_ne_nil _ _)⟩

theorem exists_execution (s : ConnState) (fileDescriptor offset count : ℕ) {result : IoResult}
    (hfits : result.Fits count) :
    ∃ n functors effects,
      Adds s (s.sendFileInLoop fileDescriptor offset count result) functors effects ∧
      Execution fileDescriptor offset count n functors effects ∧
      (functors = [] → n = count ∨ Stops s result) := by
  have hstop (effects : List Effect) (hnone : transferred effects = [])
      (haccepted : ∀ files, acceptedBytes files effects = [])
      (hcount : effects.count (.queued .writeComplete) = 0) :
      Execution fileDescriptor offset count 0 [] effects :=
    ⟨Nat.zero_le _, by rw [hnone]; rfl, fun files => by rw [haccepted, hnone]; rfl, .inl rfl,
      hcount⟩
  by_cases hstate : s.conn.state = .kDisconnecting
  · rw [ConnState.sendFileInLoop, if_pos hstate]
    exact ⟨0, [], [], .refl s, hstop [] rfl (fun _ => rfl) rfl, fun _ => .inr (.inl hstate)⟩
  by_cases hidle : s.isIdle = true
  · cases result with
    | bytes n =>
        simp only [ConnState.sendFileInLoop, hstate, hidle, if_true, if_false]
        obtain ⟨functors, effects, hadds, hexecution, hends⟩ := execution_sent s hfits
        exact ⟨n, functors, effects, hadds, hexecution, fun hnone => .inl (hends hnone)⟩
    | error errno =>
        simp only [ConnState.sendFileInLoop, hstate, hidle, if_true, if_false]
        split_ifs with hfault
        · exact ⟨0, [], _, .emit s _, hstop _ rfl (fun _ => rfl) rfl,
            fun _ => .inr (.inr ⟨hidle, hfault⟩)⟩
        · obtain ⟨functors, effects, hadds, hexecution, hends⟩ :=
            execution_requeueFile (.emit s (.sendfile fileDescriptor offset count (.error errno)))
              rfl (fun _ => rfl) rfl
          exact ⟨0, functors, effects, hadds, hexecution, fun hnone => .inl (hends hnone)⟩
  · simp only [ConnState.sendFileInLoop, hstate, hidle, if_false, Bool.false_eq_true]
    obtain ⟨functors, effects, hadds, hexecution, hends⟩ :=
      execution_requeueFile (.refl s) rfl (fun _ => rfl) rfl
    exact ⟨0, functors, effects, hadds, hexecution, fun hnone => .inl (hends hnone)⟩

end Executions

/-! ## The whole chain -/

/-- The chain has transferred `sent` bytes. -/
structure Covers (fileDescriptor offset count sent : ℕ) (c : Chain) : Prop where
  le : sent ≤ count
  consecutive : Consecutive offset (transferred c.effects) (offset + sent)
  accepted_eq : ∀ files, acceptedBytes files c.effects =
    (transferred c.effects).flatMap fun range => ((files fileDescriptor).drop range.1).take range.2
  pending_eq : c.pendingFunctors = [] ∨
    c.pendingFunctors = [.sendFileInLoop fileDescriptor (offset + sent) (count - sent)] ∨
    sent = count ∧ c.pendingFunctors = [.writeComplete]
  completions : c.completions = 0 ∨ c.completions = 1 ∧ sent = count ∧
    ∀ functor ∈ c.pendingFunctors, functor = .writeComplete
  uncalled : c.called = false → c = {}

theorem start_covers (fileDescriptor offset count : ℕ) :
    Covers fileDescriptor offset count 0 {} :=
  ⟨Nat.zero_le _, rfl, fun _ => rfl, .inl rfl, .inl rfl, fun _ => rfl⟩

section Chains

variable {fileDescriptor offset count sent : ℕ} {c d : Chain}

/-- An execution goes on where the chain stands. -/
theorem Covers.execution (h : Covers fileDescriptor offset count sent c)
    (hcompletions : c.completions = 0) {n : ℕ} {functors : List Functor} {effects : List Effect}
    (hexecution : Execution fileDescriptor (offset + sent) (count - sent) n functors effects) :
    Covers fileDescriptor offset count (sent + n) ⟨true, functors, c.effects ++ effects⟩ := by
  obtain ⟨hn, hconsecutive, haccepted, hfunctors, hcount⟩ := hexecution
  have hle := h.le
  have htransferred : transferred (c.effects ++ effects) =
      transferred c.effects ++ transferred effects := List.filterMap_append
  have hnotified : Chain.completions ⟨true, functors, c.effects ++ effects⟩ =
      functors.count .writeComplete := by
    have hzero : c.effects.count (.queued .writeComplete) = 0 := hcompletions
    rw [Chain.completions, List.count_append, hzero, hcount, Nat.zero_add]
  refine ⟨by omega, ?_, fun files => ?_, ?_, ?_, fun huncalled => Bool.noConfusion huncalled⟩
  · rw [htransferred, ← Nat.add_assoc]
    exact h.consecutive.append hconsecutive
  · rw [htransferred, List.flatMap_append, acceptedBytes_append, h.accepted_eq, haccepted]
  · rw [← Nat.add_assoc, ← Nat.sub_sub]
    refine hfunctors.imp id (.imp id fun hdone => ⟨?_, hdone.2⟩)
    have hall : n = count - sent := hdone.1
    omega
  · rw [hnotified]
    rcases hfunctors with rfl | rfl | ⟨hall, rfl⟩
    · exact .inl rfl
    · exact .inl rfl
    · exact .inr ⟨rfl, by omega, by simp⟩

theorem Covers.sendFileInLoop (h : Covers fileDescriptor offset count sent c)
    (hcompletions : c.completions = 0) (s : ConnState) {result : IoResult}
    (hfits : result.Fits (count - sent)) : ∃ sent',
      let d := c.add [] s (s.sendFileInLoop fileDescriptor (offset + sent) (count - sent) result)
      Covers fileDescriptor offset count sent' d ∧
        (d.pendingFunctors = [] → sent' = count ∨ Stops s result) := by
  obtain ⟨n, functors, effects, hadds, hexecution, hends⟩ :=
    exists_execution s fileDescriptor (offset + sent) (count - sent) hfits
  rw [add_eq hadds]
  refine ⟨sent + n, h.execution hcompletions hexecution, fun hnone => (hends hnone).imp_left ?_⟩
  intro hall
  have hle := h.le
  omega

/-- The functor at the head of the queue runs. -/
theorem Covers.runFunctor (h : Covers fileDescriptor offset count sent c) {functor : Functor}
    {rest : List Functor} (hpending : c.pendingFunctors = functor :: rest) (s : ConnState)
    {result : IoResult} (hfits : result.Fits (request functor)) : ∃ sent',
      let d := c.add rest s (s.runFunctor functor result)
      Covers fileDescriptor offset count sent' d ∧
        (d.pendingFunctors = [] → sent' = count ∨ Stops s result) := by
  rcases h.pending_eq with hnone | hfile | ⟨hall, hcomplete⟩
  · rw [hnone] at hpending
    cases hpending
  · rw [hfile] at hpending
    cases hpending
    refine h.sendFileInLoop (h.completions.resolve_right ?_) s hfits
    rintro ⟨-, -, hnone⟩
    exact Functor.noConfusion (hnone _ (by rw [hfile]; exact List.mem_singleton.2 rfl))
  · rw [hcomplete] at hpending
    cases hpending
    refine ⟨sent, ?_, fun _ => .inl hall⟩
    rw [add_eq (t := s.runFunctor .writeComplete result) (.refl s)]
    have heffects : c.effects ++ [] = c.effects := List.append_nil _
    refine ⟨h.le, ?_, ?_, .inl rfl, ?_, fun huncalled => Bool.noConfusion huncalled⟩
    · rw [heffects]
      exact h.consecutive
    · rw [heffects]
      exact h.accepted_eq
    · rw [Chain.completions, heffects]
      exact h.completions.imp id fun hone => ⟨hone.1, hone.2.1, by simp⟩

theorem covers_step {label : Label} (h : Covers fileDescriptor offset count sent c)
    (hstep : Step fileDescriptor offset count c label d) :
    ∃ sent', Covers fileDescriptor offset count sent' d ∧
      (d.pendingFunctors = [] → sent' = count ∨ label.Stops) := by
  cases label with
  | sendFile s result =>
      obtain ⟨hcalled, hfits, rfl⟩ := hstep
      obtain rfl := h.uncalled hcalled
      have hstart := start_covers fileDescriptor offset count
      unfold ConnState.sendFile
      split_ifs with hconnected
      · obtain ⟨sent', hcovers, hends⟩ := hstart.sendFileInLoop rfl s hfits
        exact ⟨sent', hcovers, fun hnone => (hends hnone).imp_right .inr⟩
      · rw [add_eq (.refl s)]
        exact ⟨0, ⟨hstart.le, hstart.consecutive, hstart.accepted_eq, .inl rfl, .inl rfl,
          fun huncalled => Bool.noConfusion huncalled⟩, fun _ => .inr (.inl hconnected)⟩
  | sendFileFrom s =>
      obtain ⟨hcalled, rfl⟩ := hstep
      obtain rfl := h.uncalled hcalled
      have hstart := start_covers fileDescriptor offset count
      by_cases hconnected : s.conn.state = .kConnected
      · rw [if_pos hconnected]
        exact ⟨0, ⟨hstart.le, hstart.consecutive, hstart.accepted_eq, .inr (.inl rfl), .inl rfl,
          fun huncalled => Bool.noConfusion huncalled⟩,
          fun hnone => absurd hnone (List.cons_ne_nil _ _)⟩
      · rw [if_neg hconnected]
        exact ⟨0, ⟨hstart.le, hstart.consecutive, hstart.accepted_eq, .inl rfl, .inl rfl,
          fun huncalled => Bool.noConfusion huncalled⟩, fun _ => .inr hconnected⟩
  | runFunctor s result =>
      obtain ⟨functor, rest, hpending, hfits, rfl⟩ := hstep
      exact h.runFunctor hpending s hfits

/-- A chain that has nothing left to run is complete, or a step has stopped it. -/
theorem covers_run {labels : List Label}
    (hrun : Run (Step fileDescriptor offset count) {} labels c) :
    ∃ sent, Covers fileDescriptor offset count sent c ∧
      (c.called = true → c.pendingFunctors = [] →
        sent = count ∨ ∃ label ∈ labels, label.Stops) := by
  induction hrun with
  | nil => exact ⟨0, start_covers fileDescriptor offset count, fun hcalled => nomatch hcalled⟩
  | snoc _ hlast ih =>
      obtain ⟨sent, h, -⟩ := ih
      obtain ⟨sent', hcovers, hends⟩ := covers_step h hlast
      exact ⟨sent', hcovers, fun _ hnone => (hends hnone).imp_right fun hstops =>
        ⟨_, List.mem_append_right _ (List.mem_singleton_self _), hstops⟩⟩

end Chains

/-- However the executions of a `sendFile` go, the ranges they transfer are consecutive
and cover `[offset, offset + sent)` once each, in order; no more than `count` bytes are
sent, and the functor that waits has the rest of the range.  The chain queues
`writeCompleteCallback_` once at most, and only when everything has been sent.  Where no
functor waits any more, everything has been sent, or one of the executions has found
`kDisconnecting` or got a fault, or the call has not found `kConnected`. -/
theorem file_chain_exact (fileDescriptor offset count : ℕ) (labels : List Label) (c : Chain)
    (hrun : Run (Step fileDescriptor offset count) {} labels c) :
    ∃ sent ≤ count, Consecutive offset (transferred c.effects) (offset + sent) ∧
      positions (transferred c.effects) = List.range' offset sent ∧
      (∀ files, acceptedBytes files c.effects = fileRange files fileDescriptor offset sent) ∧
      (c.pendingFunctors = [] ∨
        c.pendingFunctors = [.sendFileInLoop fileDescriptor (offset + sent) (count - sent)] ∨
        sent = count ∧ c.pendingFunctors = [.writeComplete]) ∧
      c.completions ≤ 1 ∧ (0 < c.completions → sent = count) ∧
      (c.called = true → c.pendingFunctors = [] →
        sent = count ∨ ∃ label ∈ labels, label.Stops) := by
  obtain ⟨sent, h, hends⟩ := covers_run hrun
  obtain ⟨covered, hlast, hpositions⟩ := h.consecutive.positions_eq
  obtain rfl : covered = sent := by omega
  refine ⟨covered, h.le, h.consecutive, hpositions, fun files => ?_, h.pending_eq, ?_, ?_, hends⟩
  · rw [h.accepted_eq]
    exact h.consecutive.slices_eq _
  · rcases h.completions with hnone | ⟨hone, -⟩
    · exact hnone.le.trans (Nat.zero_le 1)
    · exact hone.le
  · intro hpos
    rcases h.completions with hnone | ⟨-, hall, -⟩
    · exact absurd hnone hpos.ne'
    · exact hall

def established : ConnState := SendPath.reporting.connectEstablished

/-- The kernel takes two bytes of four.  The next execution finds a payload in the buffer,
the one after it sends the rest. -/
theorem file_chain_exact_resumed : ∃ c : Chain, transferred c.effects = [(0, 2), (2, 2)] ∧
    c.pendingFunctors = [.writeComplete] ∧ c.completions ≤ 1 := by
  have hcall : Step 7 0 4 {} (.sendFile established (.bytes 2)) ⟨true, [.sendFileInLoop 7 2 2],
      [.sendfile 7 0 4 (.bytes 2), .queued (.sendFileInLoop 7 2 2)]⟩ :=
    ⟨rfl, Nat.le_add_left 2 2, rfl⟩
  have hskipped : Step 7 0 4 ⟨true, [.sendFileInLoop 7 2 2],
      [.sendfile 7 0 4 (.bytes 2), .queued (.sendFileInLoop 7 2 2)]⟩
      (.runFunctor (established.send [9] (.bytes 0)) (.bytes 0)) ⟨true, [.sendFileInLoop 7 2 2],
        [.sendfile 7 0 4 (.bytes 2), .queued (.sendFileInLoop 7 2 2),
          .queued (.sendFileInLoop 7 2 2)]⟩ := ⟨_, [], rfl, Nat.zero_le _, rfl⟩
  have hrest : Step 7 0 4 ⟨true, [.sendFileInLoop 7 2 2],
      [.sendfile 7 0 4 (.bytes 2), .queued (.sendFileInLoop 7 2 2),
        .queued (.sendFileInLoop 7 2 2)]⟩
      (.runFunctor established (.bytes 2)) ⟨true, [.writeComplete],
      [.sendfile 7 0 4 (.bytes 2), .queued (.sendFileInLoop 7 2 2),
        .queued (.sendFileInLoop 7 2 2), .sendfile 7 2 2 (.bytes 2), .queued .writeComplete]⟩ :=
    ⟨_, [], rfl, Nat.le_refl 2, rfl⟩
  obtain ⟨_, -, -, -, -, -, honce, -⟩ :=
    file_chain_exact 7 0 4 _ _ (((Run.single hcall).snoc hskipped).snoc hrest)
  exact ⟨_, rfl, rfl, honce⟩

end FileChain

end MuduoLite
