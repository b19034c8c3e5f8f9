import MuduoLite.Connection.SendPath

/-!
# The order of the states of a connection

`state_` is atomic, but `shutdown` and `connectDestroyed` test it and then store to it,
and other threads access it in between.  Here these two are cut into the test and the
store.  No other method makes a store that depends on what it has loaded, so each of
them is one step of the loop thread.

A connection goes from `kConnecting` over `kConnected` and `kDisconnecting` to
`kDisconnected`.  The one store that can go back is that of a `shutdown` on another
thread: its test has found `kConnected`, but the loop thread closes the connection
before the store (`StoresInTime`).
-/

namespace MuduoLite

open Transition

/-- How far a connection has come. -/
def StateE.stage : StateE → ℕ
  | kConnecting => 0
  | kConnected => 1
  | kDisconnecting => 2
  | kDisconnected => 3

namespace StateOrder

/-- Where the loop thread is. -/
inductive LoopThread
  /-- `connectEstablished` has not run -/
  | starting
  | idle
  /-- in `connectDestroyed`, which has found `kConnected` -/
  | destroying
  /-- in `shutdown`, which has found `kConnected` -/
  | shuttingDown
  deriving DecidableEq, Repr

structure System where
  conn : ConnState
  loopThread : LoopThread := .starting
  /-- the calls of `shutdown` on other threads that have found `kConnected` and not
  stored `kDisconnecting` yet -/
  shutdowns : ℕ := 0

/-- The steps of the loop thread, and those of `shutdown` on another thread (`From`). -/
inductive Label
  | connectEstablished
  | call (loopCall : ConnState.LoopCall)
  | connectDestroyed
  | storeDisconnected
  | shutdown
  | storeDisconnecting
  | shutdownFrom
  | storeDisconnectingFrom
  deriving DecidableEq, Repr

/-- The methods that do not test `state_` before they store to it. -/
def OneAccess : ConnState.LoopCall → Prop
  | .shutdown => False
  | .connectDestroyed => False
  | _ => True

/-- `connectDestroyed` after it has found `kConnected`. -/
def destroyConnected (s : ConnState) : ConnState :=
  (((s.setState .kDisconnected).disableAll).emit .connectionCallback).remove

def Step (p : System) (label : Label) (q : System) : Prop :=
  match label with
  | .connectEstablished => p.loopThread = .starting ∧
      q = { p with conn := p.conn.connectEstablished, loopThread := .idle }
  | .call loopCall => p.loopThread = .idle ∧ OneAccess loopCall ∧
      q = { p with conn := p.conn.call loopCall }
  | .connectDestroyed => p.loopThread = .idle ∧
      q = if p.conn.conn.state = .kConnected then { p with loopThread := .destroying }
        else { p with conn := p.conn.remove }
  | .storeDisconnected => p.loopThread = .destroying ∧
      q = { p with conn := destroyConnected p.conn, loopThread := .idle }
  | .shutdown => p.loopThread = .idle ∧
      q = if p.conn.conn.state = .kConnected then { p with loopThread := .shuttingDown } else p
  | .storeDisconnecting => p.loopThread = .shuttingDown ∧
      q = { p with
        conn := (p.conn.setState .kDisconnecting).shutdownInLoop, loopThread := .idle }
  | .shutdownFrom =>
      q = if p.conn.conn.state = .kConnected then { p with shutdowns := p.shutdowns + 1 } else p
  | .storeDisconnectingFrom => 0 < p.shutdowns ∧
      q = { p with conn := p.conn.setState .kDisconnecting, shutdowns := p.shutdowns - 1 }

/-- From `p` to `q` the connection does not go back. -/
def Forward (p q : System) : Prop := p.conn.conn.state.stage ≤ q.conn.conn.state.stage

/-- A `shutdown` on another thread makes its store before the connection is closed. -/
def StoresInTime (p : System) : Label → Prop
  | .storeDisconnectingFrom => p.conn.conn.state ≠ .kDisconnected
  | _ => True

/-! ## The two methods that are cut -/

/-- Without a step of another thread in between, the test and the store are the method. -/
theorem connectDestroyed_eq (s : ConnState) : s.connectDestroyed =
    if s.conn.state = .kConnected then destroyConnected s else s.remove := by
  unfold ConnState.connectDestroyed
  split_ifs <;> rfl

theorem shutdown_eq (s : ConnState) : s.shutdown =
    if s.conn.state = .kConnected then (s.setState .kDisconnecting).shutdownInLoop else s := rfl

/-! ## The state after a step -/

theorem call_state (s : ConnState) {loopCall : ConnState.LoopCall} (hone : OneAccess loopCall) :
    (s.call loopCall).conn.state = s.conn.state ∨
      (s.call loopCall).conn.state = .kDisconnected := by
  cases loopCall with
  | handleRead result =>
      by_cases hclosed : result = .data []
      · subst hclosed
        exact .inr rfl
      · exact .inl (s.traffic_handleRead hclosed).state_eq
  | handleWrite result => exact .inl (s.traffic_handleWrite result).state_eq
  | handleClose => exact .inr rfl
  | handleError => exact .inl rfl
  | connectDestroyed => exact hone.elim
  | runFunctor functor result => exact .inl (s.traffic_runFunctor functor result).state_eq
  | send data result => exact .inl (s.traffic_send data result).state_eq
  | sendFile fileDescriptor offset count result =>
      exact .inl (s.traffic_sendFile fileDescriptor offset count result).state_eq
  | shutdown => exact hone.elim

theorem stage_le_of_disconnected {first second : StateE} (h : second = .kDisconnected) :
    first.stage ≤ second.stage := by
  subst h
  cases first <;> decide

theorem stage_le_disconnecting {state : StateE} :
    state.stage ≤ StateE.kDisconnecting.stage ↔ state ≠ .kDisconnected := by
  cases state <;> decide

/-! ## Runs -/

/-- What the loop thread knows of the state. -/
structure Coherent (p : System) : Prop where
  starting : p.loopThread = .starting → p.conn.conn.state = .kConnecting ∧ p.shutdowns = 0
  shuttingDown : p.loopThread = .shuttingDown → p.conn.conn.state ≠ .kDisconnected

section Steps

variable {p q : System} {label : Label}

theorem Coherent.step (h : Coherent p) (hstep : Step p label q) : Coherent q := by
  cases label with
  | connectEstablished =>
      obtain ⟨_, rfl⟩ := hstep
      exact ⟨by simp, by simp⟩
  | call loopCall =>
      obtain ⟨hidle, _, rfl⟩ := hstep
      exact ⟨by simp [hidle], by simp [hidle]⟩
  | connectDestroyed =>
      obtain ⟨hidle, rfl⟩ := hstep
      split_ifs
      · exact ⟨by simp, by simp⟩
      · exact ⟨by simp [hidle], by simp [hidle]⟩
  | storeDisconnected =>
      obtain ⟨_, rfl⟩ := hstep
      exact ⟨by simp, by simp⟩
  | shutdown =>
      obtain ⟨_, rfl⟩ := hstep
      split_ifs with hconnected
      · exact ⟨by simp, fun _ => by simp [hconnected]⟩
      · exact h
  | storeDisconnecting =>
      obtain ⟨_, rfl⟩ := hstep
      exact ⟨by simp, by simp⟩
  | shutdownFrom =>
      obtain rfl := hstep
      split_ifs with hconnected
      · refine ⟨fun hstarting => ?_, h.shuttingDown⟩
        have hconnecting := (h.starting hstarting).1
        simp [hconnected] at hconnecting
      · exact h
  | storeDisconnectingFrom =>
      obtain ⟨hpending, rfl⟩ := hstep
      refine ⟨fun hstarting => ?_, fun _ => by simp⟩
      have hnone := (h.starting hstarting).2
      omega

/-- A step goes forward unless it is a store that comes too late. -/
theorem forward_iff (h : Coherent p) (hstep : Step p label q) :
    Forward p q ↔ StoresInTime p label := by
  cases label with
  | connectEstablished =>
      obtain ⟨hstarting, rfl⟩ := hstep
      refine iff_of_true ?_ trivial
      rw [Forward, (h.starting hstarting).1]
      exact Nat.zero_le _
  | call loopCall =>
      obtain ⟨_, hone, rfl⟩ := hstep
      refine iff_of_true ?_ trivial
      rcases call_state p.conn hone with hsame | hclosed
      · exact (congrArg StateE.stage hsame).ge
      · exact stage_le_of_disconnected hclosed
  | connectDestroyed =>
      obtain ⟨_, rfl⟩ := hstep
      refine iff_of_true ?_ trivial
      unfold Forward
      split_ifs <;> exact le_rfl
  | storeDisconnected =>
      obtain ⟨_, rfl⟩ := hstep
      exact iff_of_true (stage_le_of_disconnected rfl) trivial
  | shutdown =>
      obtain ⟨_, rfl⟩ := hstep
      refine iff_of_true ?_ trivial
      unfold Forward
      split_ifs <;> exact le_rfl
  | storeDisconnecting =>
      obtain ⟨hshutting, rfl⟩ := hstep
      refine iff_of_true ?_ trivial
      rw [Forward, ConnState.shutdownInLoop_conn]
      exact stage_le_disconnecting.2 (h.shuttingDown hshutting)
  | shutdownFrom =>
      obtain rfl := hstep
      refine iff_of_true ?_ trivial
      unfold Forward
      split_ifs <;> exact le_rfl
  | storeDisconnectingFrom =>
      obtain ⟨_, rfl⟩ := hstep
      exact stage_le_disconnecting

end Steps

theorem run_coherent {s : ConnState} (hfresh : s.Fresh) {labels : List Label} {p : System}
    (hrun : Run Step { conn := s } labels p) : Coherent p :=
  hrun.invariant ⟨fun _ => ⟨hfresh.state_eq, rfl⟩, by simp⟩ fun _ _ _ => Coherent.step

/-- In a run whose stores all come in time the state of a connection only moves
forward, and a step after it moves forward exactly when it is no late store. -/
theorem state_forward (s : ConnState) (hfresh : s.Fresh) (labels : List Label) (p : System)
    (hrun : Run (restrict Step StoresInTime) { conn := s } labels p) :
    (∀ more q, Run (restrict Step StoresInTime) p more q → Forward p q) ∧
      ∀ label q, Step p label q → (Forward p q ↔ StoresInTime p label) := by
  have h : Coherent p := run_coherent hfresh (hrun.mono fun _ _ _ hstep => hstep.1)
  refine ⟨fun more q hmore => ?_, fun label q hstep => forward_iff h hstep⟩
  have hforward : Coherent q ∧ Forward p q := by
    refine hmore.invariant (P := fun q => Coherent q ∧ Forward p q) ⟨h, le_rfl⟩ ?_
    rintro a label b ⟨ha, hforward⟩ ⟨hstep, hintime⟩
    exact ⟨ha.step hstep, hforward.trans ((forward_iff ha hstep).2 hintime)⟩
  exact hforward.2

def established : System :=
  { conn := SendPath.fresh.connectEstablished, loopThread := .idle }

/-- Another thread has called `shutdown`, which has found `kConnected`. -/
def tested : System := { established with shutdowns := 1 }

def closed : System := { tested with conn := tested.conn.handleClose }

theorem step_established :
    Step { conn := SendPath.fresh } .connectEstablished established := ⟨rfl, rfl⟩

theorem step_tested : Step established .shutdownFrom tested := rfl

/-- The other thread makes its store before the peer closes the connection. -/
theorem state_forward_in_time :
    let stored : System := { tested with
      conn := tested.conn.setState .kDisconnecting, shutdowns := 0 }
    Forward tested { stored with conn := stored.conn.handleClose } := by
  intro stored
  have hstored : restrict Step StoresInTime tested .storeDisconnectingFrom stored :=
    ⟨⟨Nat.zero_lt_one, rfl⟩, by simp [StoresInTime, tested, established]⟩
  have hclosed : restrict Step StoresInTime stored (.call .handleClose)
      { stored with conn := stored.conn.handleClose } := ⟨⟨rfl, trivial, rfl⟩, trivial⟩
  exact (state_forward SendPath.fresh SendPath.fresh_fresh _ tested
    ((Run.single ⟨step_established, trivial⟩).snoc ⟨step_tested, trivial⟩)).1 _ _
    ((Run.single hstored).snoc hclosed)

/-- The store comes after the loop thread has closed the connection, which is then in
state `kDisconnecting` again. -/
theorem shutdown_stores_late :
    ¬ ∀ (s : ConnState) (labels more : List Label) (p q : System), s.Fresh →
      Run Step { conn := s } labels p → Run Step p more q → Forward p q := by
  intro hclaim
  let stored : System := { closed with
    conn := closed.conn.setState .kDisconnecting, shutdowns := 0 }
  have hclosed : Step tested (.call .handleClose) closed := ⟨rfl, trivial, rfl⟩
  have hstored : Step closed .storeDisconnectingFrom stored := ⟨Nat.zero_lt_one, rfl⟩
  have hforward : Forward closed stored := hclaim SendPath.fresh _ _ _ _ SendPath.fresh_fresh
    (((Run.single step_established).snoc step_tested).snoc hclosed) (Run.single hstored)
  have hback : ¬ StateE.kDisconnected.stage ≤ StateE.kDisconnecting.stage := by decide
  exact hback hforward

end StateOrder

end MuduoLite
