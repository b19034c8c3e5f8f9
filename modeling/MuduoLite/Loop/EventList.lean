import Mathlib.Algebra.Order.Ring.Nat
import Mathlib.Data.Finset.Card
import MuduoLite.Library.RoundRobin
import MuduoLite.Library.Transition

/-!
# The event list of the poller

`epoll_wait` reports at most as many fds as `events_` has places.  Where there are more, the
kernel goes on with the others the next time, and those it has reported go to the end of its
list; an fd that turns out not to be ready any more leaves the list.  `poll` doubles `events_`
whenever all places were used.

So `events_` never has more than twice as many places as there are fds, and an fd that is
ready for `k` polls is reported in one of them if there are no more than `16 * (2 ^ k - 1)`
fds: every poll that does not report it is full, and the next one looks at twice as many.
-/

namespace MuduoLite

open RoundRobin Transition

/-- The event list with the kernel's side of it. -/
structure EventList where
  /-- `events_.size()`, at first `kInitEventListSize` -/
  size : ℕ := 16
  /-- the fds of the interest list -/
  registered : Finset ℕ := ∅
  /-- those that the kernel takes for ready, in the order in which it reports them -/
  ready : List ℕ := []
  /-- all that was reported, in order -/
  reported : List ℕ := []

namespace EventList

/-! ## Steps -/

/-- `EPollPoller::poll`; `isReady` says which sockets are. -/
def poll (e : EventList) (isReady : ℕ → Bool) : EventList :=
  let events := (serve isReady e.ready e.size).1
  { e with
    size := if 0 < events.length ∧ events.length = e.size then e.size * 2 else e.size
    ready := next isReady e.ready e.size
    reported := e.reported ++ events }

inductive Label
  | add (fd : ℕ)
  | delete (fd : ℕ)
  /-- the kernel learns that the socket is ready -/
  | wake (fd : ℕ)
  | poll (isReady : ℕ → Bool)

def Label.isPoll : Label → Bool
  | poll _ => true
  | _ => false

inductive Step (e : EventList) : Label → EventList → Prop
  | add (fd : ℕ) (hfd : fd ∉ e.registered) :
      Step e (.add fd) { e with registered := insert fd e.registered }
  | delete (fd : ℕ) :
      Step e (.delete fd)
        { e with registered := e.registered.erase fd, ready := e.ready.erase fd }
  | wake (fd : ℕ) (hfd : fd ∈ e.registered) (hready : fd ∉ e.ready) :
      Step e (.wake fd) { e with ready := e.ready ++ [fd] }
  | poll (isReady : ℕ → Bool) : Step e (.poll isReady) (e.poll isReady)

/-! ## The size of the list -/

structure WellFormed (e : EventList) : Prop where
  nodup : e.ready.Nodup
  registered : ∀ fd ∈ e.ready, fd ∈ e.registered
  size_eq : ∃ doublings, e.size = 16 * 2 ^ doublings

/-- An fd is added only where there are fewer than `limit`. -/
def Within (limit : ℕ) (e : EventList) : Label → Prop
  | .add _ => e.registered.card < limit
  | _ => True

namespace WellFormed

variable {e e' : EventList} {label : Label} {limit : ℕ}

theorem initial : WellFormed {} := ⟨List.nodup_nil, fun _ h => absurd h List.not_mem_nil, 0, rfl⟩

theorem le_size (h : WellFormed e) : 16 ≤ e.size := by
  obtain ⟨doublings, hsize⟩ := h.size_eq
  rw [hsize]
  exact Nat.le_mul_of_pos_right 16 (Nat.two_pow_pos doublings)

theorem length_ready_le (h : WellFormed e) : e.ready.length ≤ e.registered.card := by
  rw [← List.toFinset_card_of_nodup h.nodup]
  exact Finset.card_le_card fun fd hfd => h.registered fd (List.mem_toFinset.1 hfd)

theorem length_served_le (h : WellFormed e) (isReady : ℕ → Bool) :
    (serve isReady e.ready e.size).1.length ≤ e.registered.card := by
  have hsublist := served_append_left_sublist isReady e.ready e.size
  have hlength := hsublist.length_le
  rw [List.length_append] at hlength
  have hready := h.length_ready_le
  omega

theorem step (h : WellFormed e) (hstep : Step e label e') : WellFormed e' := by
  cases hstep with
  | add fd hfd =>
      exact ⟨h.nodup, fun other hother => Finset.mem_insert_of_mem (h.registered other hother),
        h.size_eq⟩
  | delete fd =>
      refine ⟨h.nodup.erase fd, fun other hother => ?_, h.size_eq⟩
      obtain ⟨hne, hmem⟩ := h.nodup.mem_erase_iff.1 hother
      exact Finset.mem_erase.2 ⟨hne, h.registered other hmem⟩
  | wake fd hfd hready =>
      refine ⟨h.nodup.append (List.nodup_singleton fd) ?_, fun other hother => ?_, h.size_eq⟩
      · rwa [List.disjoint_singleton]
      · rcases List.mem_append.1 hother with hother | hother
        · exact h.registered other hother
        · exact List.mem_singleton.1 hother ▸ hfd
  | poll isReady =>
      refine ⟨nodup_next h.nodup e.size, fun fd hfd => ?_, ?_⟩
      · exact h.registered fd ((next_perm_sublist e.ready e.size).subset hfd)
      · obtain ⟨doublings, hsize⟩ := h.size_eq
        dsimp only [EventList.poll]
        split_ifs
        · exact ⟨doublings + 1, by rw [hsize, Nat.pow_succ, Nat.mul_assoc]⟩
        · exact ⟨doublings, hsize⟩

/-- The list is doubled only when there were as many fds as places. -/
theorem size_step (h : WellFormed e) (hlimit : e.registered.card ≤ limit)
    (hsize : e.size ≤ max 16 (2 * limit)) (hstep : Step e label e') :
    e'.size ≤ max 16 (2 * limit) := by
  cases hstep with
  | add fd hfd => exact hsize
  | delete fd => exact hsize
  | wake fd hfd hready => exact hsize
  | poll isReady =>
      have hserved := h.length_served_le isReady
      dsimp only [EventList.poll]
      split_ifs with hfull
      · have hplaces : e.size ≤ limit := hfull.2 ▸ hserved.trans hlimit
        exact le_max_of_le_right (by omega)
      · exact hsize

theorem card_step (hlimit : e.registered.card ≤ limit) (hwithin : Within limit e label)
    (hstep : Step e label e') : e'.registered.card ≤ limit := by
  cases hstep with
  | add fd hfd => exact (Finset.card_insert_le fd e.registered).trans hwithin
  | delete fd => exact (Finset.card_erase_le).trans hlimit
  | wake fd hfd hready => exact hlimit
  | poll isReady => exact hlimit

end WellFormed

/-- A list for at most `limit` fds. -/
structure Bounded (limit : ℕ) (e : EventList) : Prop extends WellFormed e where
  card_le : e.registered.card ≤ limit
  size_le : e.size ≤ max 16 (2 * limit)

namespace Bounded

variable {e e' : EventList} {label : Label} {limit : ℕ}

theorem step (h : Bounded limit e) (hstep : restrict Step (Within limit) e label e') :
    Bounded limit e' where
  toWellFormed := h.toWellFormed.step hstep.1
  card_le := WellFormed.card_step h.card_le hstep.2 hstep.1
  size_le := h.toWellFormed.size_step h.card_le h.size_le hstep.1

theorem of_run {labels : List Label} (hrun : Run (restrict Step (Within limit)) {} labels e) :
    Bounded limit e :=
  hrun.invariant ⟨.initial, Nat.zero_le _, le_max_left _ _⟩ fun _ _ _ => step

end Bounded

/-! ## An fd that stays ready -/

/-- The fd stays in the interest list, and its socket is ready at every poll. -/
def StaysReady (fd : ℕ) : Label → Prop
  | .delete other => other ≠ fd
  | .poll isReady => isReady fd = true
  | _ => True

/-- Since `s` the fd was reported, or the polls were all full and none of the fds that they
reported was behind it. -/
def Approaches (fd : ℕ) (s e : EventList) (polls : ℕ) : Prop :=
  ∃ since, e.reported = s.reported ++ since ∧
    (fd ∈ since ∨ fd ∈ e.ready ∧ e.size = s.size * 2 ^ polls ∧
      e.ready.idxOf fd + e.size ≤ s.ready.idxOf fd + s.size)

theorem idxOf_erase_le (ready : List ℕ) {fd other : ℕ} (hne : other ≠ fd) :
    (ready.erase other).idxOf fd ≤ ready.idxOf fd := by
  induction ready with
  | nil => exact le_rfl
  | cons first ready ih =>
      by_cases hfirst : first = other
      · subst hfirst
        rw [List.erase_cons_head, List.idxOf_cons_ne ready hne]
        exact Nat.le_succ _
      · rw [List.erase_cons_tail (by simpa using hfirst)]
        by_cases hfd : first = fd
        · subst hfd
          rw [List.idxOf_cons_self]
          exact Nat.zero_le _
        · rw [List.idxOf_cons_ne _ hfd, List.idxOf_cons_ne _ hfd]
          exact Nat.succ_le_succ ih

theorem Approaches.step {fd : ℕ} {s e e' : EventList} {polls : ℕ} {label : Label}
    (h : Approaches fd s e polls) (hwf : WellFormed e) (hstays : StaysReady fd label)
    (hstep : Step e label e') :
    Approaches fd s e' (polls + if label.isPoll then 1 else 0) := by
  obtain ⟨since, hsince, hwaits⟩ := h
  cases hstep with
  | add other hother => exact ⟨since, hsince, hwaits⟩
  -- the places in front of `fd` can only become fewer
  | delete other =>
      refine ⟨since, hsince, hwaits.imp_right ?_⟩
      rintro ⟨hmem, hsize, hidx⟩
      have hle := idxOf_erase_le e.ready hstays
      refine ⟨(List.mem_erase_of_ne fun heq => hstays heq.symm).2 hmem, hsize, ?_⟩
      dsimp only
      omega
  -- what becomes ready goes behind it
  | wake other hother hready =>
      refine ⟨since, hsince, hwaits.imp_right ?_⟩
      rintro ⟨hmem, hsize, hidx⟩
      refine ⟨List.mem_append_left _ hmem, hsize, ?_⟩
      rwa [List.idxOf_append_of_mem hmem]
  | poll isReady =>
      refine ⟨since ++ (serve isReady e.ready e.size).1, ?_, ?_⟩
      · rw [← List.append_assoc, ← hsince]
        rfl
      rcases hwaits with hreported | ⟨hmem, hsize, hidx⟩
      · exact .inl (List.mem_append_left _ hreported)
      by_cases hserved : fd ∈ (serve isReady e.ready e.size).1
      · exact .inl (List.mem_append_right _ hserved)
      · -- the poll was full, so the list is doubled
        obtain ⟨hleft, hlength, hfront⟩ := idxOf_left_le hmem hstays hserved
        have hdoubled : (e.poll isReady).size = e.size * 2 := by
          have hpos := hwf.le_size
          exact if_pos ⟨by omega, hlength⟩
        right
        refine ⟨List.mem_append_left _ hleft, ?_, ?_⟩
        · rw [hdoubled, hsize, Label.isPoll, if_pos rfl, Nat.pow_succ, Nat.mul_assoc]
        · have hsame : (e.poll isReady).ready.idxOf fd =
              (serve isReady e.ready e.size).2.idxOf fd := List.idxOf_append_of_mem hleft
          rw [hdoubled, hsame]
          omega

/-- The event list does not outgrow the fds, and no ready fd is starved.  With at most `limit`
fds registered at a time, `events_` has 16 places times a power of two in every state, and no
more than twice `limit` beyond the first 16.  An fd that the kernel takes for ready and whose
socket stays so is reported by one of the next `k` polls if `limit` is at most
`16 * (2 ^ k - 1)`, whatever else is ready, becomes ready, is added or is deleted meanwhile. -/
theorem ready_reported (limit : ℕ) (labels : List Label) (s : EventList)
    (hrun : Run (restrict Step (Within limit)) {} labels s) :
    (∃ doublings, s.size = 16 * 2 ^ doublings) ∧ s.size ≤ max 16 (2 * limit) ∧
      ∀ fd ∈ s.ready, ∀ next t,
        Run (restrict (restrict Step (Within limit)) fun _ => StaysReady fd) s next t →
        limit ≤ 16 * (2 ^ next.countP Label.isPoll - 1) →
          ∃ since, t.reported = s.reported ++ since ∧ fd ∈ since := by
  have hstart : Bounded limit s := .of_run hrun
  refine ⟨hstart.size_eq, hstart.size_le, fun fd hmem next t hnext hpolls => ?_⟩
  have happroaches : Bounded limit t ∧ Approaches fd s t (next.countP Label.isPoll) := by
    clear hpolls
    induction hnext with
    | nil =>
        refine ⟨hstart, [], (List.append_nil _).symm, .inr ⟨hmem, ?_, le_rfl⟩⟩
        exact (Nat.mul_one s.size).symm
    | @snoc past label e e' _ hlast ih =>
        obtain ⟨hstep, hstays⟩ := hlast
        refine ⟨ih.1.step hstep, ?_⟩
        rw [List.countP_append, List.countP_singleton]
        exact ih.2.step ih.1.toWellFormed hstays hstep.1
  obtain ⟨-, since, hsince, hreported | ⟨hwaits, hdoubled, hidx⟩⟩ := happroaches
  · exact ⟨since, hsince, hreported⟩
  · -- all of the polls were full, and looked at more fds than there are in front of it
    have hfront : s.ready.idxOf fd < limit :=
      (List.idxOf_lt_length_of_mem hmem).trans_le (hstart.length_ready_le.trans hstart.card_le)
    have hplaces : 16 * (2 ^ next.countP Label.isPoll - 1) ≤
        s.size * (2 ^ next.countP Label.isPoll - 1) :=
      Nat.mul_le_mul_right _ hstart.le_size
    rw [Nat.mul_sub_one s.size] at hplaces
    omega

/-- One fd is added, becomes ready and is reported by the next poll. -/
theorem ready_reported_one : ∃ since, (({ registered := {5}, ready := [5] } : EventList).poll
    fun _ => true).reported = since ∧ 5 ∈ since := by
  have hadded : restrict Step (Within 16) {} (.add 5) { registered := {5} } :=
    ⟨.add 5 (Finset.notMem_empty 5), show 0 < 16 by decide⟩
  have hwoken : restrict Step (Within 16) { registered := {5} } (.wake 5)
      { registered := {5}, ready := [5] } :=
    ⟨.wake 5 (Finset.mem_singleton_self 5) List.not_mem_nil, trivial⟩
  have hpolled : restrict (restrict Step (Within 16)) (fun _ => StaysReady 5)
      { registered := {5}, ready := [5] } (.poll fun _ => true)
      (({ registered := {5}, ready := [5] } : EventList).poll fun _ => true) :=
    ⟨⟨.poll _, trivial⟩, rfl⟩
  obtain ⟨-, -, hreported⟩ := ready_reported 16 _ _ ((Run.single hadded).snoc hwoken)
  obtain ⟨since, hsince, hmem⟩ :=
    hreported 5 List.mem_cons_self _ _ (Run.single hpolled) (by decide)
  exact ⟨since, hsince.trans (List.nil_append since), hmem⟩

end EventList

end MuduoLite
