import Mathlib.Data.List.Nodup

/-!
# Calls that run at once or through a queue

An executor runs calls in two ways: a call of its own thread at once, a call of another
thread through a queue, in the order of arrival.  So a call that runs at once overtakes
everything that waits.

`line` lists the calls that have run and behind them those that wait.  `Behind d x y`
says that `x` is in the line and that `y`, if it is there too, comes after it.  A call
that joins the queue is behind everything in the line, and one that runs at once is
behind everything that has run.  No operation changes the order of two calls later.
-/

structure Dispatch (C : Type*) where
  /-- the calls that have run, in order -/
  executed : List C := []
  /-- the calls that wait, in order -/
  pending : List C := []

namespace Dispatch

open scoped List

variable {C : Type*}

/-! ## Operations -/

/-- A call of the executor's own thread. -/
def runNow (d : Dispatch C) (c : C) : Dispatch C := { d with executed := d.executed ++ [c] }

/-- A call of another thread. -/
def queue (d : Dispatch C) (c : C) : Dispatch C := { d with pending := d.pending ++ [c] }

/-- Run the call that has waited longest. -/
def runNext (d : Dispatch C) : Dispatch C :=
  { executed := d.executed ++ d.pending.take 1, pending := d.pending.tail }

def line (d : Dispatch C) : List C := d.executed ++ d.pending

section Operations

variable (d : Dispatch C)

theorem runNext_of_pending {c : C} {rest : List C} (h : d.pending = c :: rest) :
    d.runNext = { executed := d.executed ++ [c], pending := rest } := by
  simp [runNext, h]

@[simp] theorem line_runNext : d.runNext.line = d.line := by
  cases h : d.pending <;> simp [line, runNext, h]

@[simp] theorem line_queue (c : C) : (d.queue c).line = d.line ++ [c] := by
  simp [line, queue]

theorem mem_line_runNow {c x : C} : x ∈ (d.runNow c).line ↔ x ∈ d.line ∨ x = c := by
  simp only [line, runNow, List.mem_append, List.mem_singleton]
  tauto

theorem line_sublist_runNow (c : C) : d.line <+ (d.runNow c).line :=
  (List.sublist_append_left _ _).append_right _

/-- A call that runs at once may as well have been anywhere in the line. -/
theorem line_runNow_perm (c : C) : (d.runNow c).line.Perm (c :: d.line) := by
  simp only [line, runNow, List.append_assoc]
  exact List.perm_middle

end Operations

/-! ## The order of two calls -/

/-- `x` is in the line, and `y` is not before it. -/
structure Behind (d : Dispatch C) (x y : C) : Prop where
  ahead : x ∈ d.line
  order : y ∈ d.line → [x, y] <+ d.line

namespace Behind

variable {d : Dispatch C} {x y : C}

theorem of_not_mem (hx : x ∈ d.line) (hy : y ∉ d.line) : Behind d x y :=
  ⟨hx, fun hmem => absurd hmem hy⟩

/-- A call that runs at once is behind the calls that have run. -/
theorem runNow_self (hx : x ∈ d.executed) : Behind (d.runNow y) x y where
  ahead := (d.line_sublist_runNow y).subset (List.mem_append_left _ hx)
  order := fun _ => by
    have hpair : [x, y] <+ d.executed ++ [y] :=
      (List.singleton_sublist.2 hx).append (List.Sublist.refl [y])
    exact hpair.trans (List.sublist_append_left _ _)

theorem runNow (h : Behind d x y) {c : C} (hne : c ≠ y) : Behind (d.runNow c) x y where
  ahead := (d.line_sublist_runNow c).subset h.ahead
  order := fun hmem =>
    (h.order (((d.mem_line_runNow).1 hmem).resolve_right hne.symm)).trans (d.line_sublist_runNow c)

theorem queue (h : Behind d x y) (c : C) : Behind (d.queue c) x y where
  ahead := by
    rw [line_queue]
    exact List.mem_append_left _ h.ahead
  order := fun hmem => by
    rw [line_queue] at hmem ⊢
    rcases List.mem_append.1 hmem with hold | hnew
    · exact (h.order hold).trans (List.sublist_append_left _ _)
    · -- `y` joins the line behind `x`
      rw [List.mem_singleton.1 hnew]
      exact (List.singleton_sublist.2 h.ahead).append (List.Sublist.refl [c])

theorem runNext (h : Behind d x y) : Behind d.runNext x y := by
  constructor
  · rw [line_runNext]
    exact h.ahead
  · rw [line_runNext]
    exact h.order

/-- When `y` has run, `x` has run before it. -/
theorem executed (h : Behind d x y) (hnodup : d.line.Nodup) (hy : y ∈ d.executed) :
    [x, y] <+ d.executed := by
  have hwaits : y ∉ d.pending := fun hmem => List.disjoint_of_nodup_append hnodup hy hmem
  obtain ⟨first, second, hsplit, hfirst, hsecond⟩ :=
    List.sublist_append_iff.1 (h.order (List.mem_append_left _ hy))
  have hempty : second = [] := by
    rcases List.eq_nil_or_concat second with hnil | ⟨init, last, rfl⟩
    · exact hnil
    · have hlast : y = last := by
        rw [List.concat_eq_append, ← List.append_assoc] at hsplit
        have hends := congrArg List.getLast? hsplit
        simpa using hends
      subst hlast
      exact absurd (hsecond.subset (by simp)) hwaits
  rw [hempty, List.append_nil] at hsplit
  rwa [hsplit]

end Behind

/-! ## Numbered calls -/

/-- The calls are numbered in the order in which they begin: they are different, and the
next number is new. -/
structure Numbered (number : C → ℕ) (begun : ℕ) (calls : List C) : Prop where
  nodup : calls.Nodup
  lt_begun : ∀ c ∈ calls, number c < begun

namespace Numbered

variable {number : C → ℕ} {begun : ℕ} {calls calls' : List C} {c : C}

theorem not_mem (h : Numbered number begun calls) (hnew : begun ≤ number c) : c ∉ calls :=
  fun hmem => absurd (h.lt_begun c hmem) (Nat.not_lt_of_le hnew)

theorem of_perm (h : Numbered number begun calls) (hperm : calls'.Perm calls) :
    Numbered number begun calls' :=
  ⟨hperm.nodup_iff.2 h.nodup, fun c hmem => h.lt_begun c (hperm.mem_iff.1 hmem)⟩

/-- A number may remain unused. -/
theorem succ (h : Numbered number begun calls) : Numbered number (begun + 1) calls :=
  ⟨h.nodup, fun c hmem => Nat.lt_succ_of_lt (h.lt_begun c hmem)⟩

/-- A call begins. -/
theorem begin (h : Numbered number begun calls) (hnew : number c = begun)
    (hperm : calls'.Perm (c :: calls)) : Numbered number (begun + 1) calls' where
  nodup := hperm.nodup_iff.2 (List.nodup_cons.2 ⟨h.not_mem (Nat.le_of_eq hnew.symm), h.nodup⟩)
  lt_begun := fun other hmem => by
    rcases List.mem_cons.1 (hperm.mem_iff.1 hmem) with rfl | hold
    · exact hnew ▸ Nat.lt_succ_self _
    · exact Nat.lt_succ_of_lt (h.lt_begun other hold)

end Numbered

end Dispatch
