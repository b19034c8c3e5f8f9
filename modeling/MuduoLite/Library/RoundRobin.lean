import Mathlib.Data.List.Nodup
import Mathlib.Data.List.Perm.Subperm

/-!
# Serving a queue round robin

A server looks at the entries of its queue from the front on until it has served a given
number of them.  An entry that is ready is served and goes to the back; one that is not
leaves the queue.

An entry that is ready and not served has as many entries less in front of it as were
served (`idxOf_left_le`).  New entries come in at the back, so they do not delay it.
-/

namespace RoundRobin

variable {α : Type*} (ready : α → Bool)

/-- The entries that are served, up to `size`, and those that were not looked at. -/
def serve : List α → ℕ → List α × List α
  | queue, 0 => ([], queue)
  | [], _ + 1 => ([], [])
  | entry :: rest, size + 1 =>
      if ready entry then
        let result := serve rest size
        (entry :: result.1, result.2)
      else serve rest (size + 1)

/-- The queue after the entries were served. -/
def next (queue : List α) (size : ℕ) : List α :=
  (serve ready queue size).2 ++ (serve ready queue size).1

/-- Served entries and those not looked at are still in their order. -/
theorem served_append_left_sublist (queue : List α) (size : ℕ) :
    ((serve ready queue size).1 ++ (serve ready queue size).2).Sublist queue := by
  fun_induction serve ready queue size with
  | case1 queue => exact List.Sublist.refl _
  | case2 size => exact List.Sublist.refl _
  | case3 entry rest size hready result ih => exact ih.cons_cons entry
  | case4 entry rest size hready ih => exact ih.cons entry

variable {ready} {queue : List α} {size : ℕ} {entry : α}

theorem next_perm_sublist (queue : List α) (size : ℕ) :
    (next ready queue size).Subperm queue :=
  (List.perm_append_comm.subperm).trans (served_append_left_sublist ready queue size).subperm

theorem nodup_next (h : queue.Nodup) (size : ℕ) : (next ready queue size).Nodup :=
  (List.perm_append_comm.nodup_iff).1 (h.sublist (served_append_left_sublist ready queue size))

/-- An entry that is ready and was not served has not been looked at: as many as possible
were served, and all of them stood in front of it. -/
theorem idxOf_left_le [DecidableEq α] (hmem : entry ∈ queue) (hready : ready entry = true)
    (hnot : entry ∉ (serve ready queue size).1) :
    entry ∈ (serve ready queue size).2 ∧ (serve ready queue size).1.length = size ∧
      (serve ready queue size).2.idxOf entry + size ≤ queue.idxOf entry := by
  fun_induction serve ready queue size with
  | case1 queue => exact ⟨hmem, rfl, Nat.le_refl _⟩
  | case2 size => exact absurd hmem List.not_mem_nil
  | case3 first rest size hfirst result ih =>
      have hne : entry ≠ first := fun heq => hnot (heq ▸ List.mem_cons_self)
      obtain ⟨hleft, hlength, hidx⟩ := ih (List.mem_of_ne_of_mem hne hmem)
        fun hserved => hnot (List.mem_cons_of_mem _ hserved)
      refine ⟨hleft, congrArg Nat.succ hlength, ?_⟩
      rw [List.idxOf_cons_ne rest hne.symm]
      exact Nat.succ_le_succ hidx
  | case4 first rest size hfirst ih =>
      have hne : entry ≠ first := by
        rintro rfl
        exact hfirst hready
      obtain ⟨hleft, hlength, hidx⟩ := ih (List.mem_of_ne_of_mem hne hmem) hnot
      refine ⟨hleft, hlength, ?_⟩
      rw [List.idxOf_cons_ne rest hne.symm]
      exact Nat.le_succ_of_le hidx

end RoundRobin
