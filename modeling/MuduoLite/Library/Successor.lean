import Mathlib.Order.Bounds.Basic
import MuduoLite.Library.SortedVector

/-!
# The next element, clockwise

The elements of a linear order are read as positions on a circle.  Clockwise from `a`
comes the least element above `a` of a set, or its least element if none is above `a`.
A sorted vector is searched for it by an upper bound that wraps around at the end.

The next element does not depend on the others: it stays the next one in every smaller
set that it belongs to (`IsNext.of_subset`).
-/

namespace SortedVector

variable {α : Type*} [LinearOrder α]

/-- Clockwise from `a`, the element `x` is the first one of `s`. -/
def IsNext (s : Set α) (a x : α) : Prop :=
  IsLeast {y ∈ s | a < y} x ∨ {y ∈ s | a < y} = ∅ ∧ IsLeast s x

variable {s t : Set α} {a x y : α}

theorem IsNext.mem (h : IsNext s a x) : x ∈ s := by
  rcases h with habove | ⟨_, hleast⟩
  · exact habove.1.1
  · exact hleast.1

theorem IsNext.unique (hx : IsNext s a x) (hy : IsNext s a y) : x = y := by
  rcases hx with hx | ⟨hnone, hx⟩ <;> rcases hy with hy | ⟨hnone', hy⟩
  · exact hx.unique hy
  · exact absurd hx.1 (hnone' ▸ Set.notMem_empty x)
  · exact absurd hy.1 (hnone ▸ Set.notMem_empty y)
  · exact hx.unique hy

theorem IsNext.of_subset (h : IsNext s a x) (hsubset : t ⊆ s) (hx : x ∈ t) : IsNext t a x := by
  rcases h with habove | ⟨hnone, hleast⟩
  · left
    exact ⟨⟨hx, habove.1.2⟩, fun z hz => habove.2 ⟨hsubset hz.1, hz.2⟩⟩
  · right
    refine ⟨?_, hx, fun z hz => hleast.2 (hsubset hz)⟩
    rw [← Set.subset_empty_iff, ← hnone]
    exact fun z hz => ⟨hsubset hz.1, hz.2⟩

/-- The search with wrap-around finds the next element. -/
theorem exists_isNext {xs : List α} (hsorted : xs.Pairwise (· ≤ ·)) (hsome : xs ≠ []) (a : α) :
    ∃ x, xs[if upperBound xs a = xs.length then 0 else upperBound xs a]? = some x ∧
      IsNext {y | y ∈ xs} a x := by
  have hlength : 0 < xs.length := List.length_pos_of_ne_nil hsome
  have hmono {i j : ℕ} (hi : i < xs.length) (hj : j < xs.length) (hij : i ≤ j) :
      xs[i] ≤ xs[j] := by
    rcases hij.lt_or_eq with hlt | rfl
    · exact List.pairwise_iff_getElem.1 hsorted i j hi hj hlt
    · exact le_rfl
  by_cases hend : upperBound xs a = xs.length
  · -- nothing is above `a`, and the front is the least of all
    rw [if_pos hend]
    refine ⟨xs[0], List.getElem?_eq_getElem hlength, .inr ⟨?_, List.getElem_mem hlength, ?_⟩⟩
    · rw [Set.eq_empty_iff_forall_notMem]
      rintro y ⟨hy, hlt⟩
      simpa [hlt] using List.findIdx_eq_length.1 hend y hy
    · intro y hy
      obtain ⟨j, hj, rfl⟩ := List.getElem_of_mem hy
      exact hmono hlength hj (Nat.zero_le j)
  · have hbound : upperBound xs a < xs.length := lt_of_le_of_ne upperBound_le_length hend
    rw [if_neg hend]
    refine ⟨xs[upperBound xs a], List.getElem?_eq_getElem hbound,
      .inl ⟨⟨List.getElem_mem hbound, ?_⟩, ?_⟩⟩
    · exact of_decide_eq_true (List.findIdx_getElem (w := hbound))
    · rintro y ⟨hy, hlt⟩
      obtain ⟨j, hj, rfl⟩ := List.getElem_of_mem hy
      apply hmono hbound hj
      by_contra hbefore
      have hnot := List.not_of_lt_findIdx (not_le.1 hbefore)
      simp [hlt] at hnot

end SortedVector
