import Mathlib.Data.Finset.Sort

/-!
# Ordered sets

The interface of an ordered set container that a priority queue uses, for finite
sets of a linear order: the first element in the order of iteration, and the two
parts into which `lower_bound` cuts the set.
-/

namespace OrderedSet

variable {α : Type*} [LinearOrder α]

/-- The first element in the order of iteration. -/
def begin? (s : Finset α) : Option α := s.sort.head?

/-- The elements before `lower_bound bound`, in the order of iteration. -/
def before (s : Finset α) (bound : α) : List α := (s.filter (· < bound)).sort

/-- The elements from `lower_bound bound` on. -/
def lowerBound (s : Finset α) (bound : α) : Finset α := s.filter (bound ≤ ·)

variable {s : Finset α} {a b bound : α}

theorem begin?_eq_none : begin? s = none ↔ s = ∅ := by
  rw [begin?, List.head?_eq_none_iff, ← List.length_eq_zero_iff, Finset.length_sort,
    Finset.card_eq_zero]

theorem mem_of_begin? (h : begin? s = some a) : a ∈ s :=
  (Finset.mem_sort _).1 (List.mem_of_head? h)

theorem le_of_begin? (h : begin? s = some a) (hb : b ∈ s) : a ≤ b := by
  obtain ⟨rest, hrest⟩ := List.head?_eq_some_iff.1 h
  have hsorted := s.pairwise_sort (· ≤ ·)
  rw [hrest, List.pairwise_cons] at hsorted
  have hmem : b ∈ a :: rest := hrest ▸ (Finset.mem_sort _).2 hb
  rcases List.mem_cons.1 hmem with rfl | hrest_mem
  · exact le_rfl
  · exact hsorted.1 b hrest_mem

theorem mem_before : a ∈ before s bound ↔ a ∈ s ∧ a < bound := by
  rw [before, Finset.mem_sort, Finset.mem_filter]

@[simp] theorem mem_lowerBound : a ∈ lowerBound s bound ↔ a ∈ s ∧ bound ≤ a :=
  Finset.mem_filter

theorem nodup_before : (before s bound).Nodup := Finset.sort_nodup _ _

theorem pairwise_before : (before s bound).Pairwise (· ≤ ·) := Finset.pairwise_sort _ _

end OrderedSet
