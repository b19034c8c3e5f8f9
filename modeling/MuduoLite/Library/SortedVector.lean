import Mathlib.Data.List.Sort

/-!
# Sorted vectors

A vector of elements of a linear order that is kept sorted, with repetitions: the
positions that binary search finds, and what inserting and erasing there does.  In a
sorted vector these positions are found by a scan too, which is how they are defined.
-/

namespace SortedVector

variable {α : Type*} [LinearOrder α]

/-- The first position whose element is not less than `a`, or the end. -/
def lowerBound (xs : List α) (a : α) : ℕ := xs.findIdx fun x => a ≤ x

/-- The first position whose element is greater than `a`, or the end. -/
def upperBound (xs : List α) (a : α) : ℕ := xs.findIdx fun x => a < x

variable {xs : List α} {a : α}

theorem lowerBound_cons_of_le {x : α} (h : a ≤ x) : lowerBound (x :: xs) a = 0 := by
  simp [lowerBound, List.findIdx_cons, h]

theorem lowerBound_cons_of_lt {x : α} (h : x < a) :
    lowerBound (x :: xs) a = lowerBound xs a + 1 := by
  simp [lowerBound, List.findIdx_cons, not_le.2 h]

theorem upperBound_le_length : upperBound xs a ≤ xs.length := List.findIdx_le_length

/-- Inserting at the lower bound is ordered insertion. -/
theorem insertIdx_lowerBound (xs : List α) (a : α) :
    xs.insertIdx (lowerBound xs a) a = xs.orderedInsert (· ≤ ·) a := by
  induction xs with
  | nil => rfl
  | cons x rest ih =>
      rcases le_or_gt a x with hle | hlt
      · rw [lowerBound_cons_of_le hle, List.orderedInsert_cons_of_le _ _ hle, List.insertIdx_zero]
      · rw [lowerBound_cons_of_lt hlt, List.insertIdx_succ_cons, ih,
          List.orderedInsert_of_not_le _ _ (not_le.2 hlt)]

/-- Erasing an element at its lower bound erases its first occurrence, and an element
that is not found there does not occur. -/
theorem eraseIdx_lowerBound (hsorted : xs.Pairwise (· ≤ ·)) (a : α) :
    (if xs[lowerBound xs a]? = some a then xs.eraseIdx (lowerBound xs a) else xs) =
      xs.erase a := by
  induction xs with
  | nil => simp
  | cons x rest ih =>
      obtain ⟨hfirst, hrest⟩ := List.pairwise_cons.1 hsorted
      rcases lt_trichotomy x a with hlt | rfl | hgt
      · rw [lowerBound_cons_of_lt hlt, List.getElem?_cons_succ, List.eraseIdx_cons_succ,
          List.erase_cons_tail (by simpa using hlt.ne), ← ih hrest]
        split_ifs <;> rfl
      · simp [lowerBound_cons_of_le le_rfl]
      · have habsent : a ∉ x :: rest := by
          rintro hmem
          rcases List.mem_cons.1 hmem with rfl | hmem
          · exact lt_irrefl _ hgt
          · exact absurd (hfirst a hmem) (not_le.2 hgt)
        rw [List.erase_of_not_mem habsent, lowerBound_cons_of_le hgt.le]
        simp [hgt.ne']

end SortedVector
