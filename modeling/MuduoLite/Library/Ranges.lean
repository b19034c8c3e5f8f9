import Mathlib.Data.List.TakeDrop

/-!
# Consecutive ranges

A range of positions is given by its start and its length.  The ranges of a list are
consecutive when each one starts where the one before it ends; then they cover an
interval, every position once and in order.
-/

namespace Ranges

variable {α : Type*}

/-- The ranges follow one another, from `first` up to `last`. -/
def Consecutive (first : ℕ) : List (ℕ × ℕ) → ℕ → Prop
  | [], last => last = first
  | (start, length) :: rest, last => start = first ∧ Consecutive (first + length) rest last

/-- The positions in the ranges, one range after the other. -/
def positions (ranges : List (ℕ × ℕ)) : List ℕ :=
  ranges.flatMap fun range => List.range' range.1 range.2

namespace Consecutive

theorem single (first length : ℕ) : Consecutive first [(first, length)] (first + length) :=
  ⟨rfl, rfl⟩

theorem append {first middle last : ℕ} {ranges ranges' : List (ℕ × ℕ)}
    (h : Consecutive first ranges middle) (h' : Consecutive middle ranges' last) :
    Consecutive first (ranges ++ ranges') last := by
  induction ranges generalizing first with
  | nil =>
      have hmiddle : middle = first := h
      rwa [hmiddle] at h'
  | cons range rest ih => exact ⟨h.1, ih h.2⟩

/-- Each position of the interval occurs once, in order. -/
theorem positions_eq {first last : ℕ} {ranges : List (ℕ × ℕ)} (h : Consecutive first ranges last) :
    ∃ count, last = first + count ∧ positions ranges = List.range' first count := by
  induction ranges generalizing first with
  | nil => exact ⟨0, h, rfl⟩
  | cons range rest ih =>
      obtain ⟨start, length⟩ := range
      obtain ⟨rfl, hrest⟩ := h
      obtain ⟨count, hlast, hpositions⟩ := ih hrest
      refine ⟨length + count, by rw [hlast, Nat.add_assoc], ?_⟩
      calc
        positions ((start, length) :: rest) = List.range' start length ++ positions rest :=
          List.flatMap_cons
        _ = List.range' start length ++ List.range' (start + length) count := by rw [hpositions]
        _ = List.range' start (length + count) := List.range'_append_1

/-- The parts of a list at consecutive ranges are the part at the interval. -/
theorem slices_eq {first count : ℕ} {ranges : List (ℕ × ℕ)} (xs : List α)
    (h : Consecutive first ranges (first + count)) :
    (ranges.flatMap fun range => (xs.drop range.1).take range.2) = (xs.drop first).take count := by
  induction ranges generalizing first count with
  | nil =>
      have hcount : count = 0 := Nat.add_eq_left.1 h
      rw [hcount]
      rfl
  | cons range rest ih =>
      obtain ⟨start, length⟩ := range
      obtain ⟨rfl, hrest⟩ := h
      obtain ⟨more, hlast, -⟩ := hrest.positions_eq
      obtain rfl : count = length + more := by omega
      rw [List.flatMap_cons, ih (by rwa [Nat.add_assoc]), List.take_add, List.drop_drop]

end Consecutive

end Ranges
