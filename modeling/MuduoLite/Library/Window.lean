import Mathlib.Data.List.TakeDrop

/-!
# Windows of a list

`window xs first last` is the part of `xs` at the positions `first ≤ i < last`,
and `overwrite xs first data` puts `data` at the positions from `first` on.
Together they describe reads and writes of an index range of an array.
-/

namespace Window

variable {α : Type*}

/-- The elements of `xs` at the positions `first ≤ i < last`. -/
def window (xs : List α) (first last : ℕ) : List α := (xs.take last).drop first

/-- `xs` with `data` at the positions from `first` on. -/
def overwrite (xs : List α) (first : ℕ) (data : List α) : List α :=
  xs.take first ++ data ++ xs.drop (first + data.length)

@[simp] theorem window_self (xs : List α) (first : ℕ) : window xs first first = [] := by
  simp [window]

theorem length_window {xs : List α} {first last : ℕ} (hlast : last ≤ xs.length) :
    (window xs first last).length = last - first := by
  simp [window, Nat.min_eq_left hlast]

theorem window_append_window {xs : List α} {first middle last : ℕ} (hfirst : first ≤ middle)
    (hlast : middle ≤ last) : window xs first middle ++ window xs middle last =
      window xs first last := by
  have hsplit : xs.take last = xs.take middle ++ (xs.take last).drop middle := by
    conv_lhs => rw [← List.take_append_drop middle (xs.take last)]
    rw [List.take_take, Nat.min_eq_left hlast]
  unfold window
  by_cases hlen : middle ≤ xs.length
  · have hlen' : first ≤ (xs.take middle).length := by rw [List.length_take]; omega
    conv_rhs => rw [hsplit]
    rw [List.drop_append_of_le_length hlen']
  · have hshort : xs.length ≤ middle := Nat.le_of_not_le hlen
    rw [List.take_of_length_le hshort, List.take_of_length_le (Nat.le_trans hshort hlast),
      List.drop_of_length_le hshort, List.append_nil]

theorem take_window {xs : List α} {first last count : ℕ} (hcount : first + count ≤ last) :
    (window xs first last).take count = window xs first (first + count) := by
  rw [window, window, List.take_drop, List.take_take, Nat.min_eq_left hcount]

theorem drop_window (xs : List α) (first last count : ℕ) :
    (window xs first last).drop count = window xs (first + count) last := by
  rw [window, window, List.drop_drop]

theorem length_overwrite {xs data : List α} {first : ℕ}
    (hfits : first + data.length ≤ xs.length) : (overwrite xs first data).length = xs.length := by
  simp only [overwrite, List.length_append, List.length_take, List.length_drop]
  omega

/-- Writing at `first` leaves the positions before it as they are. -/
theorem window_overwrite_of_le {xs data : List α} {first from' last : ℕ}
    (hfits : first + data.length ≤ xs.length) (hlast : last ≤ first) :
    window (overwrite xs first data) from' last = window xs from' last := by
  unfold window overwrite
  rw [List.append_assoc, List.take_append_of_le_length (by rw [List.length_take]; omega),
    List.take_take, Nat.min_eq_left hlast]

/-- What was written at `first` is read back. -/
theorem window_overwrite_self {xs data : List α} {first : ℕ}
    (hfits : first + data.length ≤ xs.length) :
    window (overwrite xs first data) first (first + data.length) = data := by
  have hlen : (xs.take first).length = first := by rw [List.length_take]; omega
  unfold window overwrite
  rw [List.take_append_of_le_length (by simp [hlen]), List.take_of_length_le (by simp [hlen]),
    List.drop_left' hlen]

theorem window_append_of_le {xs ys : List α} {first last : ℕ} (hlast : last ≤ xs.length) :
    window (xs ++ ys) first last = window xs first last := by
  rw [window, window, List.take_append_of_le_length hlast]

end Window
