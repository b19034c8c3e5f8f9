import Mathlib.Data.Int.Notation
import Mathlib.Data.List.Basic

/-!
# Names that end in a number

A text followed by a separator and a number in decimal notation determines the text and
the number, if the separator is no character of the notation.  The text is arbitrary and
may hold the separator itself: the split is at its last occurrence.

Signed numbers have a sign in front if they are negative.
-/

namespace Decimal

/-- Two lists that are split at the last occurrence of the same element are split alike. -/
theorem append_cons_inj {α : Type*} {a : α} {xs ys xs' ys' : List α} (hys : a ∉ ys)
    (hys' : a ∉ ys') (h : xs ++ a :: ys = xs' ++ a :: ys') : xs = xs' ∧ ys = ys' := by
  rcases List.append_eq_append_iff.1 h with ⟨between, hxs, hcons⟩ | ⟨between, hxs, hcons⟩
  · cases between with
    | nil => exact ⟨by simpa using hxs.symm, by simpa using hcons⟩
    | cons first rest =>
        -- the second list would hold the separator after its split
        rw [List.cons_append, List.cons.injEq] at hcons
        exact absurd (hcons.2 ▸ List.mem_append_right _ List.mem_cons_self) hys
  · cases between with
    | nil => exact ⟨by simpa using hxs, by simpa using hcons.symm⟩
    | cons first rest =>
        rw [List.cons_append, List.cons.injEq] at hcons
        exact absurd (hcons.2 ▸ List.mem_append_right _ List.mem_cons_self) hys'

theorem toDigits_injective : Function.Injective (Nat.toDigits 10) := by
  intro m n h
  calc
    m = Nat.ofDigitChars 10 (Nat.toDigits 10 m) 0 := Nat.ofDigitChars_ten_toDigits.symm
    _ = Nat.ofDigitChars 10 (Nat.toDigits 10 n) 0 := by rw [h]
    _ = n := Nat.ofDigitChars_ten_toDigits

theorem notMem_toDigits {c : Char} (hc : c.isDigit = false) (n : ℕ) : c ∉ Nat.toDigits 10 n := by
  intro hmem
  rw [Nat.isDigit_of_mem_toDigits (by decide) (by decide) hmem] at hc
  exact Bool.noConfusion hc

/-! ## Signed numbers -/

def signed : ℤ → List Char
  | .ofNat n => Nat.toDigits 10 n
  | .negSucc n => '-' :: Nat.toDigits 10 (n + 1)

theorem toDigits_ne_cons_minus (m : ℕ) (digits : List Char) :
    Nat.toDigits 10 m ≠ '-' :: digits := by
  intro h
  exact notMem_toDigits (by decide) m (h ▸ List.mem_cons_self)

theorem signed_injective : Function.Injective signed := by
  intro y z h
  cases y with
  | ofNat m =>
      cases z with
      | ofNat n => exact congrArg Int.ofNat (toDigits_injective h)
      | negSucc n => exact absurd h (toDigits_ne_cons_minus _ _)
  | negSucc m =>
      cases z with
      | ofNat n => exact absurd h.symm (toDigits_ne_cons_minus _ _)
      | negSucc n =>
          have hsucc : m + 1 = n + 1 := toDigits_injective (List.cons.inj h).2
          exact congrArg Int.negSucc (Nat.succ.inj hsucc)

/-- The sign takes at most one place more than the digits of the absolute value. -/
theorem length_signed_le (z : ℤ) :
    (signed z).length ≤ (Nat.toDigits 10 z.natAbs).length + 1 := by
  cases z with
  | ofNat n => exact Nat.le_succ _
  | negSucc n => exact Nat.le_refl _

end Decimal
