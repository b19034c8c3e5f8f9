import Mathlib.Data.List.Induction
import Mathlib.Order.Lattice

/-!
# Reaching a mark from below

A level rises and falls.  It crosses a mark where it reaches it from below; `crossings` has
the levels at which this happens, in their order.  A level that is not below the mark has
been so since the last crossing (`exists_last`).
-/

namespace Crossings

variable {α : Type*} [LinearOrder α]

/-- The levels at which the mark is reached from below. -/
def crossings (mark : α) : List α → List α
  | before :: after :: rest =>
      (if before < mark ∧ mark ≤ after then [after] else []) ++ crossings mark (after :: rest)
  | [_] => []
  | [] => []

theorem crossings_snoc (mark : α) (levels : List α) (before after : α) :
    crossings mark (levels ++ [before, after]) = crossings mark (levels ++ [before]) ++
      if before < mark ∧ mark ≤ after then [after] else [] := by
  induction levels with
  | nil => simp [crossings]
  | cons first levels ih =>
      cases levels with
      | nil => simp [crossings]
      | cons second levels =>
          simp only [List.cons_append, crossings] at ih ⊢
          rw [ih, List.append_assoc]

/-- The level starts below the mark and is not below it at the end: since the last crossing
it has not been below. -/
theorem exists_last {mark : α} {levels : List α} {first last : α}
    (hhead : levels.head? = some first) (hfirst : first < mark)
    (hend : levels.getLast? = some last) (hlast : mark ≤ last) :
    ∃ before start after, levels = before ++ start :: after ∧
      (∀ level ∈ start :: after, mark ≤ level) ∧
      crossings mark levels = crossings mark before ++ [start] := by
  induction levels using List.reverseRecOn generalizing last with
  | nil => exact absurd hhead.symm (Option.some_ne_none first)
  | append_singleton init level ih =>
      rw [List.getLast?_concat, Option.some.injEq] at hend
      subst hend
      rcases List.eq_nil_or_concat init with rfl | ⟨rest, previous, rfl⟩
      · -- one level cannot be on both sides
        rw [List.nil_append, List.head?_cons, Option.some.injEq] at hhead
        exact absurd hfirst (not_lt.2 (hhead ▸ hlast))
      · have hsnoc := crossings_snoc mark rest previous level
        rw [List.concat_eq_append] at ih hhead ⊢
        rw [List.append_assoc, List.singleton_append, hsnoc]
        by_cases hprevious : mark ≤ previous
        · have hhead' : (rest ++ [previous]).head? = some first := by
            cases rest <;> simpa using hhead
          obtain ⟨before, start, after, hlevels, habove, hcross⟩ :=
            ih hhead' List.getLast?_concat hprevious
          refine ⟨before, start, after ++ [level], ?_, ?_, ?_⟩
          · rw [← List.cons_append, ← List.append_assoc, ← hlevels, List.append_assoc]
            rfl
          · intro other hother
            rw [← List.cons_append, List.mem_append, List.mem_singleton] at hother
            rcases hother with hother | rfl
            · exact habove other hother
            · exact hlast
          · rw [if_neg fun h => not_le.2 h.1 hprevious, List.append_nil, hcross]
        · refine ⟨rest ++ [previous], level, [], by simp, ?_, ?_⟩
          · intro other hother
            rwa [List.mem_singleton.1 hother]
          · rw [if_pos ⟨not_le.1 hprevious, hlast⟩]

end Crossings
