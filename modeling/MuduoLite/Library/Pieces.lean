import Mathlib.Data.List.Basic

/-!
# Input that comes in pieces

A consumer is given its input piece by piece.  It sees what it has kept of the pieces so
far, and decides how much of that it has used up and what it puts out.

The input is a stream, so how it was cut into pieces means nothing.  A consumer is
`Incremental` if it does the same for two pieces as for the two in one.  Then it does the
same for any two lists of pieces that make up the same stream (`feedAll_congr`).
-/

namespace Pieces

/-- From its state and the input that it has kept, a consumer determines its next state,
how much of the input it has used up, and its output. -/
abbrev Consumer (σ α β : Type*) := σ → List α → σ × ℕ × List β

structure Progress (σ α β : Type*) where
  state : σ
  kept : List α := []
  out : List β := []

variable {σ α β : Type*} (consumer : Consumer σ α β)

/-- The next piece comes. -/
def feed (p : Progress σ α β) (piece : List α) : Progress σ α β :=
  let input := p.kept ++ piece
  let result := consumer p.state input
  ⟨result.1, input.drop result.2.1, p.out ++ result.2.2⟩

def feedAll (p : Progress σ α β) (pieces : List (List α)) : Progress σ α β :=
  pieces.foldl (feed consumer) p

/-- Two pieces have the same effect as the two in one. -/
def Incremental : Prop :=
  ∀ (p : Progress σ α β) (first second : List α), first ≠ [] → second ≠ [] →
    feed consumer (feed consumer p first) second = feed consumer p (first ++ second)

variable {consumer}

theorem feedAll_snoc (p : Progress σ α β) (pieces : List (List α)) (piece : List α) :
    feedAll consumer p (pieces ++ [piece]) = feed consumer (feedAll consumer p pieces) piece := by
  simp [feedAll]

/-- All pieces have the effect of one. -/
theorem feedAll_cons (h : Incremental consumer) (p : Progress σ α β) {piece : List α}
    {pieces : List (List α)} (hpiece : piece ≠ []) (hpieces : ∀ other ∈ pieces, other ≠ []) :
    feedAll consumer p (piece :: pieces) = feed consumer p (piece ++ pieces.flatten) := by
  induction pieces generalizing piece with
  | nil => simp [feedAll]
  | cons next rest ih =>
      obtain ⟨hnext, hrest⟩ := List.forall_mem_cons.1 hpieces
      have hjoined : piece ++ next ≠ [] := by simp [hpiece]
      calc
        feedAll consumer p (piece :: next :: rest)
            = feedAll consumer (feed consumer (feed consumer p piece) next) rest := rfl
        _ = feedAll consumer p ((piece ++ next) :: rest) := by rw [h p piece next hpiece hnext]; rfl
        _ = feed consumer p (piece ++ (next :: rest).flatten) := by
          rw [ih hjoined hrest, List.flatten_cons, List.append_assoc]

/-- Only the stream counts, not how it was cut. -/
theorem feedAll_congr (h : Incremental consumer) (p : Progress σ α β)
    {pieces pieces' : List (List α)} (hpieces : ∀ piece ∈ pieces, piece ≠ [])
    (hpieces' : ∀ piece ∈ pieces', piece ≠ [])
    (hstream : pieces.flatten = pieces'.flatten) :
    feedAll consumer p pieces = feedAll consumer p pieces' := by
  cases pieces with
  | nil =>
      cases pieces' with
      | nil => rfl
      | cons piece rest => simp [(List.forall_mem_cons.1 hpieces').1] at hstream
  | cons piece rest =>
      cases pieces' with
      | nil => simp [(List.forall_mem_cons.1 hpieces).1] at hstream
      | cons piece' rest' =>
          obtain ⟨hpiece, hrest⟩ := List.forall_mem_cons.1 hpieces
          obtain ⟨hpiece', hrest'⟩ := List.forall_mem_cons.1 hpieces'
          rw [feedAll_cons h p hpiece hrest, feedAll_cons h p hpiece' hrest']
          exact congrArg (feed consumer p) hstream

end Pieces
