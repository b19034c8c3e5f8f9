import Mathlib.Data.List.Basic

/-!
# Queues that are served in batches

Entries are enqueued at the back.  The server takes everything that is there as
its batch, serves the batch in order, and lets go of all entries of the batch
only at its end.  Whatever an entry owns is owned from the moment it is enqueued
until then.

So an entry outlives everything that was enqueued before it.  `KeptBy q kept
keeper` states this for two kinds of entries: as long as an entry of the first
kind waits, an entry of the second kind is held that stays until the first one
has been served.  Enqueuing a keeper establishes `KeptBy`, and every other
operation keeps it, provided that no further entry of the first kind arrives.
-/

structure BatchQueue (F : Type*) where
  pending : List F := []
  /-- the entries of the batch that have been served -/
  ran : List F := []
  /-- the entries of the batch that have not -/
  todo : List F := []

namespace BatchQueue

variable {F : Type*}

/-! ## Operations -/

def enqueue (q : BatchQueue F) (entries : List F) : BatchQueue F :=
  { q with pending := q.pending ++ entries }

/-- Start a batch. -/
def swap (q : BatchQueue F) : BatchQueue F := { pending := [], ran := [], todo := q.pending }

/-- Serve the first entry of the batch. -/
def advance (q : BatchQueue F) : BatchQueue F :=
  { q with ran := q.ran ++ q.todo.take 1, todo := q.todo.tail }

/-- Let go of a batch that has been served. -/
def finish (q : BatchQueue F) : BatchQueue F := { q with ran := [] }

/-- The entries still to be served. -/
def waiting (q : BatchQueue F) : List F := q.todo ++ q.pending

/-- The entries that exist. -/
def held (q : BatchQueue F) : List F := q.ran ++ q.waiting

variable (q : BatchQueue F)

@[simp] theorem waiting_enqueue (entries : List F) :
    (q.enqueue entries).waiting = q.waiting ++ entries := by
  simp [waiting, enqueue]

@[simp] theorem held_enqueue (entries : List F) :
    (q.enqueue entries).held = q.held ++ entries := by
  simp [held, enqueue, waiting]

theorem waiting_swap (hidle : q.todo = []) : q.swap.waiting = q.waiting := by
  simp [waiting, swap, hidle]

theorem held_swap (hidle : q.ran = [] ∧ q.todo = []) : q.swap.held = q.held := by
  simp [held, waiting, swap, hidle]

theorem waiting_advance {first : F} {rest : List F} (htodo : q.todo = first :: rest) :
    q.waiting = first :: q.advance.waiting := by
  simp [waiting, advance, htodo]

@[simp] theorem held_advance : q.advance.held = q.held := by
  cases htodo : q.todo <;> simp [held, waiting, advance, htodo]

@[simp] theorem waiting_finish : q.finish.waiting = q.waiting := rfl

theorem held_finish : q.finish.held = q.waiting := by
  simp [held, finish, waiting]

theorem mem_held_of_mem_waiting {q : BatchQueue F} {entry : F} (h : entry ∈ q.waiting) :
    entry ∈ q.held := List.mem_append_right _ h

/-! ## Entries that keep others -/

/-- While an entry of kind `kept` waits, one of kind `keeper` is held until after
it: behind it in the queue, or in the same batch. -/
structure KeptBy (q : BatchQueue F) (kept keeper : F → Prop) : Prop where
  pending : ∀ entry ∈ q.pending, kept entry → ∃ other ∈ q.pending, keeper other
  todo : ∀ entry ∈ q.todo, kept entry → ∃ other ∈ q.held, keeper other

namespace KeptBy

variable {q} {kept keeper : F → Prop}

theorem of_none (h : ∀ entry ∈ q.waiting, ¬ kept entry) : KeptBy q kept keeper where
  pending := fun entry hmem hkept => absurd hkept (h entry (List.mem_append_right _ hmem))
  todo := fun entry hmem hkept => absurd hkept (h entry (List.mem_append_left _ hmem))

theorem exists_of_waiting (h : KeptBy q kept keeper) {entry : F} (hmem : entry ∈ q.waiting)
    (hkept : kept entry) : ∃ other ∈ q.held, keeper other := by
  rcases List.mem_append.1 hmem with htodo | hpending
  · exact h.todo entry htodo hkept
  · obtain ⟨other, hother, hkeeper⟩ := h.pending entry hpending hkept
    exact ⟨other, mem_held_of_mem_waiting (List.mem_append_right _ hother), hkeeper⟩

/-- A keeper keeps everything that was enqueued before it. -/
theorem enqueue_keeper (entry : F) (hkeeper : keeper entry) :
    KeptBy (q.enqueue [entry]) kept keeper where
  pending := fun _ _ _ => ⟨entry, by simp [BatchQueue.enqueue], hkeeper⟩
  todo := fun _ _ _ => ⟨entry, by simp, hkeeper⟩

theorem enqueue (h : KeptBy q kept keeper) {entries : List F}
    (hnone : ∀ entry ∈ entries, ¬ kept entry) : KeptBy (q.enqueue entries) kept keeper where
  pending := by
    intro entry hmem hkept
    rcases List.mem_append.1 hmem with hold | hnew
    · obtain ⟨other, hother, hkeeper⟩ := h.pending entry hold hkept
      exact ⟨other, List.mem_append_left _ hother, hkeeper⟩
    · exact absurd hkept (hnone entry hnew)
  todo := by
    intro entry hmem hkept
    obtain ⟨other, hother, hkeeper⟩ := h.todo entry hmem hkept
    exact ⟨other, by simp [hother], hkeeper⟩

theorem swap (h : KeptBy q kept keeper) : KeptBy q.swap kept keeper where
  pending := fun _ hmem => absurd hmem List.not_mem_nil
  todo := by
    intro entry hmem hkept
    obtain ⟨other, hother, hkeeper⟩ := h.pending entry hmem hkept
    exact ⟨other, by simpa [held, waiting, BatchQueue.swap] using hother, hkeeper⟩

theorem advance (h : KeptBy q kept keeper) : KeptBy q.advance kept keeper where
  pending := h.pending
  todo := fun entry hmem => by
    rw [held_advance]
    exact h.todo entry (List.mem_of_mem_tail hmem)

/-- At the end of a batch nothing of it waits any more. -/
theorem finish (h : KeptBy q kept keeper) (hdone : q.todo = []) :
    KeptBy q.finish kept keeper where
  pending := h.pending
  todo := fun entry hmem => by simp [BatchQueue.finish, hdone] at hmem

end KeptBy

end BatchQueue
