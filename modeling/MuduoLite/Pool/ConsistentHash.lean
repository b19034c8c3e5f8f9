import Mathlib.Data.Finmap
import MuduoLite.Library.SortedVector

/-!
# The hash ring

`ConsistentHash` assigns a key to a node.  A node has `numReplicas` virtual nodes;
the map `circle` takes the hash of a virtual node to the name of its node, and the
vector `sortedHashes` holds the same hashes in order, for the search.  The hashes are
elements of a linear order and the hash function is arbitrary, so hashes may collide.

The map and the vector are updated separately.  The lemmas below say what `addNode`
and `removeNode` do to each of them: the map forgets and overwrites, the vector keeps
count.
-/

namespace MuduoLite

open SortedVector

structure ConsistentHash (H : Type*) where
  numReplicas : ℕ := 1
  hashFunction : List Char → H
  circle : Finmap (fun _ : H => List Char) := ∅
  sortedHashes : List H := []

namespace ConsistentHash

variable {H : Type*} [LinearOrder H]

/-! ## Operations -/

/-- The name of a virtual node: `node + "_#" + std::to_string(i)`. -/
def vnode (node : List Char) (i : ℕ) : List Char := node ++ '_' :: '#' :: Nat.toDigits 10 i

/-- The hashes of the virtual nodes of a node, in the order of the loops. -/
def hashes (c : ConsistentHash H) (node : List Char) : List H :=
  (List.range c.numReplicas).map fun i => c.hashFunction (vnode node i)

def addHash (node : List Char) (c : ConsistentHash H) (hash : H) : ConsistentHash H :=
  { c with
    circle := c.circle.insert hash node
    sortedHashes := c.sortedHashes.insertIdx (lowerBound c.sortedHashes hash) hash }

def addNode (c : ConsistentHash H) (node : List Char) : ConsistentHash H :=
  (c.hashes node).foldl (addHash node) c

def removeHash (c : ConsistentHash H) (hash : H) : ConsistentHash H :=
  let it := lowerBound c.sortedHashes hash
  { c with
    circle := c.circle.erase hash
    sortedHashes :=
      if c.sortedHashes[it]? = some hash then c.sortedHashes.eraseIdx it else c.sortedHashes }

def removeNode (c : ConsistentHash H) (node : List Char) : ConsistentHash H :=
  (c.hashes node).foldl removeHash c

inductive GetNodeError
  | runtime_error (what : String)
  /-- the iterator that is dereferenced is the end of an empty vector -/
  | endDereferenced
  deriving DecidableEq, Repr

/-- `getNode`; it returns the ring too, since `operator[]` inserts an empty name where
the map has no entry. -/
def getNode (c : ConsistentHash H) (key : List Char) :
    Except GetNodeError (List Char × ConsistentHash H) :=
  if c.circle = ∅ then .error (.runtime_error "No nodes in consistent hash")
  else
    let it := upperBound c.sortedHashes (c.hashFunction key)
    match c.sortedHashes[if it = c.sortedHashes.length then 0 else it]? with
    | none => .error .endDereferenced
    | some hash =>
        match c.circle.lookup hash with
        | some node => .ok (node, c)
        | none => .ok ([], { c with circle := c.circle.insert hash [] })

/-! ## What the loops do -/

section Loops

variable (c : ConsistentHash H) (node : List Char) (hashes : List H)

theorem foldl_addHash_circle (hash : H) :
    (hashes.foldl (addHash node) c).circle.lookup hash =
      if hash ∈ hashes then some node else c.circle.lookup hash := by
  induction hashes generalizing c with
  | nil => simp
  | cons first rest ih =>
      rw [List.foldl_cons, ih]
      by_cases hrest : hash ∈ rest
      · simp [hrest]
      · by_cases hfirst : hash = first
        · subst hfirst
          simp [hrest, addHash]
        · simp [hrest, hfirst, addHash, Finmap.lookup_insert_of_ne]

theorem foldl_addHash_sortedHashes :
    (hashes.foldl (addHash node) c).sortedHashes =
      hashes.foldl (fun xs hash => xs.orderedInsert (· ≤ ·) hash) c.sortedHashes := by
  induction hashes generalizing c with
  | nil => rfl
  | cons first rest ih =>
      rw [List.foldl_cons, List.foldl_cons, ih, addHash, insertIdx_lowerBound]

theorem foldl_removeHash_circle (hash : H) :
    (hashes.foldl removeHash c).circle.lookup hash =
      if hash ∈ hashes then none else c.circle.lookup hash := by
  induction hashes generalizing c with
  | nil => simp
  | cons first rest ih =>
      rw [List.foldl_cons, ih]
      by_cases hrest : hash ∈ rest
      · simp [hrest]
      · by_cases hfirst : hash = first
        · subst hfirst
          simp [hrest, removeHash]
        · simp [hrest, hfirst, removeHash, Finmap.lookup_erase_ne]

theorem foldl_removeHash_sortedHashes (hsorted : c.sortedHashes.Pairwise (· ≤ ·)) :
    (hashes.foldl removeHash c).sortedHashes = c.sortedHashes.diff hashes := by
  induction hashes generalizing c with
  | nil => rfl
  | cons first rest ih =>
      have herase : (c.removeHash first).sortedHashes = c.sortedHashes.erase first :=
        eraseIdx_lowerBound hsorted first
      rw [List.foldl_cons, ih _ (herase ▸ hsorted.sublist List.erase_sublist), herase,
        List.diff_cons]

@[simp] theorem foldl_addHash_numReplicas :
    (hashes.foldl (addHash node) c).numReplicas = c.numReplicas := by
  induction hashes generalizing c with
  | nil => rfl
  | cons first rest ih => exact ih _

@[simp] theorem foldl_addHash_hashFunction :
    (hashes.foldl (addHash node) c).hashFunction = c.hashFunction := by
  induction hashes generalizing c with
  | nil => rfl
  | cons first rest ih => exact ih _

@[simp] theorem foldl_removeHash_numReplicas :
    (hashes.foldl removeHash c).numReplicas = c.numReplicas := by
  induction hashes generalizing c with
  | nil => rfl
  | cons first rest ih => exact ih _

@[simp] theorem foldl_removeHash_hashFunction :
    (hashes.foldl removeHash c).hashFunction = c.hashFunction := by
  induction hashes generalizing c with
  | nil => rfl
  | cons first rest ih => exact ih _

theorem foldl_orderedInsert_perm (xs : List H) :
    (hashes.foldl (fun xs hash => xs.orderedInsert (· ≤ ·) hash) xs).Perm (hashes ++ xs) := by
  induction hashes generalizing xs with
  | nil => exact .refl _
  | cons first rest ih =>
      refine (ih _).trans (((List.perm_orderedInsert _ first xs).append_left rest).trans ?_)
      exact List.perm_middle

theorem foldl_orderedInsert_pairwise {xs : List H} (hsorted : xs.Pairwise (· ≤ ·)) :
    (hashes.foldl (fun xs hash => xs.orderedInsert (· ≤ ·) hash) xs).Pairwise (· ≤ ·) := by
  induction hashes generalizing xs with
  | nil => exact hsorted
  | cons first rest ih => exact ih (hsorted.orderedInsert first xs)

end Loops

/-! ## What the operations do -/

section Operations

variable (c : ConsistentHash H) (node other : List Char)

@[simp] theorem addNode_numReplicas : (c.addNode node).numReplicas = c.numReplicas :=
  foldl_addHash_numReplicas _ _ _

@[simp] theorem addNode_hashFunction : (c.addNode node).hashFunction = c.hashFunction :=
  foldl_addHash_hashFunction _ _ _

@[simp] theorem removeNode_numReplicas : (c.removeNode node).numReplicas = c.numReplicas :=
  foldl_removeHash_numReplicas _ _

@[simp] theorem removeNode_hashFunction : (c.removeNode node).hashFunction = c.hashFunction :=
  foldl_removeHash_hashFunction _ _

@[simp] theorem addNode_hashes : (c.addNode node).hashes other = c.hashes other := by
  simp only [hashes, addNode_numReplicas, addNode_hashFunction]

@[simp] theorem removeNode_hashes : (c.removeNode node).hashes other = c.hashes other := by
  simp only [hashes, removeNode_numReplicas, removeNode_hashFunction]

theorem addNode_lookup (hash : H) : (c.addNode node).circle.lookup hash =
    if hash ∈ c.hashes node then some node else c.circle.lookup hash :=
  foldl_addHash_circle _ _ _ _

theorem removeNode_lookup (hash : H) : (c.removeNode node).circle.lookup hash =
    if hash ∈ c.hashes node then none else c.circle.lookup hash :=
  foldl_removeHash_circle _ _ _

theorem addNode_sortedHashes_perm :
    (c.addNode node).sortedHashes.Perm (c.hashes node ++ c.sortedHashes) := by
  rw [addNode, foldl_addHash_sortedHashes]
  exact foldl_orderedInsert_perm _ _

theorem addNode_sorted (hsorted : c.sortedHashes.Pairwise (· ≤ ·)) :
    (c.addNode node).sortedHashes.Pairwise (· ≤ ·) := by
  rw [addNode, foldl_addHash_sortedHashes]
  exact foldl_orderedInsert_pairwise _ hsorted

theorem removeNode_sortedHashes (hsorted : c.sortedHashes.Pairwise (· ≤ ·)) :
    (c.removeNode node).sortedHashes = c.sortedHashes.diff (c.hashes node) :=
  foldl_removeHash_sortedHashes _ _ hsorted

theorem removeNode_sorted (hsorted : c.sortedHashes.Pairwise (· ≤ ·)) :
    (c.removeNode node).sortedHashes.Pairwise (· ≤ ·) := by
  rw [removeNode_sortedHashes c node hsorted]
  exact hsorted.sublist (List.diff_sublist _ _)

end Operations

end ConsistentHash

end MuduoLite
