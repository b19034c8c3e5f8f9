import MuduoLite.Library.Successor
import MuduoLite.Library.Transition
import MuduoLite.Pool.ConsistentHash

/-!
# The map and the vector of the hash ring agree

`addNode` makes the map overwrite where the vector repeats, and `removeNode` makes
the map forget where the vector erases one occurrence.  The two agree again after a
`removeNode` exactly when the vector holds each hash of the node at most as often as
the node has virtual nodes with it (`RemovesAll`).  That fails when the node was added
twice, and when a virtual node of another node has the same hash.  A hash that stays
in the vector alone makes `getNode` insert an empty name and return it.

`live` is a history variable, the nodes added and not removed since.  A name in the
map is always that of a live node (`Sound.owned`), since `removeNode` erases every
hash of the node.
-/

namespace MuduoLite

open SortedVector Transition

namespace RingConsistency

variable {H : Type*} [LinearOrder H]

structure System (H : Type*) where
  ring : ConsistentHash H
  live : Finset (List Char) := ∅

def System.addNode (p : System H) (node : List Char) : System H :=
  ⟨p.ring.addNode node, insert node p.live⟩

def System.removeNode (p : System H) (node : List Char) : System H :=
  ⟨p.ring.removeNode node, p.live.erase node⟩

inductive Label
  | addNode (node : List Char)
  | removeNode (node : List Char)
  | getNode (key : List Char)
  deriving DecidableEq, Repr

/-- A `getNode` that throws leaves the ring alone. -/
def Step (p : System H) (label : Label) (q : System H) : Prop :=
  match label with
  | .addNode node => q = p.addNode node
  | .removeNode node => q = p.removeNode node
  | .getNode key =>
      match p.ring.getNode key with
      | .ok (_, ring) => q = ⟨ring, p.live⟩
      | .error (.runtime_error _) => q = p
      | .error .endDereferenced => False

/-- The vector is sorted, its values are the keys of the map, and on a ring that is
not empty `getNode` returns a live node and changes nothing. -/
structure Consistent (p : System H) : Prop where
  sorted : p.ring.sortedHashes.Pairwise (· ≤ ·)
  mem_iff : ∀ hash, hash ∈ p.ring.sortedHashes ↔ hash ∈ p.ring.circle
  getNode_live : p.ring.circle ≠ ∅ →
    ∀ key, ∃ node ∈ p.live, p.ring.getNode key = .ok (node, p.ring)

/-- A node is removed only while the vector holds each of its hashes at most as often
as it has virtual nodes with that hash. -/
def RemovesAll (p : System H) : Label → Prop
  | .removeNode node => ∀ hash ∈ p.ring.hashes node,
      p.ring.sortedHashes.count hash ≤ (p.ring.hashes node).count hash
  | _ => True

/-! ## The invariant -/

structure Sound (p : System H) : Prop where
  sorted : p.ring.sortedHashes.Pairwise (· ≤ ·)
  mem_iff : ∀ hash, hash ∈ p.ring.sortedHashes ↔ hash ∈ p.ring.circle
  owned : ∀ hash node, p.ring.circle.lookup hash = some node →
    node ∈ p.live ∧ hash ∈ p.ring.hashes node

/-- The search ends at the next point, and returns its owner. -/
theorem Sound.exists_isNext {p : System H} (h : Sound p) (hsome : p.ring.circle ≠ ∅)
    (key : List Char) : ∃ hash node,
      IsNext {x | x ∈ p.ring.circle} (p.ring.hashFunction key) hash ∧
        p.ring.circle.lookup hash = some node ∧ p.ring.getNode key = .ok (node, p.ring) := by
  have hvector : p.ring.sortedHashes ≠ [] := by
    intro hempty
    refine hsome (Finmap.ext_lookup fun hash => ?_)
    rw [Finmap.lookup_empty, Finmap.lookup_eq_none, ← h.mem_iff, hempty]
    exact List.not_mem_nil
  obtain ⟨hash, hread, hnext⟩ :=
    SortedVector.exists_isNext h.sorted hvector (p.ring.hashFunction key)
  obtain ⟨node, hnode⟩ := Finmap.mem_iff.1 ((h.mem_iff hash).1 hnext.mem)
  refine ⟨hash, node, by simpa only [h.mem_iff] using hnext, hnode, ?_⟩
  simp only [ConsistentHash.getNode, if_neg hsome, hread, hnode]

theorem Sound.getNode_live {p : System H} (h : Sound p) (hsome : p.ring.circle ≠ ∅)
    (key : List Char) : ∃ node ∈ p.live, p.ring.getNode key = .ok (node, p.ring) := by
  obtain ⟨hash, node, _, hlookup, hget⟩ := h.exists_isNext hsome key
  exact ⟨node, (h.owned hash node hlookup).1, hget⟩

theorem Sound.consistent {p : System H} (h : Sound p) : Consistent p :=
  ⟨h.sorted, h.mem_iff, h.getNode_live⟩

theorem mem_circle_iff (c : ConsistentHash H) (hash : H) :
    hash ∈ c.circle ↔ c.circle.lookup hash ≠ none :=
  not_iff_not.1 (by rw [not_not, Finmap.lookup_eq_none])

theorem Sound.addNode {p : System H} (h : Sound p) (node : List Char) :
    Sound (p.addNode node) where
  sorted := p.ring.addNode_sorted node h.sorted
  mem_iff := by
    intro hash
    rw [System.addNode, (p.ring.addNode_sortedHashes_perm node).mem_iff, List.mem_append, h.mem_iff,
      mem_circle_iff, mem_circle_iff, p.ring.addNode_lookup]
    split_ifs with hnew <;> simp [hnew]
  owned := by
    intro hash other hlookup
    rw [System.addNode, p.ring.addNode_lookup] at hlookup
    split_ifs at hlookup with hnew
    · obtain rfl := Option.some.inj hlookup
      exact ⟨Finset.mem_insert_self _ _, by simpa [System.addNode] using hnew⟩
    · obtain ⟨hlive, hhash⟩ := h.owned hash other hlookup
      exact ⟨Finset.mem_insert_of_mem hlive, by simpa [System.addNode] using hhash⟩

/-- After a removal the vector and the map agree on a hash, unless the vector held the
hash more often than the node. -/
theorem Sound.mem_removeNode_iff {p : System H} (h : Sound p) (node : List Char) (hash : H) :
    (hash ∈ (p.ring.removeNode node).sortedHashes ↔ hash ∈ (p.ring.removeNode node).circle) ↔
      (hash ∈ p.ring.hashes node →
        p.ring.sortedHashes.count hash ≤ (p.ring.hashes node).count hash) := by
  have hvector : hash ∈ (p.ring.removeNode node).sortedHashes ↔
      (p.ring.hashes node).count hash < p.ring.sortedHashes.count hash := by
    rw [p.ring.removeNode_sortedHashes node h.sorted, ← List.count_pos_iff, List.count_diff]
    exact Nat.sub_pos_iff_lt
  rw [hvector, mem_circle_iff, p.ring.removeNode_lookup]
  by_cases hnode : hash ∈ p.ring.hashes node
  · simp [hnode]
  · -- the hash is none of the node's, so both keep it
    have hzero : (p.ring.hashes node).count hash = 0 := List.count_eq_zero.2 hnode
    rw [hzero, List.count_pos_iff, h.mem_iff, mem_circle_iff]
    simp [hnode]

theorem Sound.removeNode {p : System H} (h : Sound p) {node : List Char}
    (hall : RemovesAll p (.removeNode node)) : Sound (p.removeNode node) where
  sorted := p.ring.removeNode_sorted node h.sorted
  mem_iff := fun hash => (h.mem_removeNode_iff node hash).2 (hall hash)
  owned := by
    intro hash other hlookup
    rw [System.removeNode, p.ring.removeNode_lookup] at hlookup
    split_ifs at hlookup with hgone
    obtain ⟨hlive, hhash⟩ := h.owned hash other hlookup
    refine ⟨Finset.mem_erase.2 ⟨?_, hlive⟩, by simpa [System.removeNode] using hhash⟩
    rintro rfl
    exact hgone hhash

/-- On a sound ring `getNode` is a step that changes nothing. -/
theorem Sound.getNode {p q : System H} (h : Sound p) {key : List Char}
    (hstep : Step p (.getNode key) q) : q = p := by
  by_cases hempty : p.ring.circle = ∅
  · simpa only [Step, ConsistentHash.getNode, if_pos hempty] using hstep
  · obtain ⟨node, _, hget⟩ := h.getNode_live hempty key
    simpa only [Step, hget] using hstep

theorem Sound.step {p q : System H} {label : Label} (h : Sound p)
    (hstep : restrict Step RemovesAll p label q) : Sound q := by
  obtain ⟨hstep, hall⟩ := hstep
  cases label with
  | addNode node =>
      obtain rfl := hstep
      exact h.addNode node
  | removeNode node =>
      obtain rfl := hstep
      exact h.removeNode hall
  | getNode key =>
      obtain rfl := h.getNode hstep
      exact h

/-- The ring as its constructor leaves it. -/
def start (numReplicas : ℕ) (hashFunction : List Char → H) : System H where
  ring := { numReplicas := numReplicas, hashFunction := hashFunction }

theorem start_sound (numReplicas : ℕ) (hashFunction : List Char → H) :
    Sound (start numReplicas hashFunction) where
  sorted := .nil
  mem_iff := fun hash => by simpa [start] using Finmap.notMem_empty
  owned := fun hash node hlookup => by simp [start] at hlookup

/-- While only nodes are removed whose hashes the vector does not hold more often than
they do, the ring stays consistent, and no other step leaves it consistent. -/
theorem ring_consistent (numReplicas : ℕ) (hashFunction : List Char → H) (labels : List Label)
    (p : System H)
    (hrun : Run (restrict Step RemovesAll) (start numReplicas hashFunction) labels p) :
    Consistent p ∧ ∀ label q, Step p label q → (Consistent q ↔ RemovesAll p label) := by
  have h : Sound p := hrun.invariant (start_sound _ _) fun _ _ _ => Sound.step
  refine ⟨h.consistent, fun label q hstep => ⟨fun hconsistent => ?_, fun hall => ?_⟩⟩
  · cases label with
    | addNode node => trivial
    | removeNode node =>
        obtain rfl := hstep
        exact fun hash => (h.mem_removeNode_iff node hash).1 (hconsistent.mem_iff hash)
    | getNode key => trivial
  · exact (h.step ⟨hstep, hall⟩).consistent

/-- The hash of a name is its length. -/
def byLength (name : List Char) : Fin (2 ^ 64) := Fin.ofNat _ name.length

/-- Two nodes with one virtual node each; one is removed. -/
theorem ring_consistent_removed :
    Consistent (((start 1 byLength).addNode ['a'] |>.addNode ['b', 'b']).removeNode ['a']) := by
  have hadd (p : System (Fin (2 ^ 64))) (node : List Char) :
      restrict Step RemovesAll p (.addNode node) (p.addNode node) := ⟨rfl, trivial⟩
  let added := (start 1 byLength).addNode ['a'] |>.addNode ['b', 'b']
  have hhashes : added.ring.hashes ['a'] = [4] := by decide
  have hvector : added.ring.sortedHashes = [4, 5] := by decide
  have hremove : restrict Step RemovesAll added (.removeNode ['a']) (added.removeNode ['a']) := by
    refine ⟨rfl, fun hash hmem => ?_⟩
    rw [hhashes, List.mem_singleton] at hmem
    rw [hhashes, hvector, hmem]
    decide
  exact (ring_consistent 1 byLength _ _
    (((Run.single (hadd _ ['a'])).snoc (hadd _ ['b', 'b'])).snoc hremove)).1

/-- A node is added twice and removed: its hash stays in the vector, and `getNode`
returns an empty name for it. -/
theorem removed_node_stays :
    ¬ ∀ (numReplicas : ℕ) (hashFunction : List Char → Fin (2 ^ 64)) (labels : List Label)
      (p : System (Fin (2 ^ 64))), Run Step (start numReplicas hashFunction) labels p →
        Consistent p := by
  intro hclaim
  have hadd (p : System (Fin (2 ^ 64))) (node : List Char) :
      Step p (.addNode node) (p.addNode node) := rfl
  let added := ((start 1 byLength).addNode ['a']).addNode ['a'] |>.addNode ['b', 'b']
  have hremove : Step added (.removeNode ['a']) (added.removeNode ['a']) := rfl
  have hconsistent := hclaim 1 byLength _ _
    ((((Run.single (hadd _ ['a'])).snoc (hadd _ ['a'])).snoc (hadd _ ['b', 'b'])).snoc hremove)
  obtain ⟨node, hlive, hget⟩ := hconsistent.getNode_live (by decide) ['k']
  have hempty : ((added.removeNode ['a']).ring.getNode ['k']).map Prod.fst = .ok [] := by decide
  rw [hget] at hempty
  obtain rfl : node = [] := Except.ok.inj hempty
  revert hlive
  decide

end RingConsistency

end MuduoLite
