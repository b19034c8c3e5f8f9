import MuduoLite.Library.Decimal
import MuduoLite.Pool.RingConsistency

/-!
# The node that a key is assigned to

As long as no two virtual nodes in use have the same hash and no node is added while it
is live, the ring is a function of the set of live nodes: the points on the circle are
the hashes of their virtual nodes, each once, and each belongs to its node (`Placed`).
`getNode` returns the owner of the next point clockwise from the hash of the key.

Adding and removing a node therefore moves few keys.  The next point of a key on the
larger of two rings is its next point on the smaller one too, unless the smaller ring
lacks that point.
-/

namespace MuduoLite

open SortedVector Transition

namespace RingConsistency

open ConsistentHash

variable {H : Type*}

/-! ## Names of virtual nodes -/

theorem vnode_injective {node other : List Char} {i j : ℕ} (h : vnode node i = vnode other j) :
    node = other ∧ i = j := by
  have hcons : ('_' :: '#' :: Nat.toDigits 10 i) = ['_'] ++ '#' :: Nat.toDigits 10 i ∧
      ('_' :: '#' :: Nat.toDigits 10 j) = ['_'] ++ '#' :: Nat.toDigits 10 j := ⟨rfl, rfl⟩
  rw [vnode, vnode, hcons.1, hcons.2, ← List.append_assoc, ← List.append_assoc] at h
  obtain ⟨hnode, hdigits⟩ := Decimal.append_cons_inj (Decimal.notMem_toDigits (by decide) i)
    (Decimal.notMem_toDigits (by decide) j) h
  exact ⟨List.append_cancel_right hnode, Decimal.toDigits_injective hdigits⟩

/-- The names of the virtual nodes of `nodes`. -/
def vnodes (numReplicas : ℕ) (nodes : Set (List Char)) : Set (List Char) :=
  {name | ∃ node ∈ nodes, ∃ i < numReplicas, vnode node i = name}

theorem mem_hashes_iff (c : ConsistentHash H) (node : List Char) (hash : H) :
    hash ∈ c.hashes node ↔ ∃ i < c.numReplicas, c.hashFunction (vnode node i) = hash := by
  simp [ConsistentHash.hashes]

section Distinct

variable {c : ConsistentHash H} {nodes : Set (List Char)} {node other : List Char}

theorem hashes_nodup (hinj : Set.InjOn c.hashFunction (vnodes c.numReplicas nodes))
    (hnode : node ∈ nodes) : (c.hashes node).Nodup := by
  apply List.nodup_range.map_on
  intro i hi j hj heq
  have hname : vnode node i = vnode node j :=
    hinj ⟨node, hnode, i, List.mem_range.1 hi, rfl⟩ ⟨node, hnode, j, List.mem_range.1 hj, rfl⟩ heq
  exact (vnode_injective hname).2

/-- A hash belongs to one node only. -/
theorem eq_of_mem_hashes (hinj : Set.InjOn c.hashFunction (vnodes c.numReplicas nodes))
    (hnode : node ∈ nodes) (hother : other ∈ nodes) {hash : H} (hmem : hash ∈ c.hashes node)
    (hmem' : hash ∈ c.hashes other) : node = other := by
  obtain ⟨i, hi, hhash⟩ := (mem_hashes_iff c node hash).1 hmem
  obtain ⟨j, hj, hhash'⟩ := (mem_hashes_iff c other hash).1 hmem'
  have hname : vnode node i = vnode other j :=
    hinj ⟨node, hnode, i, hi, rfl⟩ ⟨other, hother, j, hj, rfl⟩ (hhash.trans hhash'.symm)
  exact (vnode_injective hname).1

end Distinct

/-! ## The ring is a function of the live nodes -/

variable [LinearOrder H]

/-- Every live node owns its hashes, and the vector holds each hash once. -/
structure Placed (p : System H) : Prop extends Sound p where
  nodup : p.ring.sortedHashes.Nodup
  lookup_of_live : ∀ node ∈ p.live, ∀ hash ∈ p.ring.hashes node,
    p.ring.circle.lookup hash = some node

/-- The nodes that a run adds or removes. -/
def used (labels : List Label) : Set (List Char) :=
  {node | .addNode node ∈ labels ∨ .removeNode node ∈ labels}

/-- Only nodes that are not live are added. -/
def AddsFresh (p : System H) : Label → Prop
  | .addNode node => node ∉ p.live
  | _ => True

theorem Placed.lookup_iff {p : System H} (h : Placed p) (hash : H) (node : List Char) :
    p.ring.circle.lookup hash = some node ↔ node ∈ p.live ∧ hash ∈ p.ring.hashes node :=
  ⟨h.owned hash node, fun howned => h.lookup_of_live node howned.1 hash howned.2⟩

section Steps

variable {p : System H} {nodes : Set (List Char)} {node : List Char}

theorem Placed.addNode (h : Placed p)
    (hinj : Set.InjOn p.ring.hashFunction (vnodes p.ring.numReplicas nodes))
    (hlive : ↑p.live ⊆ nodes) (hnode : node ∈ nodes) (hfresh : node ∉ p.live) :
    Placed (p.addNode node) where
  toSound := h.toSound.addNode node
  nodup := by
    rw [System.addNode, (p.ring.addNode_sortedHashes_perm node).nodup_iff, List.nodup_append']
    refine ⟨hashes_nodup hinj hnode, h.nodup, fun hash hnew hold => hfresh ?_⟩
    -- a point that is there already is one of a live node
    obtain ⟨other, hlookup⟩ := Finmap.mem_iff.1 ((h.mem_iff hash).1 hold)
    obtain ⟨hother, hhash⟩ := h.owned hash other hlookup
    rw [eq_of_mem_hashes hinj hnode (hlive hother) hnew hhash]
    exact hother
  lookup_of_live := by
    intro other hother hash hhash
    rw [System.addNode, addNode_hashes] at hhash
    rw [System.addNode, p.ring.addNode_lookup]
    split_ifs with hnew
    · have hmem : other ∈ nodes := by
        rcases Finset.mem_insert.1 hother with rfl | hother
        · exact hnode
        · exact hlive hother
      rw [eq_of_mem_hashes hinj hnode hmem hnew hhash]
    · rcases Finset.mem_insert.1 hother with rfl | hother
      · exact absurd hhash hnew
      · exact h.lookup_of_live other hother hash hhash

theorem Placed.removeNode (h : Placed p)
    (hinj : Set.InjOn p.ring.hashFunction (vnodes p.ring.numReplicas nodes))
    (hlive : ↑p.live ⊆ nodes) (hnode : node ∈ nodes) : Placed (p.removeNode node) where
  toSound := by
    refine h.toSound.removeNode fun hash hhash => ?_
    calc
      p.ring.sortedHashes.count hash ≤ 1 := List.nodup_iff_count_le_one.1 h.nodup hash
      _ ≤ (p.ring.hashes node).count hash := List.count_pos_iff.2 hhash
  nodup := by
    rw [System.removeNode, p.ring.removeNode_sortedHashes node h.sorted]
    exact h.nodup.sublist (List.diff_sublist _ _)
  lookup_of_live := by
    intro other hother hash hhash
    rw [System.removeNode, removeNode_hashes] at hhash
    obtain ⟨hne, hother⟩ := Finset.mem_erase.1 hother
    rw [System.removeNode, p.ring.removeNode_lookup]
    split_ifs with hgone
    · exact absurd (eq_of_mem_hashes hinj (hlive hother) hnode hhash hgone) hne
    · exact h.lookup_of_live other hother hash hhash

end Steps

/-- Two rings with the same parameters and the same live nodes are the same ring. -/
theorem Placed.ring_eq {p q : System H} (hp : Placed p) (hq : Placed q)
    (hreplicas : q.ring.numReplicas = p.ring.numReplicas)
    (hfunction : q.ring.hashFunction = p.ring.hashFunction) (hlive : q.live = p.live) :
    q.ring = p.ring := by
  have hhashes (node : List Char) : q.ring.hashes node = p.ring.hashes node := by
    rw [ConsistentHash.hashes, ConsistentHash.hashes, hreplicas, hfunction]
  have hcircle : q.ring.circle = p.ring.circle := by
    refine Finmap.ext_lookup fun hash => Option.ext fun node => ?_
    rw [hp.lookup_iff, hq.lookup_iff, hlive, hhashes]
  have hperm : q.ring.sortedHashes.Perm p.ring.sortedHashes := by
    rw [List.perm_ext_iff_of_nodup hq.nodup hp.nodup]
    intro hash
    rw [hp.mem_iff, hq.mem_iff, hcircle]
  have hsorted : q.ring.sortedHashes = p.ring.sortedHashes :=
    hperm.eq_of_pairwise (fun _ _ _ _ => le_antisymm) hq.sorted hp.sorted
  cases hring : p.ring
  cases hring' : q.ring
  simp_all only

/-! ## Runs -/

/-- What a run leads to in which only nodes of `nodes` are added or removed. -/
structure Reached (numReplicas : ℕ) (hashFunction : List Char → H) (nodes : Set (List Char))
    (p : System H) : Prop extends Placed p where
  live_subset : ↑p.live ⊆ nodes
  numReplicas_eq : p.ring.numReplicas = numReplicas
  hashFunction_eq : p.ring.hashFunction = hashFunction

section Reached

variable {numReplicas : ℕ} {hashFunction : List Char → H} {nodes : Set (List Char)}
  {p : System H} {node : List Char}

theorem start_reached :
    Reached numReplicas hashFunction nodes (start numReplicas hashFunction) where
  toSound := start_sound numReplicas hashFunction
  nodup := List.nodup_nil
  lookup_of_live := fun node hnode => absurd hnode (Finset.notMem_empty node)
  live_subset := fun node hnode => absurd hnode (Finset.notMem_empty node)
  numReplicas_eq := rfl
  hashFunction_eq := rfl

theorem Reached.addNode (h : Reached numReplicas hashFunction nodes p)
    (hinj : Set.InjOn hashFunction (vnodes numReplicas nodes)) (hnode : node ∈ nodes)
    (hfresh : node ∉ p.live) : Reached numReplicas hashFunction nodes (p.addNode node) where
  toPlaced := by
    rw [← h.hashFunction_eq, ← h.numReplicas_eq] at hinj
    exact h.toPlaced.addNode hinj h.live_subset hnode hfresh
  live_subset := by
    intro other hother
    rcases Finset.mem_insert.1 hother with rfl | hother
    · exact hnode
    · exact h.live_subset hother
  numReplicas_eq := (addNode_numReplicas p.ring node).trans h.numReplicas_eq
  hashFunction_eq := (addNode_hashFunction p.ring node).trans h.hashFunction_eq

theorem Reached.removeNode (h : Reached numReplicas hashFunction nodes p)
    (hinj : Set.InjOn hashFunction (vnodes numReplicas nodes)) (hnode : node ∈ nodes) :
    Reached numReplicas hashFunction nodes (p.removeNode node) where
  toPlaced := by
    rw [← h.hashFunction_eq, ← h.numReplicas_eq] at hinj
    exact h.toPlaced.removeNode hinj h.live_subset hnode
  live_subset := fun other hother => h.live_subset (Finset.mem_of_mem_erase hother)
  numReplicas_eq := (removeNode_numReplicas p.ring node).trans h.numReplicas_eq
  hashFunction_eq := (removeNode_hashFunction p.ring node).trans h.hashFunction_eq

theorem Reached.step {q : System H} {label : Label} (h : Reached numReplicas hashFunction nodes p)
    (hinj : Set.InjOn hashFunction (vnodes numReplicas nodes)) (hused : used [label] ⊆ nodes)
    (hstep : restrict Step AddsFresh p label q) : Reached numReplicas hashFunction nodes q := by
  obtain ⟨hstep, hfresh⟩ := hstep
  cases label with
  | addNode node =>
      obtain rfl := hstep
      exact h.addNode hinj (hused (.inl (List.mem_singleton.2 rfl))) hfresh
  | removeNode node =>
      obtain rfl := hstep
      exact h.removeNode hinj (hused (.inr (List.mem_singleton.2 rfl)))
  | getNode key =>
      obtain rfl := h.getNode hstep
      exact h

theorem used_append (labels others : List Label) :
    used (labels ++ others) = used labels ∪ used others := by
  ext node
  simp only [used, List.mem_append, Set.mem_ofPred_eq, Set.mem_union]
  tauto

theorem run_reached {labels : List Label}
    (hrun : Run (restrict Step AddsFresh) (start numReplicas hashFunction) labels p)
    (hinj : Set.InjOn hashFunction (vnodes numReplicas nodes)) (hused : used labels ⊆ nodes) :
    Reached numReplicas hashFunction nodes p := by
  induction hrun with
  | nil => exact start_reached
  | snoc _ hlast ih =>
      rw [used_append, Set.union_subset_iff] at hused
      exact (ih hused.1).step hinj hused.2 hlast

end Reached

/-! ## Lookups -/

/-- The points on the circle are the hashes of the virtual nodes of the live nodes. -/
theorem Reached.mem_circle_iff_vnodes {numReplicas : ℕ} {hashFunction : List Char → H}
    {nodes : Set (List Char)} {p : System H} (h : Reached numReplicas hashFunction nodes p)
    (hash : H) : hash ∈ p.ring.circle ↔ hash ∈ hashFunction '' vnodes numReplicas p.live := by
  rw [Finmap.mem_iff]
  constructor
  · rintro ⟨node, hlookup⟩
    obtain ⟨hlive, hhash⟩ := h.owned hash node hlookup
    obtain ⟨i, hi, hhash⟩ := (mem_hashes_iff p.ring node hash).1 hhash
    rw [h.numReplicas_eq] at hi
    exact ⟨vnode node i, ⟨node, hlive, i, hi, rfl⟩, by rw [← h.hashFunction_eq, hhash]⟩
  · rintro ⟨name, ⟨node, hlive, i, hi, rfl⟩, rfl⟩
    refine ⟨node, h.lookup_of_live node hlive _ ((mem_hashes_iff p.ring node _).2 ⟨i, ?_, ?_⟩)⟩
    · rwa [h.numReplicas_eq]
    · rw [h.hashFunction_eq]

/-- `getNode` returns the live node that owns the next point clockwise from the key, so
the assignment depends on the set of live nodes alone. -/
theorem getNode_isNext (numReplicas : ℕ) (hreplicas : 1 ≤ numReplicas)
    (hashFunction : List Char → H) :
    (∀ node other i j, vnode node i = vnode other j → node = other ∧ i = j) ∧
    ∀ (labels : List Label) (p : System H),
      Run (restrict Step AddsFresh) (start numReplicas hashFunction) labels p →
      Set.InjOn hashFunction (vnodes numReplicas (used labels)) →
        (p.live.Nonempty → ∀ key, ∃ node ∈ p.live, ∃ i < numReplicas,
          IsNext (hashFunction '' vnodes numReplicas p.live) (hashFunction key)
            (hashFunction (vnode node i)) ∧ p.ring.getNode key = .ok (node, p.ring)) ∧
        ∀ (labels' : List Label) (q : System H),
          Run (restrict Step AddsFresh) (start numReplicas hashFunction) labels' q →
          Set.InjOn hashFunction (vnodes numReplicas (used labels')) →
          q.live = p.live → ∀ key, q.ring.getNode key = p.ring.getNode key := by
  refine ⟨fun node other i j h => vnode_injective h, fun labels p hrun hinj => ?_⟩
  have h : Reached numReplicas hashFunction (used labels) p :=
    run_reached hrun hinj subset_rfl
  refine ⟨fun hnonempty key => ?_, fun labels' q hrun' hinj' hlive key => ?_⟩
  · obtain ⟨first, hfirst⟩ := hnonempty
    have hpoint : hashFunction (vnode first 0) ∈ p.ring.circle :=
      (h.mem_circle_iff_vnodes _).2 ⟨_, ⟨first, hfirst, 0, hreplicas, rfl⟩, rfl⟩
    have hsome : p.ring.circle ≠ ∅ := fun hempty => Finmap.notMem_empty (hempty ▸ hpoint)
    obtain ⟨hash, node, hnext, hlookup, hget⟩ := h.exists_isNext hsome key
    obtain ⟨hlive, hhash⟩ := h.owned hash node hlookup
    obtain ⟨i, hi, rfl⟩ := (mem_hashes_iff p.ring node hash).1 hhash
    refine ⟨node, hlive, i, h.numReplicas_eq ▸ hi, ?_, hget⟩
    simpa only [h.mem_circle_iff_vnodes, Set.ofPred_mem_eq, h.hashFunction_eq] using hnext
  · have h' : Reached numReplicas hashFunction (used labels') q :=
      run_reached hrun' hinj' subset_rfl
    have hring : q.ring = p.ring := by
      apply h.ring_eq h'.toPlaced _ _ hlive
      · rw [h.numReplicas_eq, h'.numReplicas_eq]
      · rw [h.hashFunction_eq, h'.hashFunction_eq]
    rw [hring]

/-- Two nodes whose names differ in length do not collide. -/
theorem byLength_injOn {nodes : Set (List Char)} (hnodes : nodes ⊆ {['a'], ['b', 'b']}) :
    Set.InjOn byLength (vnodes 1 nodes) := by
  rintro name ⟨node, hnode, i, hi, rfl⟩ other ⟨node', hnode', j, hj, rfl⟩ heq
  obtain rfl : i = 0 := by omega
  obtain rfl : j = 0 := by omega
  rcases hnodes hnode with rfl | rfl <;> rcases hnodes hnode' with rfl | rfl
  · rfl
  · exact absurd heq (by decide)
  · exact absurd heq (by decide)
  · rfl

/-- A node is added and removed again: every key is assigned to the other node, as if the
node had never been there. -/
theorem getNode_isNext_removed :
    (∀ key, ∃ node ∈ ({['b', 'b']} : Finset (List Char)), ∃ i < 1,
      IsNext (byLength '' vnodes 1 ↑({['b', 'b']} : Finset (List Char))) (byLength key)
          (byLength (vnode node i)) ∧
        (((start 1 byLength).addNode ['a'] |>.addNode ['b', 'b']).removeNode ['a']).ring.getNode
          key = .ok (node,
            (((start 1 byLength).addNode ['a'] |>.addNode ['b', 'b']).removeNode ['a']).ring)) ∧
    ∀ key, ((start 1 byLength).addNode ['b', 'b']).ring.getNode key =
      (((start 1 byLength).addNode ['a'] |>.addNode ['b', 'b']).removeNode ['a']).ring.getNode
        key := by
  have hadd (p : System (Fin (2 ^ 64))) (node : List Char) (hfresh : node ∉ p.live) :
      restrict Step AddsFresh p (.addNode node) (p.addNode node) := ⟨rfl, hfresh⟩
  have hremove (p : System (Fin (2 ^ 64))) (node : List Char) :
      restrict Step AddsFresh p (.removeNode node) (p.removeNode node) := ⟨rfl, trivial⟩
  have hused : used [.addNode ['a'], .addNode ['b', 'b'], .removeNode ['a']] ⊆
      {['a'], ['b', 'b']} := by
    intro node hnode
    simpa [used, or_comm, or_assoc] using hnode
  have h := (getNode_isNext 1 le_rfl byLength).2 _ _
    (((Run.single (hadd _ ['a'] (by decide))).snoc (hadd _ ['b', 'b'] (by decide))).snoc
      (hremove _ ['a'])) (byLength_injOn hused)
  have hlive : (((start 1 byLength).addNode ['a'] |>.addNode ['b', 'b']).removeNode ['a']).live =
      {['b', 'b']} := by decide
  have hused' : used [.addNode ['b', 'b']] ⊆ {['a'], ['b', 'b']} := by
    intro node hnode
    right
    simpa [used] using hnode
  refine ⟨hlive ▸ h.1 (hlive ▸ Finset.singleton_nonempty _), ?_⟩
  exact h.2 _ _ (Run.single (hadd _ ['b', 'b'] (by decide))) (byLength_injOn hused') (by decide)

/-! ## Adding and removing a node -/

/-- What `getNode` returns, without the ring. -/
def assigned (p : System H) (key : List Char) : Except GetNodeError (List Char) :=
  (p.ring.getNode key).map Prod.fst

/-- A smaller ring assigns a key to the owner of the next point on the larger one, if it
has that point. -/
theorem Sound.assigned_of_isNext {p q : System H} (h : Sound p)
    (hfunction : q.ring.hashFunction = p.ring.hashFunction)
    (hsubset : ∀ hash ∈ p.ring.circle, hash ∈ q.ring.circle) {key node : List Char} {hash : H}
    (hnext : IsNext {x | x ∈ q.ring.circle} (q.ring.hashFunction key) hash)
    (hlookup : p.ring.circle.lookup hash = some node) : assigned p key = .ok node := by
  have hmem : hash ∈ p.ring.circle := Finmap.mem_iff.2 ⟨node, hlookup⟩
  have hsome : p.ring.circle ≠ ∅ := fun hempty => Finmap.notMem_empty (hempty ▸ hmem)
  obtain ⟨hash', node', hnext', hlookup', hget⟩ := h.exists_isNext hsome key
  rw [hfunction] at hnext
  obtain rfl : hash = hash' := (hnext.of_subset hsubset hmem).unique hnext'
  obtain rfl : node = node' := Option.some.inj (hlookup.symm.trans hlookup')
  rw [assigned, hget]
  rfl

theorem assigned_of_empty {p : System H} (h : p.ring.circle = ∅) (key : List Char) :
    assigned p key = .error (.runtime_error "No nodes in consistent hash") := by
  rw [assigned, ConsistentHash.getNode, if_pos h]
  rfl

theorem circle_eq_empty {p q : System H}
    (hsubset : ∀ hash ∈ p.ring.circle, hash ∈ q.ring.circle) (h : q.ring.circle = ∅) :
    p.ring.circle = ∅ := by
  refine Finmap.ext_lookup fun hash => ?_
  rw [Finmap.lookup_empty, Finmap.lookup_eq_none]
  exact fun hmem => Finmap.notMem_empty (h ▸ hsubset hash hmem)

theorem Sound.assigned_addNode {p : System H} (h : Sound p) (node key : List Char) :
    assigned (p.addNode node) key = assigned p key ∨
      assigned (p.addNode node) key = .ok node := by
  have hsubset : ∀ hash ∈ p.ring.circle, hash ∈ (p.addNode node).ring.circle := by
    intro hash hmem
    rw [mem_circle_iff] at hmem ⊢
    rw [System.addNode, addNode_lookup]
    split_ifs
    · exact Option.some_ne_none node
    · exact hmem
  by_cases hempty : (p.addNode node).ring.circle = ∅
  · left
    rw [assigned_of_empty hempty, assigned_of_empty (circle_eq_empty hsubset hempty)]
  · obtain ⟨hash, other, hnext, hlookup, hget⟩ := (h.addNode node).exists_isNext hempty key
    have hassigned : assigned (p.addNode node) key = .ok other := by
      rw [assigned, hget]
      rfl
    rw [System.addNode, addNode_lookup] at hlookup
    split_ifs at hlookup with hnew
    · right
      rw [hassigned, Option.some.inj hlookup]
    · left
      rw [hassigned, h.assigned_of_isNext (addNode_hashFunction _ _) hsubset hnext hlookup]

theorem Reached.assigned_removeNode {numReplicas : ℕ} {hashFunction : List Char → H}
    {nodes : Set (List Char)} {p : System H} (h : Reached numReplicas hashFunction nodes p)
    (hinj : Set.InjOn hashFunction (vnodes numReplicas nodes)) {node : List Char}
    (hnode : node ∈ nodes) {key : List Char} (hkey : assigned p key ≠ .ok node) :
    assigned (p.removeNode node) key = assigned p key := by
  have hsubset : ∀ hash ∈ (p.removeNode node).ring.circle, hash ∈ p.ring.circle := by
    intro hash hmem
    rw [mem_circle_iff, System.removeNode, removeNode_lookup] at hmem
    rw [mem_circle_iff]
    split_ifs at hmem
    · exact absurd rfl hmem
    · exact hmem
  by_cases hempty : p.ring.circle = ∅
  · rw [assigned_of_empty hempty, assigned_of_empty (circle_eq_empty hsubset hempty)]
  · obtain ⟨hash, other, hnext, hlookup, hget⟩ := h.exists_isNext hempty key
    have hassigned : assigned p key = .ok other := by
      rw [assigned, hget]
      rfl
    -- the next point belongs to another node, so it is none of the points removed
    obtain ⟨hlive, hhash⟩ := h.owned hash other hlookup
    have hkept : hash ∉ p.ring.hashes node := by
      intro hgone
      rw [← h.hashFunction_eq, ← h.numReplicas_eq] at hinj
      rw [eq_of_mem_hashes hinj hnode (h.live_subset hlive) hgone hhash] at hkey
      exact hkey hassigned
    rw [hassigned]
    apply (h.removeNode hinj hnode).assigned_of_isNext
      (removeNode_hashFunction p.ring node).symm hsubset hnext
    rw [System.removeNode, removeNode_lookup, if_neg hkept, hlookup]

/-- Adding a node takes keys from other nodes to itself only, removing it moves only its
own keys, and removing it right after it was added restores the ring. -/
theorem minimal_disruption (numReplicas : ℕ) (hashFunction : List Char → H) (labels : List Label)
    (p : System H) (node : List Char)
    (hrun : Run (restrict Step AddsFresh) (start numReplicas hashFunction) labels p)
    (hinj : Set.InjOn hashFunction (vnodes numReplicas (insert node (used labels)))) :
    (node ∉ p.live →
      (∀ key, assigned (p.addNode node) key = assigned p key ∨
        assigned (p.addNode node) key = .ok node) ∧
      ((p.addNode node).removeNode node).ring.circle = p.ring.circle ∧
      ((p.addNode node).removeNode node).ring.sortedHashes = p.ring.sortedHashes) ∧
    ∀ key, assigned p key ≠ .ok node → assigned (p.removeNode node) key = assigned p key := by
  have hnode : node ∈ insert node (used labels) := Set.mem_insert node _
  have h : Reached numReplicas hashFunction (insert node (used labels)) p :=
    run_reached hrun hinj (Set.subset_insert node _)
  refine ⟨fun hfresh => ⟨h.assigned_addNode node, ?_⟩, fun key => h.assigned_removeNode hinj hnode⟩
  have hback := (h.addNode hinj hnode hfresh).removeNode hinj hnode
  have hring : ((p.addNode node).removeNode node).ring = p.ring := by
    apply h.ring_eq hback.toPlaced
    · rw [hback.numReplicas_eq, h.numReplicas_eq]
    · rw [hback.hashFunction_eq, h.hashFunction_eq]
    · exact Finset.erase_insert hfresh
  exact ⟨congrArg ConsistentHash.circle hring, congrArg ConsistentHash.sortedHashes hring⟩

/-- A second node is added to a ring of one, and taken away again. -/
theorem minimal_disruption_second :
    (∀ key, assigned (((start 1 byLength).addNode ['a']).addNode ['b', 'b']) key =
        assigned ((start 1 byLength).addNode ['a']) key ∨
      assigned (((start 1 byLength).addNode ['a']).addNode ['b', 'b']) key = .ok ['b', 'b']) ∧
    (((start 1 byLength).addNode ['a'] |>.addNode ['b', 'b']).removeNode ['b', 'b']).ring.circle =
      ((start 1 byLength).addNode ['a']).ring.circle := by
  have hstep : restrict Step AddsFresh (start 1 byLength) (.addNode ['a'])
      ((start 1 byLength).addNode ['a']) := ⟨rfl, Finset.notMem_empty ['a']⟩
  have hused : insert ['b', 'b'] (used [.addNode ['a']]) ⊆ {['a'], ['b', 'b']} := by
    intro node hnode
    simpa [used, or_comm] using hnode
  obtain ⟨hkeys, hcircle, -⟩ := (minimal_disruption 1 byLength _ _ ['b', 'b'] (Run.single hstep)
    (byLength_injOn hused)).1 (by decide)
  exact ⟨hkeys, hcircle⟩

end RingConsistency

end MuduoLite
