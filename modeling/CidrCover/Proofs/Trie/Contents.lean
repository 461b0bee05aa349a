import CidrCover.Proofs.Trie.Insertion

/-!
# What can be seen of a trie

A trie that represents an outline shows that outline and nothing else: the links from the root reach
the slot of every node once (`mem_reachable`, `nodup_reachable`), so the prefixes of the nodes that
are reached are the nodes of the outline (`nodePrefixes_eq`), the marked ones are listed in
ascending order (`marked_eq`), and the way down the bits of a prefix ends at its node or, if it has
none, nowhere (`find?_eq_some`, `find?_eq_none`).
-/

namespace CidrCover

namespace Trie

/-- The prefixes of the nodes that the links reach from the root. -/
def nodePrefixes (t : Trie) : Finset Prefix :=
  (t.reachable.map t.block).toFinset

/-- The prefix of a node, if the links reach it from the root: a slot that was given up keeps a
prefix, but names no node. -/
def prefixOf? (t : Trie) (i : NodeId) : Option Prefix :=
  if i ∈ t.reachable then some (t.block i) else none

end Trie

namespace Represents

variable {t : Trie} {slot : Prefix → NodeId} {s : Outline} {p : Prefix} {n : Nat} {i : NodeId}

/-! ### All nodes -/

/-- No prefix is more than 32 levels below the root, so all nodes are reached. -/
theorem mem_reachable (h : Represents t slot s) :
    i ∈ t.reachable ↔ ∃ q ∈ s.nodes, slot q = i := by
  unfold Trie.reachable
  rw [← h.slot_root, h.mem_subtree 33 s.root_mem]
  refine exists_congr fun q => and_congr_right fun _ => ?_
  have hlen : q.len < Prefix.root.len + 33 := by
    have := q.len_le
    rw [Prefix.len_root]
    omega
  simp only [q.root_contains, hlen, true_and]

/-- No node is listed twice. -/
theorem nodup_reachable (h : Represents t slot s) : t.reachable.Nodup := by
  unfold Trie.reachable
  rw [← h.slot_root]
  exact h.nodup_subtree 33 s.root_mem

/-- The prefixes of the nodes are those of the outline. -/
theorem nodePrefixes_eq (h : Represents t slot s) : t.nodePrefixes = s.nodes := by
  ext q
  unfold Trie.nodePrefixes
  rw [List.mem_toFinset, List.mem_map]
  constructor
  · rintro ⟨i, hi, rfl⟩
    obtain ⟨q, hq, rfl⟩ := h.mem_reachable.mp hi
    rwa [h.block_slot hq]
  · intro hq
    exact ⟨slot q, h.mem_reachable.mpr ⟨q, hq, rfl⟩, h.block_slot hq⟩

/-- The nodes are counted. -/
theorem nodeCount_eq (h : Represents t slot s) : t.nodeCount = s.nodes.card :=
  h.live_eq

/-- The marked prefixes are listed in ascending order. -/
theorem marked_eq (h : Represents t slot s) : t.marked = s.marks.sort (· ≤ ·) := by
  have hall : ∀ {i}, i ∈ t.reachable ↔ ∃ q ∈ s.nodes, True ∧ slot q = i := by
    simp only [true_and]
    exact h.mem_reachable
  rw [Trie.marked, h.markedAmong_eq h.nodup_reachable hall, Finset.filter_true_of_mem]
  intro q _
  trivial

/-! ### One node -/

/-- The prefix of a slot is the one that the slot was given. -/
theorem prefixOf?_slot (h : Represents t slot s) (hp : p ∈ s.nodes) :
    t.prefixOf? (slot p) = some p := by
  unfold Trie.prefixOf?
  rw [if_pos (h.mem_reachable.mpr ⟨p, hp, rfl⟩), h.block_slot hp]

/-- The way down from a leading part of a prefix, with `n` bits still to go. -/
theorem descend?_eq (h : Represents t slot s) (hn : n ≤ p.len)
    (hnode : p.take (p.len - n) ∈ s.nodes) :
    t.descend? p n (slot (p.take (p.len - n))) = if p ∈ s.nodes then some (slot p) else none := by
  induction n with
  | zero =>
    rw [Nat.sub_zero, Prefix.take_len] at hnode ⊢
    rw [if_pos hnode]
    rfl
  | succ n ih =>
    have hchild := Prefix.isChild_path (p := p) hn
    rw [Trie.descend?]
    by_cases hc : p.take (p.len - n) ∈ s.nodes
    · rw [(h.node hnode).child_eq_some hc hchild]
      exact ih (by omega) hc
    · rw [(h.node hnode).child_eq_none hc hchild,
        if_neg (s.notMem_of_contains hc (p.take_contains _))]
      rfl

/-- The slot of a prefix is found if it has a node. -/
theorem find?_eq (h : Represents t slot s) :
    t.find? p = if p ∈ s.nodes then some (slot p) else none := by
  have hstart := p.path_start
  rw [← h.descend?_eq (Nat.le_refl _) (hstart ▸ s.root_mem), hstart, h.slot_root, Trie.find?]

/-- A prefix with a node is found. -/
theorem find?_eq_some (h : Represents t slot s) (hp : p ∈ s.nodes) : t.find? p = some (slot p) := by
  rw [h.find?_eq, if_pos hp]

/-- A prefix without a node is not found. -/
theorem find?_eq_none (h : Represents t slot s) (hp : p ∉ s.nodes) : t.find? p = none := by
  rw [h.find?_eq, if_neg hp]

/-- A node has a child just if some node is strictly below it. -/
theorem isChildless_iff (h : Represents t slot s) (hp : p ∈ s.nodes) :
    t.isChildless (slot p) = true ↔ ∀ q ∈ s.nodes, ¬ p.Above q := by
  unfold Trie.isChildless
  rw [List.isEmpty_iff, List.eq_nil_iff_forall_not_mem]
  constructor
  · intro hnone q hq hpq
    have hchild := Prefix.isChild_take hpq.1 hpq.2
    have hc := s.closed hq (q.take_contains (p.len + 1))
    exact hnone _ (Node.mem_children.mpr ⟨_, (h.node hp).child_eq_some hc hchild⟩)
  · intro hnone i hi
    obtain ⟨b, hb⟩ := Node.mem_children.mp hi
    obtain ⟨c, hc, hpc, -⟩ := (h.node hp).child.mp hb
    exact hnone c hc ⟨hpc.contains, hpc.ne⟩

end Represents

end CidrCover
