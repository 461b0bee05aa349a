import CidrCover.Proofs.Trie.Contents

/-!
# Where the links lead

`t.Reachable i` says that some chain of links leads from the root to the node `i`, however long. In a
trie that represents an outline these are the slots of its nodes and no others
(`Represents.reachable_iff`), so `Trie.reachable`, which follows the links for 33 levels, finds them
all (`Represents.mem_reachable_iff`). A node that can be reached is a child of one such node alone,
and that is the parent that it names (`Represents.mem_children_iff`).
-/

namespace CidrCover

namespace Trie

/-- Links lead from the root to the node. -/
inductive Reachable (t : Trie) : NodeId → Prop
  | root : t.Reachable rootId
  | child {i j : NodeId} (hi : t.Reachable i) (hj : j ∈ (t.node i).children) : t.Reachable j

end Trie

namespace Represents

variable {t : Trie} {slot : Prefix → NodeId} {s : Outline} {p q : Prefix} {i j : NodeId}

/-- Every slot that the root leads to belongs to a node of the outline. -/
theorem exists_of_reachable (h : Represents t slot s) (hi : t.Reachable i) :
    ∃ p ∈ s.nodes, slot p = i := by
  induction hi with
  | root => exact ⟨Prefix.root, s.root_mem, h.slot_root⟩
  | child _ hj ih =>
    obtain ⟨p, hp, rfl⟩ := ih
    obtain ⟨b, hb⟩ := Node.mem_children.mp hj
    obtain ⟨c, hc, -, rfl⟩ := (h.node hp).child.mp hb
    exact ⟨c, hc, rfl⟩

/-- The parent of a node has a link to it. -/
theorem slot_mem_children (h : Represents t slot s) (hp : p ∈ s.nodes) (hne : p ≠ Prefix.root) :
    slot p ∈ (t.node (slot p.parent)).children :=
  Node.mem_children.mpr ⟨_, (h.node (s.closed hp p.parent_contains)).child_eq_some hp
    (Prefix.isChild_parent hne)⟩

/-- The links lead down the path of a prefix, one bit after another. -/
theorem reachable_slot (h : Represents t slot s) (hp : p ∈ s.nodes) : t.Reachable (slot p) := by
  induction hlen : p.len generalizing p with
  | zero =>
    rw [Prefix.eq_root_of_len hlen, h.slot_root]
    exact .root
  | succ n ih =>
    have hne : p ≠ Prefix.root := by
      rintro rfl
      rw [Prefix.len_root] at hlen
      exact absurd hlen (Nat.zero_ne_add_one n)
    have hparent : t.Reachable (slot p.parent) := by
      apply ih (s.closed hp p.parent_contains)
      rw [Prefix.len_parent, hlen, Nat.add_sub_cancel]
    exact hparent.child (h.slot_mem_children hp hne)

/-- **Links lead to the nodes and nowhere else.** -/
theorem reachable_iff (h : Represents t slot s) :
    t.Reachable i ↔ ∃ p ∈ s.nodes, slot p = i := by
  refine ⟨h.exists_of_reachable, ?_⟩
  rintro ⟨p, hp, rfl⟩
  exact h.reachable_slot hp

/-- The list of reachable slots holds those the root leads to. -/
theorem mem_reachable_iff (h : Represents t slot s) : i ∈ t.reachable ↔ t.Reachable i := by
  rw [h.mem_reachable, h.reachable_iff]

/-- The links to a node come from its parent. -/
theorem slot_mem_children_iff (h : Represents t slot s) (hp : p ∈ s.nodes) (hq : q ∈ s.nodes) :
    slot p ∈ (t.node (slot q)).children ↔ p ≠ Prefix.root ∧ q = p.parent := by
  constructor
  · intro hmem
    obtain ⟨b, hb⟩ := Node.mem_children.mp hmem
    obtain ⟨c, hc, hqc, he⟩ := (h.node hq).child.mp hb
    obtain rfl := h.slot_inj hc hp he
    exact ⟨hqc.ne_root, hqc.parent_eq.symm⟩
  · rintro ⟨hne, rfl⟩
    exact h.slot_mem_children hp hne

/-- **A node is a child of its parent and of no other node.** -/
theorem mem_children_iff (h : Represents t slot s) (hi : t.Reachable i) (hj : t.Reachable j) :
    i ∈ (t.node j).children ↔ t.parent? i = some j := by
  obtain ⟨p, hp, rfl⟩ := h.reachable_iff.mp hi
  obtain ⟨q, hq, rfl⟩ := h.reachable_iff.mp hj
  have hparent : t.parent? (slot p) = p.parent?.map slot := (h.node hp).parent
  rw [h.slot_mem_children_iff hp hq, hparent]
  by_cases hne : p = Prefix.root
  · subst hne
    simp [Prefix.parent?_root]
  · rw [Prefix.parent?_eq_some hne, Option.map_some, Option.some.injEq, and_iff_right hne]
    refine ⟨fun he => congrArg slot he.symm, fun he => ?_⟩
    exact (h.slot_inj (s.closed hp p.parent_contains) hq he).symm

end Represents

end CidrCover
