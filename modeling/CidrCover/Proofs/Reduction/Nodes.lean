import CidrCover.Proofs.Reduction.Cost
import CidrCover.Proofs.Trie.Links

/-!
# The nodes of a reduction

The trie of a reduction has a node for the root and for every prefix that contains a leaf, and for
nothing else: what an insertion or a fold leaves without a leaf at or below it is given up at once.
So the nodes can be told from the leaves, however the leaves came about.

* **No node without a leaf** (`Reduction.nodes_exact`): after every run, the nodes that the links
  reach stand one by one for the prefixes above the leaves. A leaf adds at most 32 of them to the
  root.
-/

namespace CidrCover

/-! ### How many nodes there are -/

/-- Above a prefix there are no more prefixes than bits, beside the root. -/
theorem Prefix.card_ancestors_erase_root_le (p : Prefix) : (p.ancestors.erase root).card ≤ 32 := by
  have hroot : root ∈ p.ancestors := mem_ancestors.mpr p.root_contains
  have hall : p.ancestors.card ≤ p.len + 1 := by
    calc p.ancestors.card ≤ (Finset.range (p.len + 1)).card := Finset.card_image_le
      _ = p.len + 1 := Finset.card_range _
  have hlen := p.len_le
  rw [Finset.card_erase_of_mem hroot]
  omega

/-- A set has 32 nodes for each member at most, and the root. -/
theorem Antichain.card_nodes_outline_le (S : Antichain) :
    S.outline.nodes.card ≤ 1 + 32 * S.members.card := by
  have hsub : S.outline.nodes ⊆
      insert Prefix.root (S.members.biUnion fun p => p.ancestors.erase Prefix.root) := by
    intro q hq
    rw [Finset.mem_insert]
    by_cases hroot : q = Prefix.root
    · exact Or.inl hroot
    · obtain ⟨p, hp, hqp⟩ := (mem_nodes_outline.mp hq).resolve_left hroot
      have hmem := Finset.mem_erase.mpr ⟨hroot, Prefix.mem_ancestors.mpr hqp⟩
      exact Or.inr (Finset.mem_biUnion.mpr ⟨p, hp, hmem⟩)
  have hunion := Finset.card_biUnion_le_card_mul S.members
    (fun p => p.ancestors.erase Prefix.root) 32 fun p _ => p.card_ancestors_erase_root_le
  have hcard := Finset.card_le_card hsub
  have hinsert := Finset.card_insert_le Prefix.root
    (S.members.biUnion fun p => p.ancestors.erase Prefix.root)
  omega

/-! ### Which nodes there are -/

/-- The nodes that the links reach stand one by one for the prefixes of the outline. -/
theorem Represents.bijOn_block {t : Trie} {slot : Prefix → NodeId} {s : Outline}
    (h : Represents t slot s) : Set.BijOn t.block {i | t.Reachable i} s.nodes := by
  refine ⟨fun i hi => ?_, fun i hi j hj he => ?_, fun p hp => ?_⟩
  · obtain ⟨p, hp, rfl⟩ := h.reachable_iff.mp hi
    rw [h.block_slot hp]
    exact hp
  · obtain ⟨p, hp, rfl⟩ := h.reachable_iff.mp hi
    obtain ⟨q, hq, rfl⟩ := h.reachable_iff.mp hj
    rw [h.block_slot hp, h.block_slot hq] at he
    rw [he]
  · exact ⟨slot p, h.reachable_slot hp, h.block_slot hp⟩

namespace Reduction

variable {r : Reduction} {s : SetReduction}

/-- The nodes are counted as the members need them. -/
theorem Simulates.nodeCount_eq (h : Simulates r s) :
    r.trie.nodeCount = s.blocks.outline.nodes.card := by
  obtain ⟨slot, h⟩ := h
  exact h.trie.nodeCount_eq

/-- The marked prefixes are the members. -/
theorem Simulates.marked_eq (h : Simulates r s) : r.trie.marked = s.blocks.toList := by
  obtain ⟨slot, h⟩ := h
  exact h.trie.marked_eq

/-- The prefixes of the nodes are those that the members need. -/
theorem Simulates.nodePrefixes_eq (h : Simulates r s) :
    r.trie.nodePrefixes = s.blocks.outline.nodes := by
  obtain ⟨slot, h⟩ := h
  exact h.trie.nodePrefixes_eq

/-- Each node stands for one of these prefixes, and each of them has its node. -/
theorem Simulates.bijOn_block (h : Simulates r s) :
    Set.BijOn r.trie.block {i | r.trie.Reachable i}
      {q | q = Prefix.root ∨ ∃ p ∈ r.blocks, q.contains p} := by
  have hnodes : {q | q = Prefix.root ∨ ∃ p ∈ r.blocks, q.contains p} =
      (s.blocks.outline.nodes : Set Prefix) := by
    ext q
    rw [h.blocks_eq, Finset.mem_coe, Antichain.mem_nodes_outline]
    simp only [Antichain.mem_toList, Set.mem_ofPred_eq]
  obtain ⟨slot, h⟩ := h
  rw [hnodes]
  exact h.trie.bijOn_block

/-- **No node without a leaf**: after every run the nodes are the root and the prefixes that contain
a leaf, so their number depends on the leaves alone. -/
theorem nodes_exact (cmds : List Command) :
    Set.BijOn (empty.run cmds).trie.block {i | (empty.run cmds).trie.Reachable i}
        {q | q = Prefix.root ∨ ∃ p ∈ (empty.run cmds).blocks, q.contains p} ∧
      (∀ cmds' : List Command,
        (∀ p, p ∈ (empty.run cmds').blocks ↔ p ∈ (empty.run cmds).blocks) →
          (empty.run cmds').trie.nodeCount = (empty.run cmds).trie.nodeCount) ∧
      (empty.run cmds).trie.nodeCount = (Prefix.treeOf (empty.run cmds).blocks).card ∧
      (empty.run cmds).trie.nodeCount ≤ 1 + 32 * (empty.run cmds).leafCount := by
  have h := simulates_empty.run cmds
  refine ⟨h.bijOn_block, fun cmds' hleaves => ?_, ?_, ?_⟩
  · have h' := simulates_empty.run cmds'
    have hblocks : (SetReduction.empty.run cmds').blocks = (SetReduction.empty.run cmds).blocks := by
      apply Antichain.ext
      ext p
      have hp := hleaves p
      rwa [h.blocks_eq, h'.blocks_eq, Antichain.mem_toList, Antichain.mem_toList] at hp
    rw [h.nodeCount_eq, h'.nodeCount_eq, hblocks]
  · rw [h.nodeCount_eq, h.blocks_eq, Antichain.treeOf_toList]
  · rw [h.nodeCount_eq, h.leafCount_eq]
    exact Antichain.card_nodes_outline_le _

/-- Two neighbours that have been folded leave the nodes that their parent alone would have. -/
theorem nodes_exact_of_neighbours :
    (∀ p, p ∈ (empty.run [.add (.host 10), .add (.host 11), .step 1]).blocks ↔
        p ∈ (empty.run [.add (Prefix.host 10).parent]).blocks) ∧
      (empty.run [.add (.host 10), .add (.host 11), .step 1]).trie.nodeCount =
        (empty.run [.add (Prefix.host 10).parent]).trie.nodeCount := by
  have hblocks : (empty.run [.add (.host 10), .add (.host 11), .step 1]).blocks =
      (empty.run [.add (Prefix.host 10).parent]).blocks := by
    decide +kernel
  have hleaves : ∀ p, p ∈ (empty.run [.add (.host 10), .add (.host 11), .step 1]).blocks ↔
      p ∈ (empty.run [.add (Prefix.host 10).parent]).blocks := by
    intro p
    rw [hblocks]
  exact ⟨hleaves, (nodes_exact [.add (Prefix.host 10).parent]).2.1 _ hleaves⟩

end Reduction

end CidrCover
