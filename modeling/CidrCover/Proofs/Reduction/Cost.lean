import CidrCover.Proofs.Aggregation.Result
import CidrCover.Proofs.Reduction.Loop

/-!
# What reducing costs

A fold gives up the nodes of the members that it folds and no other node, and puts one member in
their place (`Antichain.card_nodes_outline_fold`). So the nodes beyond the members become one fewer
with every fold, whether it takes in a sibling or not, and the number of folds is the difference of
what there is before and after (`SetReduction.folds_add_reduce`). A fold also makes the members
shorter by at least one bit together, so there are no more folds than bits
(`SetReduction.folds_reduce_le`).

* **The cost of reducing** (`Reduction.reduce_costs`): from every state that a run can lead to, the
  loop of steps ends, after just so many folds.
-/

namespace CidrCover

/-! ### Nodes and bits -/

namespace Antichain

/-- Every member is a node. -/
theorem card_le_card_nodes_outline (S : Antichain) : S.members.card ≤ S.outline.nodes.card :=
  Finset.card_le_card S.outline.marks_subset

/-- No member is longer than 32 bits. -/
theorem totalLength_le (S : Antichain) : S.totalLength ≤ 32 * S.members.card := by
  calc S.totalLength ≤ ∑ _ ∈ S.members, 32 := Finset.sum_le_sum fun p _ => p.len_le
    _ = 32 * S.members.card := by rw [Finset.sum_const_nat fun _ _ => rfl, Nat.mul_comm]

end Antichain

/-! ### All folds -/

namespace SetReduction

variable {n k : Nat} {s : SetReduction}

/-- **The number of folds**, as a difference of nodes less a difference of members. -/
theorem folds_add_reduce (n : Nat) (s : SetReduction) :
    (s.reduce n).folds + (s.reduce n).blocks.outline.nodes.card + s.blocks.members.card =
      s.folds + s.blocks.outline.nodes.card + (s.reduce n).blocks.members.card := by
  induction s using reduce_induction n with
  | finished s h => rw [reduce_of_finished h]
  | fold s h ih =>
    have hf := Antichain.foldable_of_not_finished h
    have hnodes := Antichain.card_nodes_outline_fold hf
    have hmembers := Antichain.card_fold_add_card_folded hf
    rw [reduce_of_not_finished h]
    simp only [SetReduction.fold] at ih ⊢
    omega

/-- Every fold is paid for by the bits that the members lose. -/
theorem folds_reduce_le (n : Nat) (s : SetReduction) :
    (s.reduce n).folds + (s.reduce n).blocks.totalLength ≤ s.folds + s.blocks.totalLength := by
  induction s using reduce_induction n with
  | finished s h => rw [reduce_of_finished h]
  | fold s h ih =>
    have hlt := Antichain.totalLength_fold_lt (Antichain.foldable_of_not_finished h)
    rw [reduce_of_not_finished h]
    simp only [SetReduction.fold] at ih ⊢
    omega

end SetReduction

/-! ### The cost of reducing -/

/-- The root and all prefixes that contain one of the list, each of them once. -/
def Prefix.treeOf (ps : List Prefix) : Finset Prefix :=
  insert root (ps.toFinset.biUnion ancestors)

/-- The tree of the blocks is that of the nodes. -/
theorem Antichain.treeOf_toList (S : Antichain) : Prefix.treeOf S.toList = S.outline.nodes := by
  ext q
  rw [mem_nodes_outline]
  simp [Prefix.treeOf, Prefix.mem_ancestors]

/-- The bits of the blocks are those of the members. -/
theorem Antichain.sum_len_toList (S : Antichain) : (S.toList.map Prefix.len).sum = S.totalLength :=
  sum_sort S.members Prefix.len

namespace Reduction

variable {r : Reduction} {s : SetReduction}

/-- Reducing to `n` leaves carries the loop of steps to its end, and makes `k` folds: as many as the
nodes that the leaves need become fewer, less as many as the leaves do. -/
structure Costs (r : Reduction) (n k : Nat) : Prop where
  stops : r.StopsAfter n k
  result : (r.reduce n).1 = r.after n k
  counted : (r.reduce n).1.folds = r.folds + k
  balance : (k : ℤ) =
    ((Prefix.treeOf r.blocks).card - (Prefix.treeOf (r.reduce n).1.blocks).card) -
      (r.blocks.length - (r.reduce n).1.blocks.length)
  le_lengths : (k : ℤ) ≤
    (r.blocks.map Prefix.len).sum - ((r.reduce n).1.blocks.map Prefix.len).sum
  le_leaves : k ≤ 32 * r.blocks.length

/-- Reducing costs as many folds as the specification counts. -/
theorem Simulates.exists_costs (h : Simulates r s) (n : Nat) :
    ∃ k, r.Costs n k ∧ (s.reduce n).folds = s.folds + k := by
  obtain ⟨k, hk⟩ := SetReduction.exists_stopsAfter n s
  have hfolds : (s.reduce n).folds = s.folds + k := by
    rw [SetReduction.reduce_eq_after hk]
    exact SetReduction.folds_after hk (Nat.le_refl k)
  have hsum := SetReduction.folds_add_reduce n s
  have hle := SetReduction.folds_reduce_le n s
  have hmembers := (s.reduce n).blocks.card_le_card_nodes_outline
  have hlength := s.blocks.totalLength_le
  have hstops := h.stopsAfter hk
  have hnodes : r.trie.nodeCount = s.blocks.outline.nodes.card := by
    obtain ⟨slot, h⟩ := h
    exact h.trie.live_eq
  have hfuel : k ≤ r.trie.nodeCount := by omega
  refine ⟨k, ⟨hstops, reduceWith_eq hstops hfuel, ?_, ?_, ?_, ?_⟩, hfolds⟩
  · rw [(h.reduce n).folds_eq, h.folds_eq, hfolds]
  · rw [h.blocks_eq, (h.reduce n).blocks_eq, Antichain.treeOf_toList, Antichain.treeOf_toList,
      Antichain.length_toList, Antichain.length_toList]
    omega
  · rw [h.blocks_eq, (h.reduce n).blocks_eq, Antichain.sum_len_toList, Antichain.sum_len_toList]
    omega
  · rw [h.blocks_eq, Antichain.length_toList]
    omega

/-- **The cost of reducing**: from every state that a run can lead to, and of an aggregation. -/
theorem reduce_costs :
    (∀ (cmds : List Command) (n : Nat), ∃ k, (empty.run cmds).Costs n k) ∧
    ∀ (ps : List Prefix) (n : Nat), 1 ≤ n →
      ∃ a, (aggregatePrefixes ps n).outcome = .ok a ∧
        a.blocks = ((ofPrefixes ps).reduce n).1.blocks ∧
        (ofPrefixes ps).Costs n a.stats.folds := by
  refine ⟨fun cmds n => ?_, fun ps n hn => ?_⟩
  · obtain ⟨k, hk, -⟩ := (simulates_empty.run cmds).exists_costs n
    exact ⟨k, hk⟩
  · have hstart := simulates_ofPrefixes ps
    obtain ⟨k, hk, hfolds⟩ := hstart.exists_costs n
    rw [SetReduction.ofPrefixes_eq, Nat.zero_add, ← SetReduction.ofPrefixes_eq] at hfolds
    refine ⟨_, outcome_aggregatePrefixes ps hn, (hstart.reduce n).blocks_eq.symm, ?_⟩
    show (ofPrefixes ps).Costs n ((SetReduction.ofPrefixes ps).reduce n).folds
    rwa [hfolds]

/-- The greatest of three hosts goes into its parent, and the other two go into theirs: two folds,
which give up three nodes and one leaf. -/
theorem reduce_costs_of_hosts :
    1 ≤ 2 ∧ ∃ a, (aggregatePrefixes [.host 10, .host 11, .host 13] 2).outcome = .ok a ∧
      a.blocks = [(Prefix.host 10).parent, (Prefix.host 13).parent] ∧
      (ofPrefixes [.host 10, .host 11, .host 13]).Costs 2 2 := by
  have heval : (aggregatePrefixes [.host 10, .host 11, .host 13] 2).outcome.toOption.map
      (fun a => (a.blocks, a.stats.folds)) =
        some ([(Prefix.host 10).parent, (Prefix.host 13).parent], 2) := by
    decide +kernel
  obtain ⟨a, ha, -, hcosts⟩ :=
    reduce_costs.2 [.host 10, .host 11, .host 13] 2 (by decide)
  rw [ha] at heval
  obtain ⟨hblocks, hfolds⟩ := Prod.mk.inj (Option.some_inj.mp heval)
  rw [hfolds] at hcosts
  exact ⟨by decide, a, ha, hblocks, hcosts⟩

end Reduction

end CidrCover
