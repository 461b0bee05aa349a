import CidrCover.Proofs.Reduction.Nodes

/-!
# Order, repetition and redundancy leave no trace

A list of prefixes acts through its maximal elements alone: they are the members that it leaves in a
set, and they fix the nodes and the marks of the trie that is built from it. In what order a list
comes, how often it names a prefix, and what it names besides that another entry covers makes no
difference to its maximal elements (`maximal_perm`, `maximal_insert_covered`).

* **Independence** (`aggregatePrefixes_congr`): two lists with the same maximal elements give tries
  with the same nodes and marks, and aggregations that differ in the number of inputs alone.
-/

namespace CidrCover

/-! ### Lists with the same maximal elements -/

namespace Antichain

/-- The order of a list makes no difference to its maximal elements. -/
theorem maximal_perm {ps qs : List Prefix} (h : ps.Perm qs) : maximal ps = maximal qs := by
  apply maximal_congr
  intro r
  simp only [h.mem_iff]

/-- An entry that another one covers, itself perhaps, adds nothing at any place of a list. -/
theorem maximal_insert_covered {l r : List Prefix} {p q : Prefix} (hq : q ∈ l ++ r)
    (hqp : q.contains p) : maximal (l ++ p :: r) = maximal (l ++ r) := by
  rw [maximal_perm List.perm_middle]
  apply maximal_congr
  intro c
  rw [List.exists_mem_cons_iff, or_iff_right_of_imp]
  intro hpc
  exact ⟨q, hq, Prefix.contains_trans hqp hpc⟩

end Antichain

/-- Lists with the same maximal elements start from the same set. -/
theorem SetReduction.ofPrefixes_congr {ps qs : List Prefix}
    (h : Antichain.maximal ps = Antichain.maximal qs) : ofPrefixes ps = ofPrefixes qs := by
  have hlist : Antichain.ofList ps = Antichain.ofList qs := by
    apply Antichain.ext
    rw [Antichain.members_ofList, Antichain.members_ofList, h]
  rw [ofPrefixes_eq, ofPrefixes_eq, hlist]

/-! ### Independence -/

/-- **Independence**: of the order of a list, of its repetitions and of its redundant entries. -/
theorem aggregatePrefixes_congr :
    (∀ ps qs : List Prefix, Antichain.maximal ps = Antichain.maximal qs →
      (∀ n, 1 ≤ n → ∃ a b, (aggregatePrefixes ps n).outcome = .ok a ∧
        (aggregatePrefixes qs n).outcome = .ok b ∧
        a.blocks = b.blocks ∧
        { a.stats with inputCount := b.stats.inputCount } = b.stats) ∧
      (Reduction.ofPrefixes ps).trie.nodeCount = (Reduction.ofPrefixes qs).trie.nodeCount ∧
      (Reduction.ofPrefixes ps).trie.marked = (Reduction.ofPrefixes qs).trie.marked ∧
      (Reduction.ofPrefixes ps).trie.nodePrefixes =
        (Reduction.ofPrefixes qs).trie.nodePrefixes) ∧
    (∀ ps qs : List Prefix, ps.Perm qs → Antichain.maximal ps = Antichain.maximal qs) ∧
    ∀ (l r : List Prefix) (p q : Prefix), q ∈ l ++ r → q.contains p →
      Antichain.maximal (l ++ p :: r) = Antichain.maximal (l ++ r) := by
  refine ⟨?_, fun ps qs h => Antichain.maximal_perm h,
    fun l r p q hq hqp => Antichain.maximal_insert_covered hq hqp⟩
  intro ps qs h
  have hstart := SetReduction.ofPrefixes_congr h
  have hps := Reduction.simulates_ofPrefixes ps
  have hqs := Reduction.simulates_ofPrefixes qs
  rw [← hstart] at hqs
  refine ⟨?_, ?_, ?_, ?_⟩
  · intro n hn
    refine ⟨_, _, outcome_aggregatePrefixes ps hn, outcome_aggregatePrefixes qs hn, ?_⟩
    unfold Aggregation.specified
    rw [hstart]
    exact ⟨rfl, rfl⟩
  · rw [hps.nodeCount_eq, hqs.nodeCount_eq]
  · rw [hps.marked_eq, hqs.marked_eq]
  · rw [hps.nodePrefixes_eq, hqs.nodePrefixes_eq]

/-- A pair of hosts around which a wider prefix comes in last, and that prefix alone, followed by
one of the hosts twice: the wider prefix is all that there is to both lists. -/
theorem aggregatePrefixes_congr_of_hosts :
    Antichain.maximal [.host 10, .host 11, (Prefix.host 10).parent] =
        Antichain.maximal [(Prefix.host 10).parent, .host 10, .host 10] ∧
      1 ≤ 1 ∧
      (∃ a b,
        (aggregatePrefixes [.host 10, .host 11, (Prefix.host 10).parent] 1).outcome = .ok a ∧
        (aggregatePrefixes [(Prefix.host 10).parent, .host 10, .host 10] 1).outcome = .ok b ∧
        a.blocks = b.blocks) ∧
      [Prefix.host 10, .host 11].Perm [.host 11, .host 10] ∧
      Antichain.maximal [.host 10, .host 11] = Antichain.maximal [.host 11, .host 10] ∧
      Prefix.host 10 ∈ [Prefix.host 10] ++ [.host 11] ∧
      (Prefix.host 10).contains (.host 10) ∧
      Antichain.maximal ([.host 10] ++ .host 10 :: [.host 11]) =
        Antichain.maximal ([.host 10] ++ [.host 11]) := by
  have hmaximal : Antichain.maximal [.host 10, .host 11, (Prefix.host 10).parent] =
      Antichain.maximal [(Prefix.host 10).parent, .host 10, .host 10] := by
    decide
  have hperm : [Prefix.host 10, .host 11].Perm [.host 11, .host 10] := List.Perm.swap _ _ _
  have hmem : Prefix.host 10 ∈ [Prefix.host 10] ++ [.host 11] := List.mem_cons_self
  have hself : (Prefix.host 10).contains (.host 10) := by decide
  obtain ⟨hlists, hperms, hcovered⟩ := aggregatePrefixes_congr
  obtain ⟨a, b, ha, hb, hblocks, -⟩ := (hlists _ _ hmaximal).1 1 (Nat.le_refl 1)
  exact ⟨hmaximal, Nat.le_refl 1, ⟨a, b, ha, hb, hblocks⟩, hperm, hperms _ _ hperm, hmem, hself,
    hcovered _ _ _ _ hmem hself⟩

end CidrCover
