import CidrCover.Proofs.Aggregation.Composition
import CidrCover.Proofs.Prefix.AddressSet

/-!
# Addresses are counted exactly

An aggregation adds up the sizes of blocks. The members of an antichain have no address in common,
so the sum is the number of addresses that they cover together (`Antichain.addresses_eq_card`); and
the members that a list leaves cover what the list covers (`Antichain.coveredAddresses_ofList`). No
set of blocks has more than 2^32 addresses, so no sum over an antichain reaches the greatest count.

* **Exact counts** (`aggregatePrefixes_counts_addresses`): of the input, repeated and nested blocks
  included, of the output, and of what the output covers beyond the input.
-/

namespace CidrCover

/-! ### The addresses of an antichain -/

namespace Antichain

variable {S T : Antichain} {a : Address}

/-- The listed members cover the addresses that the antichain holds. -/
theorem mem_coveredAddresses_toList :
    a ∈ coveredAddresses S.toList ↔ S.Holds (.host a) := by
  rw [mem_coveredAddresses]
  simp only [mem_toList]
  rfl

/-- A list covers what its maximal elements cover. -/
theorem coveredAddresses_ofList (ps : List Prefix) :
    coveredAddresses (ofList ps).toList = coveredAddresses ps := by
  ext a
  rw [mem_coveredAddresses_toList, holds_ofList, mem_coveredAddresses]

/-- **The sizes of the members add up to the number of addresses.** -/
theorem addresses_eq_card (S : Antichain) : S.addresses = (coveredAddresses S.toList).card := by
  have hapart : (S.members : Set Prefix).PairwiseDisjoint Prefix.addressSet := by
    intro p hp q hq hne
    apply Finset.disjoint_left.mpr
    intro a hpa hqa
    rw [Prefix.mem_addressSet] at hpa hqa
    exact hne (S.eq_of_containsAddress hp hq hpa hqa)
  have hmembers : S.toList.toFinset = S.members := by
    ext p
    rw [List.mem_toFinset, mem_toList]
  unfold addresses coveredAddresses
  rw [hmembers, Finset.card_biUnion hapart]
  exact Finset.sum_congr rfl fun p _ => p.card_addressSet.symm

/-- So the greatest count is never reached. -/
theorem min_addresses (S : Antichain) :
    min S.addresses maxCount = (coveredAddresses S.toList).card := by
  have hle := card_coveredAddresses_le S.toList
  have hmax : 2 ^ 32 ≤ maxCount := by decide
  rw [addresses_eq_card, Nat.min_eq_left (Nat.le_trans hle hmax)]

end Antichain

/-! ### The counts of an aggregation -/

namespace SetReduction

/-- What is covered at first is covered after reducing. -/
theorem coveredAddresses_subset_reduce (n : Nat) (s : SetReduction) :
    coveredAddresses s.blocks.toList ⊆ coveredAddresses (s.reduce n).blocks.toList := by
  intro a ha
  rw [Antichain.mem_coveredAddresses_toList] at ha ⊢
  exact holds_reduce n s ha

end SetReduction

/-- **Exact counts**: of aggregations, and of lists whose sum may be cut off. -/
theorem aggregatePrefixes_counts_addresses :
    (∀ (ps : List Prefix) (n : Nat), 1 ≤ n →
      ∃ a, (aggregatePrefixes ps n).outcome = .ok a ∧
        a.stats.inputAddresses = (coveredAddresses ps).card ∧
        a.stats.outputAddresses = (coveredAddresses a.blocks).card ∧
        a.stats.inputAddresses ≤ a.stats.outputAddresses ∧
        a.stats.outputAddresses ≤ 2 ^ 32 ∧
        a.stats.extra = (coveredAddresses a.blocks \ coveredAddresses ps).card ∧
        (a.stats.distinctCount ≤ n → a.stats.extra = 0)) ∧
    ∀ ps : List Prefix,
      countAddresses ps = min (ps.map fun p => 2 ^ (32 - p.len)).sum (2 ^ 64 - 1) := by
  refine ⟨?_, countAddresses_eq⟩
  intro ps n hn
  -- the input is that of the antichain that the list leaves
  have hstart : coveredAddresses (SetReduction.ofPrefixes ps).blocks.toList =
      coveredAddresses ps := by
    rw [SetReduction.ofPrefixes_eq, Antichain.coveredAddresses_ofList]
  have hsubset := SetReduction.coveredAddresses_subset_reduce n (.ofPrefixes ps)
  have hinput := Antichain.min_addresses (SetReduction.ofPrefixes ps).blocks
  have houtput := Antichain.min_addresses ((SetReduction.ofPrefixes ps).reduce n).blocks
  rw [hstart] at hsubset hinput
  refine ⟨_, outcome_aggregatePrefixes ps hn, hinput, houtput, ?_, ?_, ?_, ?_⟩
  · have hcard := Finset.card_le_card hsubset
    rwa [← hinput, ← houtput] at hcard
  · exact houtput.trans_le (card_coveredAddresses_le _)
  · show min _ _ - min _ _ = _
    rw [hinput, houtput]
    exact (Finset.card_sdiff_of_subset hsubset).symm
  · intro hle
    have hfinished : (SetReduction.ofPrefixes ps).blocks.Finished n := Or.inl hle
    show min _ _ - min _ _ = _
    rw [SetReduction.reduce_of_finished hfinished]
    exact Nat.sub_self _

/-- Two hosts, one of them given twice, are two addresses. A budget of one makes a block of eight
around them, six of which no input asked for, and a budget of two leaves them alone. -/
theorem aggregatePrefixes_counts_addresses_of_hosts :
    1 ≤ 1 ∧
      (∃ a, (aggregatePrefixes [.host 10, .host 12, .host 10] 1).outcome = .ok a ∧
        (coveredAddresses [.host 10, .host 12, .host 10]).card = 2 ∧
        (coveredAddresses a.blocks).card = 8 ∧
        (coveredAddresses a.blocks \ coveredAddresses [.host 10, .host 12, .host 10]).card = 6) ∧
      1 ≤ 2 ∧
      ∃ b, (aggregatePrefixes [.host 10, .host 12, .host 10] 2).outcome = .ok b ∧
        b.stats.distinctCount ≤ 2 ∧ b.stats.extra = 0 := by
  have hstats : ((aggregatePrefixes [.host 10, .host 12, .host 10] 1).outcome.toOption.map
      (·.stats)) = some ⟨3, 2, 1, 5, 2, 8⟩ := by
    decide +kernel
  have hdistinct : ((aggregatePrefixes [.host 10, .host 12, .host 10] 2).outcome.toOption.map
      (·.stats.distinctCount)) = some 2 := by
    decide +kernel
  obtain ⟨a, ha, hinput, houtput, -, -, hextra, -⟩ :=
    aggregatePrefixes_counts_addresses.1 [.host 10, .host 12, .host 10] 1 (Nat.le_refl 1)
  obtain ⟨b, hb, -, -, -, -, -, hzero⟩ :=
    aggregatePrefixes_counts_addresses.1 [.host 10, .host 12, .host 10] 2 (by decide)
  rw [ha] at hstats
  rw [hb] at hdistinct
  have hstats : a.stats = ⟨3, 2, 1, 5, 2, 8⟩ := Option.some_inj.mp hstats
  have hdistinct : b.stats.distinctCount = 2 := Option.some_inj.mp hdistinct
  rw [hstats] at hinput houtput hextra
  have hle := Nat.le_of_eq hdistinct
  exact ⟨Nat.le_refl 1, ⟨a, ha, hinput.symm, houtput.symm, hextra.symm⟩, by decide, b, hb, hle,
    hzero hle⟩

end CidrCover
