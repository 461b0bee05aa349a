import CidrCover.Proofs.Aggregation.Result

/-!
# Aggregations after aggregations

Where a reduction goes next depends on its members and its budget alone: not on the number of folds
so far (`SetReduction.reduce_moreFolds`), and not on how the members came about, since a list of
them leaves just them (`SetReduction.ofPrefixes_toList`). So a reduction to `n` is a stop on the way
to any smaller budget (`SetReduction.reduce_reduce`).

* **Composition** (`aggregatePrefixes_compose`): aggregating the blocks of an aggregation is one
  aggregation with the smaller budget, whose folds are those of both. A smaller budget gives blocks
  around those of a larger one, with no fewer addresses.
-/

namespace CidrCover

namespace SetReduction

variable {m n : Nat} {s : SetReduction}

/-! ### Reducing in two goes -/

/-- Reducing twice is reducing once, to the smaller of the two budgets. -/
theorem reduce_reduce (m n : Nat) (s : SetReduction) :
    (s.reduce n).reduce m = s.reduce (min m n) := by
  induction s using reduce_induction n with
  | finished s h =>
    rw [reduce_of_finished h]
    rcases Nat.le_total m n with hmn | hnm
    · rw [Nat.min_eq_left hmn]
    · rw [Nat.min_eq_right hnm, reduce_of_finished h, reduce_of_finished (h.mono hnm)]
  | fold s h ih =>
    have hmin : ¬ s.blocks.Finished (min m n) := fun hf =>
      h (hf.mono (Nat.min_le_right m n))
    rw [reduce_of_not_finished h, ih, reduce_of_not_finished hmin]

/-! ### The number of folds does not matter -/

/-- As many folds more have been made before. -/
def moreFolds (s : SetReduction) (k : Nat) : SetReduction :=
  { s with folds := s.folds + k }

/-- The count of folds plays no part in a fold. -/
theorem fold_moreFolds (hf : s.blocks.Foldable) (k : Nat) :
    (s.moreFolds k).fold hf = (s.fold hf).moreFolds k :=
  SetReduction.ext rfl (Nat.add_right_comm s.folds k 1)

/-- The count of folds plays no part in a reduction. -/
theorem reduce_moreFolds (n k : Nat) (s : SetReduction) :
    (s.moreFolds k).reduce n = (s.reduce n).moreFolds k := by
  induction s using reduce_induction n with
  | finished s h =>
    have hk : (s.moreFolds k).blocks.Finished n := h
    rw [reduce_of_finished h, reduce_of_finished hk]
  | fold s h ih =>
    have hk : ¬ (s.moreFolds k).blocks.Finished n := h
    rw [reduce_of_not_finished h, reduce_of_not_finished hk, ← ih, ← fold_moreFolds]

/-! ### A start from the members -/

/-- A list of the members of a set leaves that set, with no folds. -/
theorem ofPrefixes_toList (S : Antichain) : ofPrefixes S.toList = ⟨S, 0⟩ := by
  rw [ofPrefixes_eq, Antichain.ofList_eq fun p => Antichain.mem_toList]

/-- **A reduction goes on as it would start afresh** from its members. -/
theorem reduce_eq_moreFolds (n : Nat) (s : SetReduction) :
    s.reduce n = ((ofPrefixes s.blocks.toList).reduce n).moreFolds s.folds := by
  have hs : s = (ofPrefixes s.blocks.toList).moreFolds s.folds := by
    rw [ofPrefixes_toList]
    exact SetReduction.ext rfl (Nat.zero_add s.folds).symm
  rw [← reduce_moreFolds, ← hs]

/-! ### Smaller budgets -/

/-- A reduction loses no addresses. -/
theorem addresses_le_addresses_reduce (n : Nat) (s : SetReduction) :
    s.blocks.addresses ≤ (s.reduce n).blocks.addresses := by
  induction s using reduce_induction n with
  | finished s h => rw [reduce_of_finished h]
  | fold s h ih =>
    rw [reduce_of_not_finished h]
    exact Nat.le_trans (Antichain.addresses_le_addresses_fold _) ih

end SetReduction

/-- **Composition**: two aggregations in turn, and one with the smaller budget. -/
theorem aggregatePrefixes_compose (ps : List Prefix) (m n : Nat) (hm : 1 ≤ m) (hn : 1 ≤ n) :
    ∃ a b c, (aggregatePrefixes ps n).outcome = .ok a ∧
      (aggregatePrefixes a.blocks m).outcome = .ok b ∧
      (aggregatePrefixes ps (min m n)).outcome = .ok c ∧
      b.blocks = c.blocks ∧
      c.stats.folds = a.stats.folds + b.stats.folds ∧
      (m ≤ n → (∀ p ∈ a.blocks, ∃ q ∈ c.blocks, q.contains p) ∧
        a.stats.outputAddresses ≤ c.stats.outputAddresses) := by
  have hmin : 1 ≤ min m n := Nat.le_min.mpr ⟨hm, hn⟩
  refine ⟨_, _, _, outcome_aggregatePrefixes ps hn, outcome_aggregatePrefixes _ hm,
    outcome_aggregatePrefixes ps hmin, ?_⟩
  unfold Aggregation.specified
  simp only [← SetReduction.reduce_reduce]
  -- the first aggregation, from which the other two go on
  generalize (SetReduction.ofPrefixes ps).reduce n = s
  have hs := SetReduction.reduce_eq_moreFolds m s
  refine ⟨?_, ?_, fun _ => ⟨?_, ?_⟩⟩
  · rw [hs]
    rfl
  · rw [hs]
    exact Nat.add_comm _ _
  · intro p hp
    rw [Antichain.mem_toList] at hp
    obtain ⟨q, hq, hqp⟩ := SetReduction.holds_reduce m s (Antichain.holds_of_mem hp)
    exact ⟨q, Antichain.mem_toList.mpr hq, hqp⟩
  · exact min_le_min_right _ (SetReduction.addresses_le_addresses_reduce m s)

/-- Three neighbours, to two blocks and then to one. -/
theorem aggregatePrefixes_compose_of_neighbours :
    1 ≤ 1 ∧ 1 ≤ 2 ∧
      ∃ a b c, (aggregatePrefixes [.host 10, .host 11, .host 12] 2).outcome = .ok a ∧
        (aggregatePrefixes a.blocks 1).outcome = .ok b ∧
        (aggregatePrefixes [.host 10, .host 11, .host 12] 1).outcome = .ok c ∧
        b.blocks = c.blocks ∧
        c.stats.folds = a.stats.folds + b.stats.folds ∧
        (∀ p ∈ a.blocks, ∃ q ∈ c.blocks, q.contains p) ∧
        a.stats.outputAddresses ≤ c.stats.outputAddresses := by
  obtain ⟨a, b, c, ha, hb, hc, hblocks, hfolds, hsmaller⟩ :=
    aggregatePrefixes_compose [.host 10, .host 11, .host 12] 1 2 (by decide) (by decide)
  obtain ⟨hwithin, haddresses⟩ := hsmaller (by decide)
  exact ⟨by decide, by decide, a, b, c, ha, hb, hc, hblocks, hfolds, hwithin, haddresses⟩

end CidrCover
