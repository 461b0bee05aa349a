import CidrCover.Proofs.Aggregation.Result

/-!
# Budgets are met exactly

A reduction stops as soon as the budget is met, and a fold lowers the number of members by one at
most. So a reduction with a budget of at least one neither exceeds its budget nor falls short of it:
it ends with as many members as the budget allows, or with those that it had, if these are fewer
(`SetReduction.card_reduce`). With a budget of zero it goes on to the root
(`SetReduction.members_reduce_zero`).

* **Exact budgets** (`aggregatePrefixes_exact_budget`): of an aggregation, whose blocks are the
  maximal prefixes themselves if the budget allows that, and of a reduction in any state.
-/

namespace CidrCover

namespace SetReduction

variable {m n : Nat} {s : SetReduction}

/-! ### The number of members -/

/-- At the end of folding there are no more members than a positive budget allows. -/
theorem card_le_of_finished (hn : 1 ≤ n) (h : s.blocks.Finished n) :
    s.blocks.members.card ≤ n := by
  rcases h with h | h
  · exact h
  · rw [h, Finset.card_singleton]
    exact hn

/-- **No undershoot**: the last fold starts above the budget and takes one member away at most. -/
theorem card_reduce (hn : 1 ≤ n) (s : SetReduction) :
    (s.reduce n).blocks.members.card = min n s.blocks.members.card := by
  induction s using reduce_induction n with
  | finished s h =>
    rw [reduce_of_finished h, Nat.min_eq_right (card_le_of_finished hn h)]
  | fold s h ih =>
    have hf := Antichain.foldable_of_not_finished h
    have hlt : n < s.blocks.members.card := Nat.lt_of_not_le (not_or.mp h).1
    have hle := Antichain.card_le_card_fold_add_one hf
    have hfold : n ≤ (s.fold hf).blocks.members.card := by
      apply Nat.le_of_lt_succ
      exact Nat.lt_of_lt_of_le hlt hle
    rw [reduce_of_not_finished h, ih, Nat.min_eq_left hfold, Nat.min_eq_left (Nat.le_of_lt hlt)]

/-- With a budget of zero, folding ends at the root. -/
theorem members_reduce_zero (h : s.blocks.members.Nonempty) :
    (s.reduce 0).blocks.members = {Prefix.root} := by
  obtain ⟨p, hp⟩ := h
  obtain ⟨q, hq, -⟩ := holds_reduce 0 s (Antichain.holds_of_mem hp)
  have hpos := Finset.card_pos.mpr ⟨q, hq⟩
  exact (finished_reduce 0 s).resolve_left (Nat.not_le.mpr hpos)

/-! ### The number of folds -/

/-- A reduction takes no folds back. -/
theorem folds_le_folds_reduce (n : Nat) (s : SetReduction) : s.folds ≤ (s.reduce n).folds := by
  induction s using reduce_induction n with
  | finished s h => rw [reduce_of_finished h]
  | fold s h ih =>
    rw [reduce_of_not_finished h]
    exact Nat.le_of_succ_le ih

/-- More members than a positive budget allows make at least one fold. -/
theorem folds_lt_folds_reduce (hn : 1 ≤ n) (h : n < s.blocks.members.card) :
    s.folds < (s.reduce n).folds := by
  have hnot : ¬ s.blocks.Finished n := fun hf =>
    Nat.not_le.mpr h (card_le_of_finished hn hf)
  rw [reduce_of_not_finished hnot]
  exact folds_le_folds_reduce n (s.fold _)

end SetReduction

/-! ### Aggregations and reductions -/

namespace Reduction

variable {r : Reduction} {s : SetReduction}

/-- A reduction to a positive budget ends with as many leaves as it allows, or with those there
were. -/
theorem Simulates.leafCount_reduce (h : Simulates r s) {n : Nat} (hn : 1 ≤ n) :
    (r.reduce n).1.leafCount = min n r.leafCount := by
  rw [(h.reduce n).leafCount_eq, h.leafCount_eq, SetReduction.card_reduce hn]

-- the first fold takes in no other leaf, so it takes two folds to give up one of three leaves
example : ((ofPrefixes [.host 10, .host 11, .host 13]).reduce 2).1.folds = 2 := by
  decide +kernel

/-- A reduction to no blocks at all ends at the root, unless there was nothing to reduce. -/
theorem Simulates.blocks_reduce_zero (h : Simulates r s) :
    (r.reduce 0).1.blocks = if r.leafCount = 0 then [] else [Prefix.root] := by
  rw [(h.reduce 0).blocks_eq, h.leafCount_eq]
  split_ifs with hcard
  · have hfinished : s.blocks.Finished 0 := Or.inl (Nat.le_of_eq hcard)
    rw [SetReduction.reduce_of_finished hfinished, Antichain.toList, Finset.card_eq_zero.mp hcard]
    exact Finset.sort_empty _
  · rw [Antichain.toList, SetReduction.members_reduce_zero (Finset.card_ne_zero.mp hcard)]
    exact Finset.sort_singleton _ _

end Reduction

/-- **Exact budgets**: of aggregations, and of reductions in all states that a run can lead to. -/
theorem aggregatePrefixes_exact_budget :
    (∀ (ps : List Prefix) (n : Nat), 1 ≤ n →
      ∃ a, (aggregatePrefixes ps n).outcome = .ok a ∧
        a.stats.distinctCount = (Antichain.maximal ps).card ∧
        a.blocks.length = min n a.stats.distinctCount ∧
        (a.stats.distinctCount ≤ n →
          a.blocks = (Antichain.maximal ps).sort (· ≤ ·) ∧ a.stats.folds = 0) ∧
        (n < a.stats.distinctCount → 1 ≤ a.stats.folds)) ∧
    (∀ (cmds : List Command) (n : Nat), 1 ≤ n →
      ((Reduction.empty.run cmds).reduce n).1.leafCount =
        min n (Reduction.empty.run cmds).leafCount) ∧
    ∀ cmds : List Command,
      ((Reduction.empty.run cmds).reduce 0).1.blocks =
        if (Reduction.empty.run cmds).leafCount = 0 then [] else [Prefix.root] := by
  have hrun : ∀ cmds : List Command,
      Reduction.Simulates (Reduction.empty.run cmds) (SetReduction.empty.run cmds) := fun cmds =>
    Reduction.simulates_empty.run cmds
  refine ⟨fun ps n hn => ?_, fun cmds n hn => (hrun cmds).leafCount_reduce hn,
    fun cmds => (hrun cmds).blocks_reduce_zero⟩
  refine ⟨_, outcome_aggregatePrefixes ps hn, ?_, ?_, ?_, ?_⟩
  · exact congrArg Finset.card (SetReduction.members_ofPrefixes ps)
  · exact (Antichain.length_toList _).trans (SetReduction.card_reduce hn _)
  · intro hle
    have hfinished : (SetReduction.ofPrefixes ps).blocks.Finished n := Or.inl hle
    unfold Aggregation.specified
    simp only [SetReduction.reduce_of_finished hfinished, Antichain.toList,
      SetReduction.members_ofPrefixes, true_and]
    rw [SetReduction.ofPrefixes_eq]
  · intro hlt
    have hfolds := SetReduction.folds_lt_folds_reduce hn hlt
    exact Nat.lt_of_le_of_lt (Nat.zero_le _) hfolds

/-- Two hosts and a prefix around one of them make two maximal prefixes, which a budget of one
brings down to one, and a budget of two leaves alone. -/
theorem aggregatePrefixes_exact_budget_of_hosts :
    (1 ≤ 1 ∧ 1 < 2 ∧
      ∃ a, (aggregatePrefixes [.host 10, .host 12, (Prefix.host 12).parent] 1).outcome = .ok a ∧
        a.stats.distinctCount = 2 ∧ a.blocks.length = 1 ∧ 1 ≤ a.stats.folds) ∧
    1 ≤ 2 ∧ 2 ≤ 2 ∧
      ∃ a, (aggregatePrefixes [.host 10, .host 12, (Prefix.host 12).parent] 2).outcome = .ok a ∧
        a.stats.distinctCount = 2 ∧ a.stats.folds = 0 := by
  have hcard : (Antichain.maximal [.host 10, .host 12, (Prefix.host 12).parent]).card = 2 := by
    decide
  obtain ⟨a, ha, had, hlen, -, hfolds⟩ :=
    aggregatePrefixes_exact_budget.1 [.host 10, .host 12, (Prefix.host 12).parent] 1 (by decide)
  obtain ⟨b, hb, hbd, -, hzero, -⟩ :=
    aggregatePrefixes_exact_budget.1 [.host 10, .host 12, (Prefix.host 12).parent] 2 (by decide)
  rw [hcard] at had hbd
  rw [had] at hlen hfolds
  rw [hbd] at hzero
  exact ⟨⟨by decide, by decide, a, ha, had, hlen, hfolds (by decide)⟩,
    by decide, by decide, b, hb, hbd, (hzero (by decide)).2⟩

end CidrCover
