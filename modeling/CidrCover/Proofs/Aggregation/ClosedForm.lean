import CidrCover.Proofs.Aggregation.Budget
import CidrCover.Proofs.Antichain.Cut
import CidrCover.Proofs.Reduction.Loop

/-!
# Reductions in closed form

Every state on the way of a reduction is what some cut leaves of the state at its start
(`SetReduction.exists_cut_after`), since every fold is a cut further up. The fold that ends a
reduction starts one member above the budget and takes one away (`SetReduction.card_after_last`):
it takes in both halves of the block that it makes.

* **The closed form** (`aggregatePrefixes_closed_form`): if the budget does not allow all maximal
  prefixes, the blocks are what the cut at one of them leaves of the maximal prefixes, and both
  halves of that one were needed.
-/

namespace CidrCover

namespace SetReduction

variable {n k : Nat} {s : SetReduction}

/-- **Reducing is cutting**, at every moment. -/
theorem exists_cut_after (h : s.StopsAfter n k) {i : Nat} (hi : i ≤ k) :
    ∃ c : Prefix, (s.after n i).blocks.members = s.blocks.members.image c.cut := by
  induction i with
  | zero => exact ⟨.host 0, s.blocks.members_eq_image_cut 0⟩
  | succ i ih =>
    obtain ⟨c, hc⟩ := ih (Nat.le_of_succ_le hi)
    rw [after_succ_eq_fold (h.unfinished i hi)]
    exact ⟨_, Antichain.fold_eq_image_cut hc _⟩

/-- One fold before its end a reduction has one member more than it may have. -/
theorem card_after_last (hn : 1 ≤ n) (h : s.StopsAfter n (k + 1)) :
    (s.after n k).blocks.members.card = n + 1 := by
  have hlast := h.unfinished k (Nat.lt_succ_self k)
  have hlt : n < (s.after n k).blocks.members.card := Nat.lt_of_not_le (not_or.mp hlast).1
  have hend := card_le_of_finished hn h.finished
  rw [after_succ_eq_fold hlast] at hend
  have hone := Antichain.card_le_card_fold_add_one (Antichain.foldable_of_not_finished hlast)
  exact Nat.le_antisymm (Nat.le_trans hone (Nat.succ_le_succ hend)) hlt

/-- The last fold makes one of the members, takes in both of its children, and leaves what the cut
at it leaves. -/
theorem exists_cut_last (hn : 1 ≤ n) (h : s.StopsAfter n (k + 1)) :
    ∃ c ∈ (s.reduce n).blocks.members,
      (s.reduce n).blocks.members = s.blocks.members.image c.cut ∧
      ∀ b, ∃ q, c.IsChild b q ∧ ∃ d ∈ s.blocks.members, q.contains d := by
  have hlast := h.unfinished k (Nat.lt_succ_self k)
  have hf := Antichain.foldable_of_not_finished hlast
  have hend := card_le_of_finished hn h.finished
  obtain ⟨c, hc⟩ := exists_cut_after h (Nat.le_succ k)
  rw [after_succ_eq_fold hlast] at hend
  have hlt : ((s.after n k).blocks.fold hf).members.card < (s.after n k).blocks.members.card := by
    rw [card_after_last hn h]
    exact Nat.lt_succ_of_le hend
  rw [reduce_eq_after h, after_succ_eq_fold hlast]
  refine ⟨_, (Antichain.mem_fold hf).mpr (Or.inl rfl), Antichain.fold_eq_image_cut hc hf, ?_⟩
  intro b
  obtain ⟨q, hq, hchild⟩ := Antichain.exists_isChild_of_card_lt hf hlt b
  obtain ⟨d, hd, rfl⟩ := Finset.mem_image.mp (hc ▸ hq)
  exact ⟨_, hchild, d, hd, Prefix.cut_contains c d⟩

/-- More members than a positive budget allows make a fold, and so a last one. -/
theorem exists_stopsAfter_succ (hn : 1 ≤ n) (h : n < s.blocks.members.card) :
    ∃ k, s.StopsAfter n (k + 1) := by
  obtain ⟨k, hk⟩ := exists_stopsAfter n s
  cases k with
  | zero => exact absurd h (Nat.not_lt.mpr (card_le_of_finished hn hk.finished))
  | succ k => exact ⟨k, hk⟩

end SetReduction

/-- **The closed form** of an aggregation that folds. -/
theorem aggregatePrefixes_closed_form (ps : List Prefix) (n : Nat) (hn : 1 ≤ n)
    (hlt : n < (Antichain.maximal ps).card) :
    ∃ a, (aggregatePrefixes ps n).outcome = .ok a ∧
      ∃ c ∈ a.blocks, ∃ hc : c.len < 32,
        (∀ b, ∃ d ∈ Antichain.maximal ps, (c.child b hc).contains d) ∧
        a.blocks = ((Antichain.maximal ps).image c.cut).sort (· ≤ ·) ∧
        (∀ p ∈ a.blocks, p.len ≤ c.len + 1) ∧
        (∀ d ∈ Antichain.maximal ps, d.len ≤ c.len → d ∈ a.blocks) ∧
        1 ≤ a.stats.folds ∧
        ((Reduction.ofPrefixes ps).after n (a.stats.folds - 1)).leafCount = n + 1 := by
  have hmaximal := SetReduction.members_ofPrefixes ps
  rw [← hmaximal] at hlt ⊢
  obtain ⟨k, hk⟩ := SetReduction.exists_stopsAfter_succ hn hlt
  obtain ⟨c, hmem, hcut, hhalves⟩ := SetReduction.exists_cut_last hn hk
  have hlen : c.len < 32 := by
    obtain ⟨q, hq, -⟩ := hhalves false
    have := hq.len_eq
    have := q.len_le
    omega
  have hfolds : (Aggregation.specified ps n).stats.folds = k + 1 := by
    rw [Aggregation.specified, SetReduction.reduce_eq_after hk,
      SetReduction.folds_after hk (Nat.le_refl _), SetReduction.ofPrefixes_eq, Nat.zero_add]
  refine ⟨_, outcome_aggregatePrefixes ps hn, c, Antichain.mem_toList.mpr hmem, hlen, ?_, ?_, ?_,
    ?_, ?_, ?_⟩
  · intro b
    obtain ⟨q, hq, d, hd, hqd⟩ := hhalves b
    rw [hq.unique (Prefix.isChild_child c b hlen)] at hqd
    exact ⟨d, hd, hqd⟩
  · rw [← hcut]
    rfl
  · intro p hp
    obtain ⟨d, -, rfl⟩ := Finset.mem_image.mp (hcut ▸ Antichain.mem_toList.mp hp)
    exact Prefix.len_cut_le c d
  · intro d hd hdc
    apply Antichain.mem_toList.mpr
    rw [hcut]
    exact Finset.mem_image.mpr ⟨d, hd, Prefix.cut_of_len_le hdc⟩
  · rw [hfolds]
    exact Nat.succ_le_succ (Nat.zero_le k)
  · have hbefore := (Reduction.simulates_ofPrefixes ps).after n k
    rw [hfolds, Nat.add_sub_cancel, hbefore.leafCount_eq]
    exact SetReduction.card_after_last hn hk

/-- Of three hosts, the last one goes into its parent first, and the other two into theirs after
that: the cut is at the latter, and leaves of the last host what comes after it at that length. -/
theorem aggregatePrefixes_closed_form_of_hosts :
    1 ≤ 2 ∧ 2 < (Antichain.maximal [.host 10, .host 11, .host 13]).card ∧
      ∃ a, (aggregatePrefixes [.host 10, .host 11, .host 13] 2).outcome = .ok a ∧
        ∃ c ∈ a.blocks, ∃ hc : c.len < 32,
          (∀ b, ∃ d ∈ Antichain.maximal [.host 10, .host 11, .host 13],
            (c.child b hc).contains d) ∧
          a.blocks =
            ((Antichain.maximal [.host 10, .host 11, .host 13]).image c.cut).sort (· ≤ ·) ∧
          ((Reduction.ofPrefixes [.host 10, .host 11, .host 13]).after 2
            (a.stats.folds - 1)).leafCount = 3 := by
  have hcard : 2 < (Antichain.maximal [.host 10, .host 11, .host 13]).card := by decide
  obtain ⟨a, ha, c, hc, hlen, hhalves, hblocks, -, -, -, hbefore⟩ :=
    aggregatePrefixes_closed_form [.host 10, .host 11, .host 13] 2 (by decide) hcard
  exact ⟨by decide, hcard, a, ha, c, hc, hlen, hhalves, hblocks, hbefore⟩

-- the cut that the three hosts lead to
example : [Prefix.host 10, .host 11, .host 13].map (Prefix.host 10).parent.cut =
    [(Prefix.host 10).parent, (Prefix.host 10).parent, (Prefix.host 13).parent] := by
  decide +kernel

end CidrCover
