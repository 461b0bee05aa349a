import CidrCover.Aggregation.Basic
import CidrCover.Proofs.Reduction.Runs
import CidrCover.Proofs.Run

/-!
# The result of an aggregation

`Aggregation.specified ps n` is the result as the specification of a reduction has it: the maximal
prefixes of the list, reduced to `n`, with their numbers and addresses. It is what
`aggregatePrefixes` returns, for every list and every budget but zero (`outcome_aggregatePrefixes`).

The count of addresses is the sum of the sizes, cut off at the greatest count (`countAddresses_eq`).
-/

namespace CidrCover

/-! ### Counts of addresses -/

/-- Cutting off at every addition is cutting off the sum. -/
theorem countAddresses_eq (ps : List Prefix) :
    countAddresses ps = min (ps.map Prefix.size).sum maxCount := by
  have hfold : ∀ k, k ≤ maxCount →
      ps.foldl (fun n p => min (n + p.size) maxCount) k =
        min (k + (ps.map Prefix.size).sum) maxCount := by
    induction ps with
    | nil =>
      intro k hk
      simp [hk]
    | cons p ps ih =>
      intro k hk
      rw [List.foldl_cons, ih _ (Nat.min_le_right _ _), List.map_cons, List.sum_cons]
      omega
  unfold countAddresses
  rw [hfold 0 (Nat.zero_le _), Nat.zero_add]

/-- Counting the addresses of the members gives their number, up to the largest count there is. -/
theorem countAddresses_toList (S : Antichain) :
    countAddresses S.toList = min S.addresses maxCount := by
  rw [countAddresses_eq, Antichain.toList, Antichain.sum_sort]
  rfl

/-! ### The specified result -/

/-- The maximal prefixes of a list, reduced to `n`. -/
def Aggregation.specified (ps : List Prefix) (n : Nat) : Aggregation :=
  let start := SetReduction.ofPrefixes ps
  let final := start.reduce n
  { blocks := final.blocks.toList
    stats :=
      { inputCount := ps.length
        distinctCount := start.blocks.members.card
        outputCount := final.blocks.members.card
        folds := final.folds
        inputAddresses := min start.blocks.addresses maxCount
        outputAddresses := min final.blocks.addresses maxCount } }

/-- A reduction of any budget has the specified result. -/
theorem outcome_reducePrefixes (ps : List Prefix) (n : Nat) :
    (reducePrefixes ps n).outcome = .ok (.specified ps n) := by
  have hstart := Reduction.simulates_ofPrefixes ps
  have hfinal := hstart.reduce n
  unfold Reduction.ofPrefixes at hstart hfinal
  unfold reducePrefixes Aggregation.specified
  simp only [hstart.blocks_eq, hfinal.blocks_eq, hfinal.folds_eq, Antichain.length_toList,
    countAddresses_toList]
  rfl

/-- A budget that is not zero is passed. -/
theorem checkMaxBlocks_of_pos {n : Nat} (h : 1 ≤ n) : checkMaxBlocks n = .ok () :=
  if_neg (Nat.not_lt.mpr h)

/-- **The result of an aggregation**, unless the budget is zero. -/
theorem outcome_aggregatePrefixes (ps : List Prefix) {n : Nat} (h : 1 ≤ n) :
    (aggregatePrefixes ps n).outcome = .ok (.specified ps n) := by
  have hbind : (aggregatePrefixes ps n).outcome = (reducePrefixes ps n).outcome := by
    unfold aggregatePrefixes
    rw [checkMaxBlocks_of_pos h]
    rfl
  rw [hbind, outcome_reducePrefixes]

/-- A reduction puts out nothing. -/
theorem silent_reducePrefixes (ps : List Prefix) (n : Nat) : (reducePrefixes ps n).Silent := by
  unfold reducePrefixes
  refine (Run.silent_noteAll _).bind fun _ => (Run.silent_note _).bind fun _ => ?_
  exact (Run.silent_noteAll _).bind fun _ => (Run.silent_note _).bind fun _ => Run.silent_pure _

/-- An aggregation puts out nothing. -/
theorem silent_aggregatePrefixes (ps : List Prefix) (n : Nat) : (aggregatePrefixes ps n).Silent :=
  (Run.silent_ofFault _).bind fun _ => silent_reducePrefixes ps n

end CidrCover
