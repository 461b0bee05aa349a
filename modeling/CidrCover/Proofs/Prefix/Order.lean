import CidrCover.Proofs.Prefix.Nesting
import Mathlib.Data.Finset.Sort

/-!
# The order of prefixes

Prefixes are linearly ordered by length and then by value. Cutting equally long prefixes to one length keeps their order
(`bits_take_le`). A strictly ascending list is the sorted list of the set of its
members (`eq_sort_of_ascending`), and so is every sorted list without repetitions (`sort_eq_sort`):
the order in which something is collected leaves no trace in what is listed.
-/

namespace CidrCover.Prefix

/-! ### The linear order -/

/-- Prefixes are ordered by length, and by bits within a length. -/
theorem le_iff {p q : Prefix} :
    p ≤ q ↔ p.len < q.len ∨ p.len = q.len ∧ p.bits.toNat ≤ q.bits.toNat := Iff.rfl

/-- The strict order, too, is by length first and by bits within a length. -/
theorem lt_iff {p q : Prefix} :
    p < q ↔ p.len < q.len ∨ p.len = q.len ∧ p.bits.toNat < q.bits.toNat := Iff.rfl

/-- Comparing two prefixes decides their order. -/
theorem compare_eq (p q : Prefix) : compare p q = compareOfLessAndEq p q := by
  have heq : p = q ↔ p.len = q.len ∧ p.bits.toNat = q.bits.toNat :=
    ⟨fun h => h ▸ ⟨rfl, rfl⟩, fun ⟨hl, hb⟩ => ext_bits hl (BitVec.eq_of_toNat_eq hb)⟩
  simp only [compare, compareOfLessAndEq, lt_iff, heq, Nat.compare_eq_ite_lt]
  split_ifs <;> first | rfl | omega

instance : LinearOrder Prefix where
  toLE := inferInstance
  toLT := inferInstance
  le_refl p := le_iff.mpr (Or.inr ⟨rfl, Nat.le_refl _⟩)
  le_trans p q r hpq hqr := by
    rw [le_iff] at hpq hqr ⊢
    omega
  lt_iff_le_not_ge p q := by
    rw [lt_iff, le_iff, le_iff]
    omega
  le_antisymm p q hpq hqp := by
    rw [le_iff] at hpq hqp
    exact ext_bits (by omega) (BitVec.eq_of_toNat_eq (by omega))
  le_total p q := by
    rw [le_iff, le_iff]
    omega
  toDecidableLE := inferInstance
  toDecidableLT := inferInstance
  toDecidableEq := inferInstance
  toOrd := inferInstance
  compare_eq_compareOfLessAndEq := compare_eq

/-- The smaller of two prefixes is no longer than the other. -/
theorem len_le_of_le {p q : Prefix} (h : p ≤ q) : p.len ≤ q.len := by
  rw [le_iff] at h
  omega

/-! ### Leading bits -/

/-- Masking rounds a word down to a multiple of a power of two. -/
theorem toNat_and_mask (w : Address) (len : Nat) :
    (w &&& mask len).toNat = w.toNat / 2 ^ (32 - len) * 2 ^ (32 - len) := by
  have hlt : w.toNat / 2 ^ (32 - len) * 2 ^ (32 - len) < 2 ^ 32 :=
    Nat.lt_of_le_of_lt (Nat.div_mul_le_self _ _) w.isLt
  rw [and_mask_eq_shift, BitVec.toNat_shiftLeft, BitVec.toNat_ushiftRight,
    Nat.shiftRight_eq_div_pow, Nat.shiftLeft_eq, Nat.mod_eq_of_lt hlt]

/-- Masking keeps the order of words. -/
theorem and_mask_le_and_mask {v w : Address} (h : v ≤ w) (len : Nat) :
    v &&& mask len ≤ w &&& mask len := by
  rw [BitVec.le_def, toNat_and_mask, toNat_and_mask]
  exact Nat.mul_le_mul_right _ (Nat.div_le_div_right h)

/-- Leading bits of equally long prefixes are in the order of the prefixes. -/
theorem bits_take_le {p q : Prefix} (hlen : p.len = q.len) (hle : p ≤ q) (n : Nat) :
    (p.take n).bits ≤ (q.take n).bits := by
  have hbits : p.bits ≤ q.bits := by
    rw [le_iff] at hle
    rw [BitVec.le_def]
    omega
  rw [bits_take, bits_take, hlen]
  exact and_mask_le_and_mask hbits _

/-! ### Sorted lists -/

/-- A strictly ascending list is the sorted list of its members. -/
theorem eq_sort_of_ascending {ps : List Prefix} {S : Finset Prefix}
    (hasc : ps.Pairwise (· < ·)) (hmem : ∀ p, p ∈ ps ↔ p ∈ S) : ps = S.sort (· ≤ ·) := by
  have hnodup : ps.Nodup := hasc.imp fun h => ne_of_lt h
  have hS : ps.toFinset = S := by
    ext p
    rw [List.mem_toFinset, hmem]
  rw [← hS, (List.toFinset_sort (· ≤ ·) hnodup).mpr (hasc.imp fun h => le_of_lt h)]

/-- Sorting a list without repetitions gives the sorted list of its members. -/
theorem sort_eq_sort {ps : List Prefix} {S : Finset Prefix}
    (hnodup : ps.Nodup) (hmem : ∀ p, p ∈ ps ↔ p ∈ S) : sort ps = S.sort (· ≤ ·) := by
  have hperm : (sort ps).Perm ps := List.mergeSort_perm ..
  have hle : (sort ps).Pairwise (fun p q => decide (p ≤ q) = true) := by
    refine List.pairwise_mergeSort (fun p q r hpq hqr => ?_) (fun p q => ?_) ps
    · rw [decide_eq_true_eq] at hpq hqr ⊢
      exact le_trans hpq hqr
    · rw [Bool.or_eq_true, decide_eq_true_eq, decide_eq_true_eq]
      exact le_total p q
  have hlt : (sort ps).Pairwise (· < ·) :=
    hle.imp₂ (fun _ _ h hne => lt_of_le_of_ne (of_decide_eq_true h) hne)
      (hperm.nodup_iff.mpr hnodup)
  exact eq_sort_of_ascending hlt fun p => hperm.mem_iff.trans (hmem p)

end CidrCover.Prefix
