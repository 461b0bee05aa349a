import CidrCover.Proofs.Antichain.Basic
import Mathlib.Algebra.GroupWithZero.Nat

/-!
# Antichains as lists

The members of an antichain in ascending order. The list has no repetitions, and no address is in
two of its blocks, so a prefix that is held lies in exactly one block of it (`countP_contains`), and
so does each of its addresses (`countP_containsAddress`). Sets that need not be antichains, such as
the marks of a trie, are listed in the same way (`Prefix.ascending`).
-/

namespace CidrCover.Antichain

variable {S : Antichain} {p : Prefix}

/-! ### Sorted lists of finite sets -/

/-- Of a sorted set, as many members pass a test as there are in the part that passes it. -/
theorem countP_sort (M : Finset Prefix) (f : Prefix → Bool) :
    (M.sort (· ≤ ·)).countP f = (M.filter fun p => f p = true).card := by
  have hcoe := Multiset.coe_countP (fun p => f p = true) (M.sort (· ≤ ·))
  simp only [Bool.decide_eq_true] at hcoe
  rw [← hcoe, Finset.sort_eq, Multiset.countP_eq_card_filter]
  rfl

/-- A sum over a sorted set is the sum over the set. -/
theorem sum_sort (M : Finset Prefix) (f : Prefix → Nat) :
    ((M.sort (· ≤ ·)).map f).sum = ∑ p ∈ M, f p := by
  rw [← Multiset.sum_coe, ← Multiset.map_coe, Finset.sort_eq]
  rfl

/-- What exactly one member of a set satisfies is counted once. -/
theorem countP_sort_eq_one {M : Finset Prefix} {f : Prefix → Bool} (hp : p ∈ M) (hf : f p = true)
    (hunique : ∀ q ∈ M, f q = true → q = p) : (M.sort (· ≤ ·)).countP f = 1 := by
  rw [countP_sort, Finset.card_eq_one]
  refine ⟨p, Finset.eq_singleton_iff_unique_mem.mpr ⟨Finset.mem_filter.mpr ⟨hp, hf⟩, ?_⟩⟩
  intro q hq
  obtain ⟨hqM, hfq⟩ := Finset.mem_filter.mp hq
  exact hunique q hqM hfq

/-! ### The list of an antichain -/

/-- The members in ascending order. -/
def toList (S : Antichain) : List Prefix :=
  S.members.sort (· ≤ ·)

/-- The list has the members. -/
@[simp] theorem mem_toList : p ∈ S.toList ↔ p ∈ S.members :=
  Finset.mem_sort _

/-- The list is as long as there are members. -/
@[simp] theorem length_toList (S : Antichain) : S.toList.length = S.members.card :=
  Finset.length_sort _

/-- The list is in ascending order. -/
theorem ascending_toList (S : Antichain) : S.toList.Pairwise (· < ·) :=
  (Finset.sortedLT_sort S.members).pairwise

/-- No address is in two blocks. -/
theorem apart_toList (S : Antichain) :
    S.toList.Pairwise
      fun b c => ∀ a, ¬ (b.containsAddress a = true ∧ c.containsAddress a = true) := by
  refine S.ascending_toList.imp_of_mem ?_
  intro b c hb hc hlt a ⟨hba, hca⟩
  rw [mem_toList] at hb hc
  exact ne_of_lt hlt (S.eq_of_containsAddress hb hc hba hca)

/-- A prefix that is held lies in one block. -/
theorem countP_contains (h : S.Holds p) : S.toList.countP (·.contains p) = 1 := by
  obtain ⟨q, hq, hqp⟩ := h
  apply countP_sort_eq_one hq hqp
  intro r hr hrp
  exact S.eq_of_contains_of_contains hr hq hrp hqp

/-- Each address of a prefix that is held is in one block. -/
theorem countP_containsAddress {a : Address} (h : S.Holds p) (ha : p.containsAddress a) :
    S.toList.countP (·.containsAddress a) = 1 := by
  obtain ⟨q, hq, hqp⟩ := h
  have hqa := Prefix.containsAddress_of_contains hqp ha
  apply countP_sort_eq_one hq hqa
  intro r hr hra
  exact S.eq_of_containsAddress hr hq hra hqa

end CidrCover.Antichain

namespace CidrCover.Prefix

/-! ### The list of any finite set -/

/-- The members in ascending order. -/
def ascending (S : Finset Prefix) : List Prefix :=
  S.sort (· ≤ ·)

end CidrCover.Prefix
