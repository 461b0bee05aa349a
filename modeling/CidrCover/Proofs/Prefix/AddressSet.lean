import CidrCover.Proofs.Prefix.Nesting
import Mathlib.Data.FinEnum
import Mathlib.Data.Finset.Union

/-!
# Blocks as sets of addresses

`addressSet` is the set of addresses of a block, `coveredAddresses` that of a list of blocks, each
address counted once. A block has as many addresses as its size says (`card_addressSet`): it is made
of its two halves, which have no address in common, down to the single address of a block of 32
bits.
-/

namespace CidrCover

namespace Prefix

variable {p q : Prefix} {a : Address}

/-! ### The addresses of a block -/

/-- The addresses in a block. -/
def addressSet (p : Prefix) : Finset Address :=
  Finset.univ.filter fun a => p.containsAddress a

/-- The address set of a prefix holds the addresses within it. -/
@[simp] theorem mem_addressSet : a ∈ p.addressSet ↔ p.containsAddress a := by
  simp [addressSet]

/-- The bits of a single address are the address. -/
@[simp] theorem bits_host (a : Address) : (host a).bits = a := by
  have hmask : mask 32 = BitVec.allOnes 32 := rfl
  show a &&& mask 32 = a
  rw [hmask, BitVec.and_allOnes]

/-- A prefix that contains another one has all of its addresses. -/
theorem addressSet_subset (h : p.contains q) : q.addressSet ⊆ p.addressSet := by
  intro a ha
  rw [mem_addressSet] at ha ⊢
  exact containsAddress_of_contains h ha

/-- A block of 32 bits is a single address. -/
theorem addressSet_of_len_eq (h : p.len = 32) : p.addressSet = {p.bits} := by
  ext a
  rw [mem_addressSet, containsAddress_iff, Finset.mem_singleton]
  constructor
  · intro hpa
    have hp : p = host a := eq_of_contains_of_len_le hpa (Nat.le_of_eq h.symm)
    rw [hp, bits_host]
  · rintro rfl
    have hp : host p.bits = p := ext_bits h.symm (bits_host p.bits)
    rw [hp]
    exact p.contains_refl

/-- Any other block is made of its halves. -/
theorem addressSet_eq_union (h : p.len < 32) :
    p.addressSet = (p.child false h).addressSet ∪ (p.child true h).addressSet := by
  apply Finset.Subset.antisymm
  · intro a ha
    rw [mem_addressSet, containsAddress_iff] at ha
    have hne : p ≠ host a := fun he => Nat.ne_of_lt h (congrArg len he)
    have hchild := isChild_take ha hne
    have hnext := take_contains (host a) (p.len + 1)
    rw [hchild.unique (isChild_child p _ h)] at hnext
    rw [Finset.mem_union, mem_addressSet, mem_addressSet, containsAddress_iff, containsAddress_iff]
    cases hbit : (host a).bit p.len with
    | false => exact Or.inl (hbit ▸ hnext)
    | true => exact Or.inr (hbit ▸ hnext)
  · exact Finset.union_subset (addressSet_subset (isChild_child p _ h).contains)
      (addressSet_subset (isChild_child p _ h).contains)

/-- The halves are told apart by the bit after the block. -/
theorem disjoint_addressSet_child (h : p.len < 32) :
    Disjoint (p.child false h).addressSet (p.child true h).addressSet := by
  rw [Finset.disjoint_left]
  intro a hfalse htrue
  rw [mem_addressSet, containsAddress_iff] at hfalse htrue
  have hbit := (isChild_child p false h).bit_of_contains hfalse
  rw [(isChild_child p true h).bit_of_contains htrue] at hbit
  exact absurd hbit nofun

/-- The sizes of the halves add up. -/
theorem size_eq_add (h : p.len < 32) :
    p.size = (p.child false h).size + (p.child true h).size := by
  have hchild := isChild_child p false h
  have hsame : (p.child true h).size = (p.child false h).size := size_eq_of_len_eq rfl
  rw [hsame, ← size_parent hchild.ne_root, hchild.parent_eq]

/-- **A block has as many addresses as its size says.** -/
theorem card_addressSet (p : Prefix) : p.addressSet.card = p.size := by
  induction hrest : 32 - p.len generalizing p with
  | zero =>
    have hlen : p.len = 32 := by
      have := p.len_le
      omega
    rw [addressSet_of_len_eq hlen, Finset.card_singleton, size, hlen]
  | succ k ih =>
    have hlen : p.len < 32 := by omega
    have hhalf : ∀ b, 32 - (p.child b hlen).len = k := by
      intro b
      rw [len_child]
      omega
    rw [addressSet_eq_union hlen, Finset.card_union_of_disjoint (disjoint_addressSet_child hlen),
      ih _ (hhalf false), ih _ (hhalf true), size_eq_add hlen]

end Prefix

/-! ### The addresses of a list -/

/-- The addresses in at least one of the blocks. -/
def coveredAddresses (ps : List Prefix) : Finset Address :=
  ps.toFinset.biUnion Prefix.addressSet

/-- An address is covered by a list when one of its prefixes contains it. -/
theorem mem_coveredAddresses {ps : List Prefix} {a : Address} :
    a ∈ coveredAddresses ps ↔ ∃ p ∈ ps, p.contains (.host a) := by
  simp [coveredAddresses, Prefix.containsAddress_iff]

/-- There are no more addresses than the root has. -/
theorem card_coveredAddresses_le (ps : List Prefix) : (coveredAddresses ps).card ≤ 2 ^ 32 := by
  have hroot : coveredAddresses ps ⊆ Prefix.root.addressSet := by
    intro a _
    rw [Prefix.mem_addressSet, Prefix.containsAddress_iff]
    exact Prefix.root_contains _
  have hcard := Finset.card_le_card hroot
  rwa [Prefix.card_addressSet] at hcard

end CidrCover
