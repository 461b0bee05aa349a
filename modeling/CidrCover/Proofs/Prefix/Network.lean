import CidrCover.Aggregation.Basic
import CidrCover.Proofs.Prefix.Order

/-!
# Prefixes as ranges of addresses

There are three ways to say that a prefix contains another one: its bits are the leading bits of the
other, its range of addresses from the first to the last encloses that of the other, or every
address of the other is one of its own. They are the same. A prefix is its range
(`containsAddress_iff_between`), since masking keeps the order of words. So containment goes over to
the addresses, from the addresses to their first and last one, and from these two back to the bits:
a longer prefix cannot hold both of them (`len_le_of_ends`).

* **The check of a cover** (`covers_agreement`): it compares ranges, and decides containment by bits
  and by addresses all the same.
-/

namespace CidrCover

variable {p q : Prefix} {a : Address}

/-! ### Words -/

/-- A word is no greater than one that has all its bits. -/
theorem le_of_getMsbD {v w : Address} (h : ∀ i < 32, v.getMsbD i = true → w.getMsbD i = true) :
    v ≤ w := by
  have hand : v &&& w = v := by
    apply BitVec.eq_of_getMsbD_eq
    intro i hi
    rw [BitVec.getMsbD_and]
    cases hv : v.getMsbD i with
    | false => rfl
    | true => rw [h i hi hv, Bool.and_true]
  rw [BitVec.le_def, ← hand, BitVec.toNat_and]
  exact Nat.and_le_right

/-- A network contains those whose two ends are within its own. -/
theorem Network.contains_iff {n m : Network} :
    n.contains m ↔ n.first ≤ m.first ∧ m.last ≤ n.last := by
  rw [Network.contains, Bool.and_eq_true, decide_eq_true_eq, decide_eq_true_eq]

namespace Prefix

/-! ### The range of a prefix -/

/-- The network of a prefix begins at the address its bits are. -/
theorem first_toNetwork (p : Prefix) : p.toNetwork.first = p.bits :=
  p.bits_mask

/-- The last address has the bits of the prefix, and all bits below its length. -/
theorem getMsbD_last_toNetwork (p : Prefix) {i : Nat} (hi : i < 32) :
    p.toNetwork.last.getMsbD i = (p.bits.getMsbD i || decide (p.len ≤ i)) := by
  show (p.bits ||| ~~~(mask p.len)).getMsbD i = _
  rw [BitVec.getMsbD_or, BitVec.getMsbD_not, getMsbD_mask hi, decide_eq_true hi, Bool.true_and,
    ← decide_not]
  simp only [Nat.not_lt]

/-- Without the bits below the length, the last address is the first one. -/
theorem last_toNetwork_and_mask (p : Prefix) : p.toNetwork.last &&& mask p.len = p.bits := by
  apply BitVec.eq_of_getMsbD_eq
  intro i hi
  rw [BitVec.getMsbD_and, getMsbD_last_toNetwork p hi, getMsbD_mask hi]
  by_cases h : i < p.len
  · simp [h]
  · simp [h, p.getMsbD_bits_of_len_le (Nat.not_lt.mp h)]

/-- **A prefix is its range of addresses.** -/
theorem containsAddress_iff_between :
    p.containsAddress a ↔ p.toNetwork.first ≤ a ∧ a ≤ p.toNetwork.last := by
  rw [first_toNetwork, containsAddress, beq_iff_eq]
  constructor
  · intro h
    constructor
    · rw [← h, BitVec.le_def, BitVec.toNat_and]
      exact Nat.and_le_left
    · apply le_of_getMsbD
      intro i hi ha
      rw [getMsbD_last_toNetwork p hi, ← h, BitVec.getMsbD_and, getMsbD_mask hi, ha, Bool.true_and,
        Bool.or_eq_true, decide_eq_true_eq, decide_eq_true_eq]
      exact Nat.lt_or_ge i p.len
  · rintro ⟨hfirst, hlast⟩
    have hlow := and_mask_le_and_mask hfirst p.len
    have hhigh := and_mask_le_and_mask hlast p.len
    rw [p.bits_mask] at hlow
    rw [last_toNetwork_and_mask] at hhigh
    exact BitVec.le_antisymm hhigh hlow

/-- The first address of a prefix is within it. -/
theorem containsAddress_first (p : Prefix) : p.containsAddress p.toNetwork.first := by
  rw [first_toNetwork, containsAddress, p.bits_mask, beq_self_eq_true]

/-- The last address of a prefix is within it. -/
theorem containsAddress_last (p : Prefix) : p.containsAddress p.toNetwork.last := by
  rw [containsAddress, last_toNetwork_and_mask, beq_self_eq_true]

/-! ### Containment -/

/-- An address in a prefix has its bits. -/
theorem getMsbD_of_containsAddress (h : p.containsAddress a) {i : Nat} (hi : i < p.len) :
    a.getMsbD i = p.bits.getMsbD i := by
  have hi32 : i < 32 := Nat.lt_of_lt_of_le hi p.len_le
  rw [containsAddress, beq_iff_eq] at h
  rw [← h, BitVec.getMsbD_and, getMsbD_mask hi32, decide_eq_true hi, Bool.and_true]

/-- The first and the last address of a prefix differ in the bit after it, so that no longer prefix
holds both. -/
theorem len_le_of_ends (hfirst : p.containsAddress q.toNetwork.first)
    (hlast : p.containsAddress q.toNetwork.last) : p.len ≤ q.len := by
  by_contra hlen
  have hlt : q.len < p.len := Nat.lt_of_not_le hlen
  have hq32 : q.len < 32 := Nat.lt_of_lt_of_le hlt p.len_le
  have hone := getMsbD_of_containsAddress hlast hlt
  have hzero := getMsbD_of_containsAddress hfirst hlt
  rw [getMsbD_last_toNetwork q hq32, decide_eq_true (Nat.le_refl _), Bool.or_true] at hone
  rw [first_toNetwork, q.getMsbD_bits_of_len_le (Nat.le_refl _)] at hzero
  exact absurd (hone.trans hzero.symm) nofun

/-- A prefix that holds both ends of another one contains it. -/
theorem contains_of_ends (hfirst : p.containsAddress q.toNetwork.first)
    (hlast : p.containsAddress q.toNetwork.last) : p.contains q :=
  contains_of_len_le (containsAddress_iff.mp hfirst)
    (containsAddress_iff.mp q.containsAddress_first) (len_le_of_ends hfirst hlast)

/-- **Containment is that of the addresses.** -/
theorem contains_iff_forall_containsAddress :
    p.contains q ↔ ∀ a, q.containsAddress a → p.containsAddress a := by
  constructor
  · intro h a ha
    exact containsAddress_of_contains h ha
  · intro h
    exact contains_of_ends (h _ q.containsAddress_first) (h _ q.containsAddress_last)

/-- **Containment is that of the ranges.** -/
theorem toNetwork_contains_iff : p.toNetwork.contains q.toNetwork ↔ p.contains q := by
  rw [Network.contains_iff]
  constructor
  · rintro ⟨hfirst, hlast⟩
    -- the ends of the inner range lie between those of the outer one
    have hends := (containsAddress_iff_between.mp q.containsAddress_last).1
    apply contains_of_ends
    · exact containsAddress_iff_between.mpr ⟨hfirst, BitVec.le_trans hends hlast⟩
    · exact containsAddress_iff_between.mpr ⟨BitVec.le_trans hfirst hends, hlast⟩
  · intro h
    have hfirst := containsAddress_of_contains h q.containsAddress_first
    have hlast := containsAddress_of_contains h q.containsAddress_last
    exact ⟨(containsAddress_iff_between.mp hfirst).1, (containsAddress_iff_between.mp hlast).2⟩

/-- **Blocks are nested if they have an address in common**, and only then. -/
theorem nested_iff_exists_containsAddress :
    (p.contains q ∨ q.contains p) ↔ ∃ a, p.containsAddress a ∧ q.containsAddress a := by
  constructor
  · rintro (h | h)
    · exact ⟨_, containsAddress_of_contains h q.containsAddress_first, q.containsAddress_first⟩
    · exact ⟨_, p.containsAddress_first, containsAddress_of_contains h p.containsAddress_first⟩
  · rintro ⟨a, hp, hq⟩
    exact contains_total_of_containsAddress hp hq

/-- Prefixes with the same addresses are equal. -/
theorem eq_iff_forall_containsAddress :
    p = q ↔ ∀ a, p.containsAddress a = q.containsAddress a := by
  constructor
  · rintro rfl a
    rfl
  · intro h
    apply contains_antisymm
    · exact contains_iff_forall_containsAddress.mpr fun a ha => (h a).trans ha
    · exact contains_iff_forall_containsAddress.mpr fun a ha => (h a).symm.trans ha

end Prefix

/-! ### The check of a cover -/

/-- The check decides containment by bits. -/
theorem covers_iff {blocks inputs : List Prefix} :
    covers blocks inputs ↔ ∀ p ∈ inputs, ∃ b ∈ blocks, b.contains p := by
  simp only [covers, List.all_eq_true, List.any_eq_true, Prefix.toNetwork_contains_iff]

/-- **The check of a cover**: networks are compared by their first and last addresses, which is the
same as by the bits of prefixes, and as address by address. Two prefixes are nested or have no
address in common, and they are equal if they have the same addresses. -/
theorem covers_agreement :
    (∀ n m : Network, n.contains m ↔ n.first ≤ m.first ∧ m.last ≤ n.last) ∧
    (∀ blocks inputs : List Prefix,
      (covers blocks inputs ↔ ∀ p ∈ inputs, ∃ b ∈ blocks, b.contains p) ∧
      (covers blocks inputs ↔
        ∀ p ∈ inputs, ∃ b ∈ blocks, ∀ a, p.containsAddress a → b.containsAddress a)) ∧
    (∀ p q : Prefix,
      (p.contains q ∨ q.contains p) ↔ ∃ a, p.containsAddress a ∧ q.containsAddress a) ∧
    ∀ p q : Prefix, p = q ↔ ∀ a, p.containsAddress a = q.containsAddress a := by
  refine ⟨fun n m => Network.contains_iff, ?_, fun p q => Prefix.nested_iff_exists_containsAddress,
    fun p q => Prefix.eq_iff_forall_containsAddress⟩
  intro blocks inputs
  refine ⟨covers_iff, ?_⟩
  simp only [covers_iff, Prefix.contains_iff_forall_containsAddress]

end CidrCover
