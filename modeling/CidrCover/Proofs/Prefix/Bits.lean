import CidrCover.Prefix.Basic

/-!
# The bits of a prefix

The operations on prefixes are masks and shifts of 32-bit words. This file says once what each of
them does to the bits, counted from the top, so that no later proof opens a word.

* A prefix is determined by its length and the bits below it (`ext_bit`).
* `take` keeps the leading bits (`len_take`, `bit_take`), `child` adds one (`len_child`,
  `bit_child_of_lt`, `bit_child_len`).
* Taking leading bits twice is taking them once (`take_take`); from this the order of nesting in
  `Nesting` follows without any bit at all.
-/

namespace CidrCover

/-! ### Words -/

/-- The mask of a length has its bits set above that length and nowhere else. -/
theorem getMsbD_mask {len i : Nat} (hi : i < 32) : (mask len).getMsbD i = decide (i < len) := by
  unfold mask
  split
  · next h => subst h; simp
  · next h =>
    simp only [shiftUp, BitVec.getMsbD_shiftLeft, BitVec.getMsbD_allOnes, decide_eq_decide]
    omega

/-- Masking twice is masking with the shorter mask. -/
theorem and_mask_and_mask (w : Address) (m n : Nat) :
    w &&& mask m &&& mask n = w &&& mask (min m n) := by
  apply BitVec.eq_of_getMsbD_eq
  intro i hi
  simp only [BitVec.getMsbD_and, getMsbD_mask hi, Nat.lt_min, Bool.decide_and, Bool.and_assoc]

/-- Masking is shifting the bits below the length out, and zeros in. -/
theorem and_mask_eq_shift (w : Address) (len : Nat) :
    w &&& mask len = (w >>> (32 - len)) <<< (32 - len) := by
  apply BitVec.eq_of_getMsbD_eq
  intro i hi
  rw [BitVec.getMsbD_and, getMsbD_mask hi, BitVec.getMsbD_shiftLeft, BitVec.getMsbD_ushiftRight]
  by_cases hlen : i < len
  · have hin : i + (32 - len) < 32 := by omega
    simp [hlen, hin]
  · have hout : ¬ i + (32 - len) < 32 := by omega
    simp [hlen, hout]

/-- The unit word of an index has no other bit. -/
theorem getMsbD_unit {b : Bool} {i j : Nat} (hi : i < 32) :
    (Prefix.unit b i).getMsbD j = (b && decide (j = i)) := by
  have hone : ∀ k, (1 : Address).getMsbD k = decide (k = 31) := by
    intro k
    rw [show (1 : Address) = 1#32 from rfl, BitVec.getMsbD_one]
    simp
  cases b with
  | false => simp [Prefix.unit, shiftUp]
  | true =>
    simp only [Prefix.unit, shiftUp, if_true, BitVec.getMsbD_shiftLeft, hone, Bool.true_and,
      decide_eq_decide]
    omega

namespace Prefix

/-! ### Lengths and bits -/

/-- The length is the one that was asked for. -/
@[simp] theorem len_ofAddress (a : Address) (len : Nat) (h : len ≤ 32) :
    (ofAddress a len h).len = len := rfl

/-- The bits are those of the address that the length leaves. -/
theorem bits_ofAddress (a : Address) (len : Nat) (h : len ≤ 32) :
    (ofAddress a len h).bits = a &&& mask len := rfl

/-- A prefix is made from its own bits. -/
@[simp] theorem ofAddress_bits (p : Prefix) : ofAddress p.bits p.len p.len_le = p :=
  ext_bits rfl p.bits_mask

/-- The root has no bits. -/
@[simp] theorem len_root : root.len = 0 := rfl

/-- The beginning is as long as asked for, or as long as the prefix. -/
@[simp] theorem len_take (p : Prefix) (n : Nat) : (p.take n).len = min n p.len := rfl

/-- A child is one bit longer. -/
@[simp] theorem len_child (p : Prefix) (b : Bool) (h : p.len < 32) :
    (p.child b h).len = p.len + 1 := rfl

/-- A bit of a prefix is the bit of its word. -/
theorem bit_eq_getMsbD (p : Prefix) {i : Nat} (hi : i < 32) : p.bit i = p.bits.getMsbD i := by
  have hlast : p.bits.getMsbD i = (shiftDown p.bits (31 - i) (by omega)).getLsbD 0 := by
    rw [BitVec.getMsbD_eq_getLsbD, shiftDown, BitVec.getLsbD_ushiftRight]
    simp [hi]
  rw [hlast, bit]
  generalize shiftDown p.bits (31 - i) (by omega) = w
  have hone : w &&& 1 = if w.getLsbD 0 then 1#32 else 0#32 := by
    apply BitVec.eq_of_getLsbD_eq
    intro j hj
    rw [show (1 : Address) = 1#32 from rfl, BitVec.getLsbD_and, BitVec.getLsbD_one]
    by_cases h0 : j = 0
    · subst h0
      cases w.getLsbD 0 <;> rfl
    · cases w.getLsbD 0 <;> simp [h0]
  rw [hone]
  cases w.getLsbD 0 <;> rfl

/-- Below its length the word of a prefix has no bits. -/
theorem getMsbD_bits_of_len_le (p : Prefix) {i : Nat} (h : p.len ≤ i) :
    p.bits.getMsbD i = false := by
  by_cases hi : i < 32
  · rw [← p.bits_mask, BitVec.getMsbD_and, getMsbD_mask hi]
    simp [Nat.not_lt.mpr h]
  · exact BitVec.getMsbD_of_ge _ _ (Nat.not_lt.mp hi)

/-- **Prefixes are bit strings**: two of the same length with the same bits are equal. -/
theorem ext_bit {p q : Prefix} (hl : p.len = q.len) (hb : ∀ i < p.len, p.bit i = q.bit i) :
    p = q := by
  refine ext_bits hl (BitVec.eq_of_getMsbD_eq fun i hi => ?_)
  by_cases h : i < p.len
  · rw [← p.bit_eq_getMsbD hi, ← q.bit_eq_getMsbD hi, hb i h]
  · rw [p.getMsbD_bits_of_len_le (by omega), q.getMsbD_bits_of_len_le (by omega)]

/-- Only the root has length zero. -/
theorem eq_root_of_len {p : Prefix} (h : p.len = 0) : p = root :=
  ext_bit h fun i hi => by omega

/-- All other prefixes have a positive length. -/
theorem len_pos {p : Prefix} (h : p ≠ root) : 0 < p.len :=
  Nat.pos_of_ne_zero fun h0 => h (eq_root_of_len h0)

/-! ### Leading bits -/

/-- The bits of the beginning are those that its length leaves. -/
theorem bits_take (p : Prefix) (n : Nat) : (p.take n).bits = p.bits &&& mask (min n p.len) := rfl

/-- The beginning has the bits of the prefix. -/
theorem bit_take (p : Prefix) {n i : Nat} (hn : i < n) (hi : i < p.len) :
    (p.take n).bit i = p.bit i := by
  have h32 : i < 32 := Nat.lt_of_lt_of_le hi p.len_le
  rw [bit_eq_getMsbD _ h32, bit_eq_getMsbD _ h32, bits_take, BitVec.getMsbD_and, getMsbD_mask h32,
    decide_eq_true (Nat.lt_min.mpr ⟨hn, hi⟩), Bool.and_true]

/-- The beginning of a beginning is the shorter one of the two. -/
@[simp] theorem take_take (p : Prefix) (m n : Nat) : (p.take m).take n = p.take (min m n) := by
  apply ext_bits
  · simp only [len_take]; omega
  · simp only [bits_take, len_take, and_mask_and_mask]
    congr 2
    omega

/-- All leading bits are the prefix itself. -/
theorem take_of_len_le {p : Prefix} {n : Nat} (h : p.len ≤ n) : p.take n = p := by
  apply ext_bits
  · rw [len_take]; omega
  · rw [bits_take, Nat.min_eq_right h, p.bits_mask]

/-- A prefix is its own beginning of full length. -/
@[simp] theorem take_len (p : Prefix) : p.take p.len = p :=
  take_of_len_le (Nat.le_refl _)

/-! ### One bit more -/

/-- The bits of a child are those of the prefix and the new one. -/
theorem bits_child (p : Prefix) (b : Bool) (h : p.len < 32) :
    (p.child b h).bits = (p.bits ||| unit b p.len) &&& mask (p.len + 1) := rfl

/-- A child has the bits of the prefix. -/
theorem bit_child_of_lt (p : Prefix) (b : Bool) (h : p.len < 32) {i : Nat} (hi : i < p.len) :
    (p.child b h).bit i = p.bit i := by
  have h32 : i < 32 := by omega
  rw [bit_eq_getMsbD _ h32, bit_eq_getMsbD _ h32, bits_child, BitVec.getMsbD_and,
    BitVec.getMsbD_or, getMsbD_unit h, getMsbD_mask h32]
  simp [Nat.ne_of_lt hi, Nat.lt_succ_of_lt hi]

/-- The last bit of a child is the new one. -/
theorem bit_child_len (p : Prefix) (b : Bool) (h : p.len < 32) :
    (p.child b h).bit p.len = b := by
  rw [bit_eq_getMsbD _ h, bits_child, BitVec.getMsbD_and, BitVec.getMsbD_or, getMsbD_unit h,
    getMsbD_mask h, p.getMsbD_bits_of_len_le (Nat.le_refl _)]
  simp

end Prefix

end CidrCover
