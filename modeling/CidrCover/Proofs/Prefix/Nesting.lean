import CidrCover.Proofs.Prefix.Bits

/-!
# Nesting of prefixes

`p.contains q` says that `p` is a leading part of `q` (`contains_iff_take`). Containment is a
partial order with the root at its bottom, and the prefixes that contain a given one form a chain
(`contains_total`): this is what makes a set of prefixes a tree. A prefix other than the root has a
`parent`, the longest prefix strictly above it, and a prefix that lies strictly below another one
lies below exactly one of its two children; the other one is the `sibling` of the first.

**Blocks of addresses** (`contains_total_of_containsAddress`): two prefixes are nested, or no
address is in both.
-/

namespace CidrCover.Prefix

/-! ### Containment as an order -/

/-- A prefix contains another one if it is its leading part. -/
theorem contains_iff_take {p q : Prefix} : p.contains q = true ↔ q.take p.len = p := by
  unfold contains
  rw [Bool.and_eq_true, decide_eq_true_eq, beq_iff_eq]
  constructor
  · rintro ⟨hl, hb⟩
    refine ext_bits ?_ ?_
    · rw [len_take, Nat.min_eq_left hl]
    · rw [bits_take, Nat.min_eq_left hl, hb]
  · intro h
    have hl : p.len ≤ q.len := by
      have := congrArg len h
      rw [len_take] at this
      omega
    refine ⟨hl, ?_⟩
    have hb := congrArg bits h
    rwa [bits_take, Nat.min_eq_left hl] at hb

/-- The beginning of a prefix contains it. -/
theorem take_contains (p : Prefix) (n : Nat) : (p.take n).contains p := by
  rw [contains_iff_take, len_take]
  rcases Nat.le_total n p.len with h | h
  · rw [Nat.min_eq_left h]
  · rw [Nat.min_eq_right h, take_len, take_of_len_le h]

/-- Every prefix contains itself. -/
theorem contains_refl (p : Prefix) : p.contains p := by
  rw [contains_iff_take, take_len]

/-- The root contains every prefix. -/
theorem root_contains (p : Prefix) : root.contains p :=
  contains_iff_take.mpr (eq_root_of_len (by simp))

/-- What contains a prefix is no longer than it. -/
theorem len_le_of_contains {p q : Prefix} (h : p.contains q) : p.len ≤ q.len := by
  have := congrArg len (contains_iff_take.mp h)
  rw [len_take] at this
  omega

/-- What contains a prefix contains all that lies in that. -/
theorem contains_trans {p q r : Prefix} (hpq : p.contains q) (hqr : q.contains r) :
    p.contains r := by
  have hl := len_le_of_contains hpq
  rw [contains_iff_take] at hpq hqr ⊢
  calc r.take p.len = r.take (min q.len p.len) := by rw [Nat.min_eq_right hl]
    _ = (r.take q.len).take p.len := (take_take ..).symm
    _ = p := by rw [hqr, hpq]

/-- A prefix no longer than one that it contains is equal to it. -/
theorem eq_of_contains_of_len_le {p q : Prefix} (h : p.contains q) (hl : q.len ≤ p.len) :
    p = q := by
  rw [← contains_iff_take.mp h, take_of_len_le hl]

/-- Two prefixes that contain each other are the same. -/
theorem contains_antisymm {p q : Prefix} (hpq : p.contains q) (hqp : q.contains p) : p = q :=
  eq_of_contains_of_len_le hpq (len_le_of_contains hqp)

/-- **Prefixes above one prefix form a chain**: the shorter one contains the longer one. -/
theorem contains_of_len_le {p q r : Prefix} (hp : p.contains r) (hq : q.contains r)
    (hl : p.len ≤ q.len) : p.contains q := by
  rw [contains_iff_take] at hp hq ⊢
  rw [← hq, take_take, Nat.min_eq_right hl, hp]

/-- Of two prefixes that contain a third one, one contains the other: there are no partial overlaps.
-/
theorem contains_total {p q r : Prefix} (hp : p.contains r) (hq : q.contains r) :
    p.contains q ∨ q.contains p :=
  (Nat.le_total p.len q.len).imp (contains_of_len_le hp hq) (contains_of_len_le hq hp)

/-- What contains another prefix is shorter than that. -/
theorem len_lt_of_contains {p q : Prefix} (h : p.contains q) (hne : p ≠ q) : p.len < q.len :=
  Nat.lt_of_not_le fun hl => hne (eq_of_contains_of_len_le h hl)

/-- `p` contains `q` and is not `q`. -/
def Above (p q : Prefix) : Prop :=
  p.contains q ∧ p ≠ q

instance (p q : Prefix) : Decidable (p.Above q) :=
  inferInstanceAs (Decidable (_ ∧ _))

/-- What contains a prefix from above the latter is above all that it contains. -/
theorem Above.of_contains {p q r : Prefix} (h : p.Above q) (hqr : q.contains r) : p.Above r := by
  refine ⟨contains_trans h.1 hqr, ?_⟩
  rintro rfl
  exact h.2 (contains_antisymm h.1 hqr)

/-- No prefix is strictly above itself. -/
theorem not_above_self (p : Prefix) : ¬ p.Above p := fun h => h.2 rfl

/-- Nothing but the root contains the root. -/
theorem eq_root_of_contains_root {p : Prefix} (h : p.contains root) : p = root :=
  contains_antisymm h (root_contains p)

/-- Nothing is strictly above the root. -/
theorem not_above_root (p : Prefix) : ¬ p.Above root := fun h =>
  h.2 (eq_root_of_contains_root h.1)

/-! ### Parents -/

/-- The prefix one bit shorter; that of the root is the root. -/
def parent (p : Prefix) : Prefix :=
  p.take (p.len - 1)

/-- The root has no parent. -/
theorem parent?_root : root.parent? = none := rfl

/-- Every other prefix has one. -/
theorem parent?_eq_some {p : Prefix} (h : p ≠ root) : p.parent? = some p.parent := by
  unfold parent?
  rw [if_neg (Nat.ne_of_gt (len_pos h))]
  rfl

/-- The parent is one bit shorter. -/
theorem len_parent (p : Prefix) : p.parent.len = p.len - 1 := by
  unfold parent
  rw [len_take]
  omega

/-- The parent contains the prefix. -/
theorem parent_contains (p : Prefix) : p.parent.contains p :=
  take_contains p _

/-- The parent is another prefix. -/
theorem parent_ne {p : Prefix} (h : p ≠ root) : p.parent ≠ p := by
  intro he
  have hl := congrArg len he
  have := len_pos h
  rw [len_parent] at hl
  omega

/-- So the parent is strictly above. -/
theorem parent_above {p : Prefix} (h : p ≠ root) : p.parent.Above p :=
  ⟨parent_contains p, parent_ne h⟩

/-- What is strictly above a prefix contains its parent. -/
theorem contains_parent {p q : Prefix} (h : q.contains p) (hne : q ≠ p) :
    q.contains p.parent := by
  have := len_lt_of_contains h hne
  refine contains_of_len_le h (parent_contains p) ?_
  rw [len_parent]
  omega

/-- A prefix one bit longer than one that contains it is its child. -/
theorem parent_eq_of_contains {p q : Prefix} (h : q.contains p) (hl : p.len = q.len + 1) :
    p.parent = q := by
  unfold parent
  rw [hl, Nat.add_sub_cancel, contains_iff_take.mp h]

/-! ### Children -/

/-- `c` is the child of `p` along the bit `b`. -/
structure IsChild (p : Prefix) (b : Bool) (c : Prefix) : Prop where
  contains : p.contains c
  len_eq : c.len = p.len + 1
  bit_eq : c.bit p.len = b

namespace IsChild

variable {p c d : Prefix} {a b : Bool}

/-- The root is nobody's child. -/
theorem ne_root (h : IsChild p b c) : c ≠ root := by
  rintro rfl
  have := h.len_eq
  simp at this

/-- No prefix is a child of its own. -/
theorem ne (h : IsChild p b c) : p ≠ c := by
  rintro rfl
  have := h.len_eq
  omega

/-- The parent of a child is the prefix that it is a child of. -/
theorem parent_eq (h : IsChild p b c) : c.parent = p :=
  parent_eq_of_contains h.contains h.len_eq

/-- There is one child along a bit. -/
theorem unique (hc : IsChild p b c) (hd : IsChild p b d) : c = d := by
  apply ext_bit (hc.len_eq.trans hd.len_eq.symm)
  intro i hi
  have hlen := hc.len_eq
  rcases Nat.lt_or_ge i p.len with hip | hip
  · rw [← bit_take c hip (by omega), ← bit_take d hip (by rw [hd.len_eq]; omega),
      contains_iff_take.mp hc.contains, contains_iff_take.mp hd.contains]
  · obtain rfl : i = p.len := by omega
    rw [hc.bit_eq, hd.bit_eq]

end IsChild

/-- One bit more makes a child. -/
theorem isChild_child (p : Prefix) (b : Bool) (h : p.len < 32) : IsChild p b (p.child b h) := by
  refine ⟨contains_iff_take.mpr (ext_bit ?_ ?_), p.len_child b h, p.bit_child_len b h⟩
  · rw [len_take, len_child]
    omega
  · intro i hi
    rw [len_take, len_child] at hi
    have hip : i < p.len := by omega
    rw [bit_take _ hip (by rw [len_child]; omega), bit_child_of_lt p b h hip]

/-- To extend a prefix is to go to its child, if it has one. -/
theorem IsChild.extend_eq {p c : Prefix} {b : Bool} (h : IsChild p b c) : p.extend b = c := by
  have hlen : p.len < 32 := by
    have hc := c.len_le
    rw [h.len_eq] at hc
    exact hc
  rw [extend, dif_pos hlen]
  exact (isChild_child p b hlen).unique h

/-- The child along a bit, as the next node on the way down to a prefix further below. -/
theorem isChild_take {p q : Prefix} (h : p.contains q) (hne : p ≠ q) :
    IsChild p (q.bit p.len) (q.take (p.len + 1)) := by
  have hlt := len_lt_of_contains h hne
  refine ⟨contains_of_len_le h (take_contains q _) ?_, ?_, bit_take q (Nat.lt_succ_self _) hlt⟩
  · rw [len_take]; omega
  · rw [len_take]; omega

/-- Every prefix but the root is the child of its parent along its last bit. -/
theorem isChild_parent {p : Prefix} (h : p ≠ root) :
    IsChild p.parent (p.bit p.parent.len) p := by
  have := len_pos h
  exact ⟨parent_contains p, by rw [len_parent]; omega, rfl⟩

/-- The other child of the parent. -/
def sibling (p : Prefix) : Prefix :=
  p.parent.child (!p.bit p.parent.len) (by have := p.len_le; rw [len_parent]; omega)

/-- The sibling is a child of the same parent, along the other bit. -/
theorem isChild_sibling (p : Prefix) : IsChild p.parent (!p.bit p.parent.len) p.sibling :=
  isChild_child _ _ _

/-- The children of a parent are a prefix and its sibling. -/
theorem IsChild.eq_or_eq_sibling {p c : Prefix} {b : Bool} (h : IsChild p.parent b c)
    (hp : p ≠ root) : c = p ∨ c = p.sibling := by
  by_cases hb : b = p.bit p.parent.len
  · subst hb
    exact Or.inl (h.unique (isChild_parent hp))
  · rw [Bool.eq_not.mpr hb] at h
    exact Or.inr (h.unique p.isChild_sibling)

/-- No prefix is its own sibling. -/
theorem sibling_ne (p : Prefix) : p.sibling ≠ p := by
  intro he
  have hbit := p.isChild_sibling.bit_eq
  rw [he] at hbit
  simp at hbit

/-- What lies below a child along a bit has that bit. -/
theorem IsChild.bit_of_contains {p c q : Prefix} {b : Bool} (h : IsChild p b c)
    (hq : c.contains q) : q.bit p.len = b := by
  have hl := len_le_of_contains hq
  have hc := h.len_eq
  rw [← h.bit_eq, ← contains_iff_take.mp hq, bit_take q (by omega) (by omega)]

/-! ### Addresses -/

/-- The addresses of a prefix are addresses of all that contains it. -/
theorem containsAddress_of_contains {p q : Prefix} (h : p.contains q) {a : Address}
    (ha : q.containsAddress a) : p.containsAddress a := by
  have hl := len_le_of_contains h
  have hb : p.bits = q.bits &&& mask p.len := by
    have := congrArg bits (contains_iff_take.mp h)
    rw [bits_take, Nat.min_eq_left hl] at this
    exact this.symm
  unfold containsAddress at ha ⊢
  rw [beq_iff_eq] at ha ⊢
  rw [hb, ← ha, and_mask_and_mask, Nat.min_eq_right hl]

/-- The prefix of a single address. -/
def host (a : Address) : Prefix :=
  ofAddress a 32 (Nat.le_refl 32)

/-- An address is in a prefix if that contains the prefix of all its bits. -/
theorem containsAddress_iff {p : Prefix} {a : Address} :
    p.containsAddress a ↔ p.contains (host a) := by
  have hbits : (host a).bits &&& mask p.len = a &&& mask p.len := by
    rw [host, ofAddress, and_mask_and_mask, Nat.min_eq_right p.len_le]
  unfold containsAddress contains
  rw [hbits, host, len_ofAddress, decide_eq_true p.len_le, Bool.true_and]

/-- **Blocks are nested or apart**: an address in two prefixes makes one contain the other. -/
theorem contains_total_of_containsAddress {p q : Prefix} {a : Address}
    (hp : p.containsAddress a) (hq : q.containsAddress a) : p.contains q ∨ q.contains p :=
  contains_total (containsAddress_iff.mp hp) (containsAddress_iff.mp hq)

/-! ### Sizes -/

/-- The parent is twice as large. -/
theorem size_parent {p : Prefix} (h : p ≠ root) : p.parent.size = p.size + p.size := by
  have h0 := len_pos h
  have h32 := p.len_le
  have hsub : 32 - p.parent.len = (32 - p.len) + 1 := by rw [len_parent]; omega
  unfold size
  rw [hsub, Nat.pow_eq, Nat.pow_eq, Nat.pow_succ]
  omega

/-- Prefixes of one length are of one size. -/
theorem size_eq_of_len_eq {p q : Prefix} (h : p.len = q.len) : p.size = q.size := by
  unfold size
  rw [h]

end CidrCover.Prefix
