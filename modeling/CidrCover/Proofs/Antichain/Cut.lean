import CidrCover.Proofs.Antichain.Folding

/-!
# Folding is cutting

Folds go from the longest members to shorter ones, and among equally long members from the greatest
value down. So the last fold alone tells what has become of every member: `c.cut d` is what is left
of `d` when the last fold went into `c`. Members no longer than `c` are as they were; longer ones
are cut to the length of `c`, if that part of them is `c` or comes after it, and to one bit more if
it comes before `c`.

* **A fold is a cut further up** (`Antichain.fold_eq_image_cut`): folding an antichain that a cut
  has left of another one leaves of that what the cut at the parent of the greatest member does.
-/

namespace CidrCover

/-! ### Cuts -/

namespace Prefix

variable {c d : Prefix}

/-- What is left of `d` when the last fold went into `c`. -/
def cut (c d : Prefix) : Prefix :=
  if d.len ≤ c.len then d
  else if c.bits ≤ (d.take c.len).bits then d.take c.len
  else d.take (c.len + 1)

/-- What is not longer than the leaf of the cut stays as it is. -/
theorem cut_of_len_le (h : d.len ≤ c.len) : c.cut d = d := by
  unfold cut
  rw [if_pos h]

/-- A longer prefix is cut to the length of the leaf if it does not come before it. -/
theorem cut_of_bits_le (h : c.len < d.len) (hbits : c.bits ≤ (d.take c.len).bits) :
    c.cut d = d.take c.len := by
  unfold cut
  rw [if_neg (Nat.not_le.mpr h), if_pos hbits]

/-- A longer prefix that comes before it keeps one bit more. -/
theorem cut_of_bits_lt (h : c.len < d.len) (hbits : (d.take c.len).bits < c.bits) :
    c.cut d = d.take (c.len + 1) := by
  unfold cut
  rw [if_neg (Nat.not_le.mpr h), if_neg (BitVec.not_le.mpr hbits)]

/-- The three cases of a cut. -/
theorem cut_cases (c d : Prefix) :
    d.len ≤ c.len ∧ c.cut d = d ∨
      c.len < d.len ∧ c.bits ≤ (d.take c.len).bits ∧ c.cut d = d.take c.len ∨
      c.len < d.len ∧ (d.take c.len).bits < c.bits ∧ c.cut d = d.take (c.len + 1) := by
  rcases Nat.lt_or_ge c.len d.len with h | h
  · by_cases hbits : c.bits ≤ (d.take c.len).bits
    · exact Or.inr (Or.inl ⟨h, hbits, cut_of_bits_le h hbits⟩)
    · have hlt := BitVec.not_le.mp hbits
      exact Or.inr (Or.inr ⟨h, hlt, cut_of_bits_lt h hlt⟩)
  · exact Or.inl ⟨h, cut_of_len_le h⟩

/-- What has been cut contains what it was. -/
theorem cut_contains (c d : Prefix) : (c.cut d).contains d := by
  rcases cut_cases c d with ⟨-, he⟩ | ⟨-, -, he⟩ | ⟨-, -, he⟩
  · rw [he]
    exact d.contains_refl
  · rw [he]
    exact take_contains d _
  · rw [he]
    exact take_contains d _

/-- What has been cut is longer than the leaf of the cut by one bit at most. -/
theorem len_cut_le (c d : Prefix) : (c.cut d).len ≤ c.len + 1 := by
  rcases cut_cases c d with ⟨h, he⟩ | ⟨-, -, he⟩ | ⟨-, -, he⟩
  · rw [he]
    exact Nat.le_succ_of_le h
  · rw [he, len_take]
    omega
  · rw [he, len_take]
    omega

/-- What is left with one bit more than `c` has comes before `c`. -/
theorem bits_parent_cut_lt (h : (c.cut d).len = c.len + 1) : (c.cut d).parent.bits < c.bits := by
  rcases cut_cases c d with ⟨hlen, he⟩ | ⟨-, -, he⟩ | ⟨-, hbits, he⟩
  · rw [he] at h
    omega
  · rw [he, len_take] at h
    omega
  · have hparent : (c.cut d).parent = d.take c.len := by
      rw [parent, h, he, take_take, Nat.add_sub_cancel, Nat.min_eq_right (Nat.le_succ _)]
    rwa [hparent]

end Prefix

/-! ### Folds of what a cut has left -/

namespace Antichain

variable {S D : Antichain} {c d q : Prefix}

/-- A member as long as the greatest one is cut at the parent of that if the parent contains it, and
is kept otherwise. It does not come after the greatest member, so its own parent does not come after
the other one. -/
theorem cut_parent_of_len_eq (h : S.Foldable) (hq : q ∈ S.members) (hqd : q.contains d)
    (hlen : q.len = (S.greatest h).len) :
    (S.greatest h).parent.cut d =
      if (S.greatest h).parent.contains q then (S.greatest h).parent else q := by
  have hpar := (S.greatest h).len_parent
  have hpos := Prefix.len_pos (greatest_ne_root h)
  have hqdlen := Prefix.len_le_of_contains hqd
  have hlong : (S.greatest h).parent.len < d.len := by omega
  have htake : d.take (S.greatest h).parent.len = q.take (S.greatest h).parent.len := by
    rw [← Prefix.contains_iff_take.mp hqd, Prefix.take_take, Nat.min_eq_right (by omega)]
  have hle : (q.take (S.greatest h).parent.len).bits ≤ (S.greatest h).parent.bits := by
    have hbits := Prefix.bits_take_le hlen (le_greatest h hq) (S.greatest h).parent.len
    rwa [Prefix.contains_iff_take.mp (S.greatest h).parent_contains] at hbits
  split_ifs with hcontains
  · rw [Prefix.contains_iff_take] at hcontains
    rw [Prefix.cut_of_bits_le hlong, htake, hcontains]
    rw [htake, hcontains]
    exact BitVec.le_refl _
  · have hlt : (d.take (S.greatest h).parent.len).bits < (S.greatest h).parent.bits := by
      rw [htake]
      refine BitVec.lt_of_le_ne hle fun hbits => hcontains ?_
      rw [Prefix.contains_iff_take]
      refine Prefix.ext_bits ?_ hbits
      rw [Prefix.len_take]
      omega
    have hsucc : (S.greatest h).parent.len + 1 = q.len := by omega
    rw [Prefix.cut_of_bits_lt hlong hlt, hsucc, Prefix.contains_iff_take.mp hqd]

/-- A shorter member is kept. It is not below the parent of the greatest one; and if the first cut
has shortened it, then to the length of that parent, which comes before the place of that cut. -/
theorem cut_parent_of_len_lt (hcut : S.members = D.members.image c.cut) (h : S.Foldable)
    (hd : c.cut d ∈ S.members) (hlt : (c.cut d).len < (S.greatest h).len) :
    (S.greatest h).parent.cut d =
      if (S.greatest h).parent.contains (c.cut d) then (S.greatest h).parent else c.cut d := by
  have hpar := (S.greatest h).len_parent
  obtain ⟨e, -, he⟩ := Finset.mem_image.mp (hcut ▸ greatest_mem h)
  have hmax : (S.greatest h).len ≤ c.len + 1 := he ▸ Prefix.len_cut_le c e
  have hnot : ¬ (S.greatest h).parent.contains (c.cut d) := by
    intro hcontains
    apply not_holds_parent_greatest h
    rw [Prefix.eq_of_contains_of_len_le hcontains (by omega)]
    exact holds_of_mem hd
  rw [if_neg hnot]
  rcases Prefix.cut_cases c d with ⟨-, hcd⟩ | ⟨hlong, hbits, hcd⟩ | ⟨hlong, -, hcd⟩
  · rw [hcd] at hlt ⊢
    exact Prefix.cut_of_len_le (by omega)
  · have hlen : (c.cut d).len = c.len := by
      rw [hcd, Prefix.len_take, Nat.min_eq_left (Nat.le_of_lt hlong)]
    have hbefore : (S.greatest h).parent.bits < c.bits := by
      rw [← he] at hmax hlt ⊢
      exact Prefix.bits_parent_cut_lt (by omega)
    have hsame : (S.greatest h).parent.len = c.len := by omega
    rw [hcd]
    rw [← hsame] at hlong hbits ⊢
    exact Prefix.cut_of_bits_le hlong (BitVec.le_trans (BitVec.le_of_lt hbefore) hbits)
  · rw [hcd, Prefix.len_take] at hlt
    omega

/-- What the cut at the parent of the greatest member makes of the first antichain, by what the
cut before it has made. -/
theorem cut_parent (hcut : S.members = D.members.image c.cut) (h : S.Foldable)
    (hd : d ∈ D.members) :
    (S.greatest h).parent.cut d =
      if (S.greatest h).parent.contains (c.cut d) then (S.greatest h).parent else c.cut d := by
  have hmem : c.cut d ∈ S.members := hcut ▸ Finset.mem_image_of_mem c.cut hd
  rcases Nat.lt_or_ge (c.cut d).len (S.greatest h).len with hlt | hge
  · exact cut_parent_of_len_lt hcut h hmem hlt
  · have hle := Prefix.len_le_of_le (le_greatest h hmem)
    exact cut_parent_of_len_eq h hmem (Prefix.cut_contains c d) (Nat.le_antisymm hle hge)

/-- **A fold is a cut further up.** -/
theorem fold_eq_image_cut (hcut : S.members = D.members.image c.cut) (h : S.Foldable) :
    (S.fold h).members = D.members.image (S.greatest h).parent.cut := by
  ext q
  rw [mem_fold, Finset.mem_image]
  constructor
  · rintro (rfl | ⟨hq, hnot⟩)
    · obtain ⟨d, hd, hgreatest⟩ := Finset.mem_image.mp (hcut ▸ greatest_mem h)
      refine ⟨d, hd, ?_⟩
      rw [cut_parent hcut h hd, hgreatest, if_pos (S.greatest h).parent_contains]
    · obtain ⟨d, hd, rfl⟩ := Finset.mem_image.mp (hcut ▸ hq)
      exact ⟨d, hd, by rw [cut_parent hcut h hd, if_neg hnot]⟩
  · rintro ⟨d, hd, rfl⟩
    rw [cut_parent hcut h hd]
    split_ifs with hcontains
    · exact Or.inl rfl
    · exact Or.inr ⟨hcut ▸ Finset.mem_image_of_mem c.cut hd, hcontains⟩

/-- A cut at full length leaves everything as it is. -/
theorem members_eq_image_cut (D : Antichain) (a : Address) :
    D.members = D.members.image (Prefix.host a).cut := by
  have hid : ∀ d ∈ D.members, (Prefix.host a).cut d = d := fun d _ =>
    Prefix.cut_of_len_le d.len_le
  rw [Finset.image_congr hid, Finset.image_id']

end Antichain

end CidrCover
