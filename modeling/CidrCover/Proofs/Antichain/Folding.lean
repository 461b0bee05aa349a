import CidrCover.Proofs.Antichain.Basic

/-!
# Folding antichains

An antichain with a member other than the root can be *folded*: its greatest member, and whatever
else its parent contains, gives way to that parent. A `SetReduction` is an antichain with the number
of folds made so far. It is the specification of a reduction: two lines a step, no trie and no
table.

* A fold takes in at most one other member, the sibling (`card_fold_le`,
  `card_le_card_fold_add_one`): the greatest member is one of the longest, so all that its parent
  contains is as long as it is. It takes in the sibling just if it lowers the number of members
  (`exists_isChild_of_card_lt`).
* It holds what was held (`holds_fold`), and its members cover no fewer addresses
  (`addresses_le_addresses_fold`).
* `SetReduction.reduce` repeats steps until one answers `done`; every fold shortens the members, so
  it ends, and where it stops no fold is left to make (`finished_reduce`).
-/

namespace CidrCover

namespace Antichain

variable {S : Antichain} {p q : Prefix}

/-! ### One fold -/

/-- Some member is not the root. -/
def Foldable (S : Antichain) : Prop :=
  ∃ p ∈ S.members, p ≠ Prefix.root

/-- What can be folded has members. -/
theorem Foldable.nonempty (h : S.Foldable) : S.members.Nonempty := by
  obtain ⟨p, hp, -⟩ := h
  exact ⟨p, hp⟩

/-- The greatest member. -/
def greatest (S : Antichain) (h : S.Foldable) : Prefix :=
  S.members.max' h.nonempty

/-- The greatest member is a member. -/
theorem greatest_mem (h : S.Foldable) : S.greatest h ∈ S.members :=
  S.members.max'_mem _

/-- No member is greater than the greatest one. -/
theorem le_greatest (h : S.Foldable) (hp : p ∈ S.members) : p ≤ S.greatest h :=
  S.members.le_max' p hp

/-- Beside the root there is no other member. -/
theorem eq_root_of_root_mem (h : Prefix.root ∈ S.members) (hp : p ∈ S.members) :
    p = Prefix.root :=
  (S.eq_of_contains h hp p.root_contains).symm

/-- If there is something to fold then the greatest member is not the root. -/
theorem greatest_ne_root (h : S.Foldable) : S.greatest h ≠ Prefix.root := by
  intro he
  obtain ⟨p, hp, hne⟩ := h
  exact hne (eq_root_of_root_mem (he ▸ greatest_mem _) hp)

/-- What contains the parent of a member would contain the member. -/
theorem not_holds_parent (hp : p ∈ S.members) (hne : p ≠ Prefix.root) : ¬ S.Holds p.parent := by
  intro h
  exact Prefix.parent_ne hne (eq_of_holds_of_contains hp h p.parent_contains)

/-- The parent of the greatest member lies in no member. -/
theorem not_holds_parent_greatest (h : S.Foldable) : ¬ S.Holds (S.greatest h).parent :=
  not_holds_parent (greatest_mem h) (greatest_ne_root h)

/-- The parent lies strictly above the greatest member. -/
theorem parent_greatest_above (h : S.Foldable) : (S.greatest h).parent.Above (S.greatest h) :=
  Prefix.parent_above (greatest_ne_root h)

/-- The greatest member folded into its parent, with all else that the parent contains. -/
def fold (S : Antichain) (h : S.Foldable) : Antichain :=
  S.widen (S.greatest h).parent (not_holds_parent_greatest h)

/-- After a fold the members are the parent and those that do not lie in it. -/
theorem mem_fold (h : S.Foldable) :
    q ∈ (S.fold h).members ↔
      q = (S.greatest h).parent ∨ q ∈ S.members ∧ ¬ (S.greatest h).parent.contains q :=
  mem_widen

/-- What was held is held after a fold. -/
theorem holds_fold (h : S.Foldable) (hp : S.Holds p) : (S.fold h).Holds p :=
  holds_widen.mpr (Or.inl hp)

/-- The members of which a fold disposes. -/
def folded (S : Antichain) (h : S.Foldable) : Finset Prefix :=
  S.members.filter fun q => (S.greatest h).parent.contains q

/-- The greatest member is among those that are folded. -/
theorem greatest_mem_folded (h : S.Foldable) : S.greatest h ∈ S.folded h :=
  Finset.mem_filter.mpr ⟨greatest_mem h, Prefix.parent_contains _⟩

/-- **Longest first**: a folded member is a child of the parent, as the greatest member is. -/
theorem isChild_of_mem_folded (h : S.Foldable) (hq : q ∈ S.folded h) :
    (S.greatest h).parent.IsChild (q.bit (S.greatest h).parent.len) q := by
  obtain ⟨hqS, hcq⟩ := Finset.mem_filter.mp hq
  have hpar : (S.greatest h).parent ∉ S.members := fun hmem =>
    not_holds_parent_greatest h (holds_of_mem hmem)
  have hlt := Prefix.len_lt_of_contains hcq fun he => hpar (he ▸ hqS)
  have hle := Prefix.len_le_of_le (le_greatest h hqS)
  have hlen := (S.greatest h).len_parent
  exact ⟨hcq, by omega, rfl⟩

/-- The folded members differ in the bit after the parent. -/
theorem injOn_bit_folded (h : S.Foldable) :
    Set.InjOn (fun q : Prefix => q.bit (S.greatest h).parent.len) (S.folded h) := by
  intro q hq r hr hqr
  have hbit : q.bit (S.greatest h).parent.len = r.bit (S.greatest h).parent.len := hqr
  have hcr := isChild_of_mem_folded h hr
  rw [← hbit] at hcr
  exact (isChild_of_mem_folded h hq).unique hcr

/-- Two members at most: one along either bit. -/
theorem card_folded_le (h : S.Foldable) : (S.folded h).card ≤ 2 :=
  Finset.card_le_card_of_injOn (t := Finset.univ) _ (fun _ _ => Finset.mem_univ _)
    (injOn_bit_folded h)

/-- A fold takes in one member at least. -/
theorem one_le_card_folded (h : S.Foldable) : 1 ≤ (S.folded h).card :=
  Finset.card_pos.mpr ⟨_, greatest_mem_folded h⟩

/-- The sum of a quantity over the parent and the members that it replaces. -/
theorem sum_fold (f : Prefix → Nat) (h : S.Foldable) :
    ∑ q ∈ (S.fold h).members, f q + ∑ q ∈ S.folded h, f q =
      ∑ q ∈ S.members, f q + f (S.greatest h).parent :=
  sum_widen f _

/-- A fold takes in members and puts one in their place. -/
theorem card_fold_add_card_folded (h : S.Foldable) :
    (S.fold h).members.card + (S.folded h).card = S.members.card + 1 := by
  simpa only [Finset.card_eq_sum_ones] using sum_fold (fun _ => 1) h

/-- A fold does not add to the number of members. -/
theorem card_fold_le (h : S.Foldable) : (S.fold h).members.card ≤ S.members.card := by
  have := card_fold_add_card_folded h
  have := one_le_card_folded h
  omega

/-- A fold takes in at most one other member. -/
theorem card_le_card_fold_add_one (h : S.Foldable) :
    S.members.card ≤ (S.fold h).members.card + 1 := by
  have := card_fold_add_card_folded h
  have := card_folded_le h
  omega

/-- A fold that lowers the number of members takes in both children of the parent. -/
theorem exists_isChild_of_card_lt (h : S.Foldable)
    (hlt : (S.fold h).members.card < S.members.card) (b : Bool) :
    ∃ q ∈ S.members, (S.greatest h).parent.IsChild b q := by
  have hcard := card_fold_add_card_folded h
  have htwo : Fintype.card Bool ≤
      ((S.folded h).image fun q => q.bit (S.greatest h).parent.len).card := by
    rw [Finset.card_image_of_injOn (injOn_bit_folded h), Fintype.card_bool]
    omega
  have hall := Finset.eq_univ_of_card _ (Nat.le_antisymm (Finset.card_le_univ _) htwo)
  obtain ⟨q, hq, hbit⟩ := Finset.mem_image.mp (hall ▸ Finset.mem_univ b)
  exact ⟨q, (Finset.mem_filter.mp hq).1, hbit ▸ isChild_of_mem_folded h hq⟩

/-! ### Measures of a fold -/

/-- The lengths of the members together. -/
def totalLength (S : Antichain) : Nat :=
  ∑ q ∈ S.members, q.len

/-- The addresses of the members together. -/
def addresses (S : Antichain) : Nat :=
  ∑ q ∈ S.members, q.size

/-- A fold makes the members shorter altogether. -/
theorem totalLength_fold_lt (h : S.Foldable) : (S.fold h).totalLength < S.totalLength := by
  have hsum := sum_fold Prefix.len h
  have hle : (S.greatest h).len ≤ ∑ q ∈ S.folded h, q.len :=
    Finset.single_le_sum_of_canonicallyOrdered (greatest_mem_folded h)
  have hlen := (S.greatest h).len_parent
  have hpos := Prefix.len_pos (greatest_ne_root h)
  unfold totalLength
  omega

/-- The parent has room for all members that it replaces. -/
theorem addresses_le_addresses_fold (h : S.Foldable) : S.addresses ≤ (S.fold h).addresses := by
  have hsum := sum_fold Prefix.size h
  have hsize : ∀ q ∈ S.folded h, q.size = (S.greatest h).size := by
    intro q hq
    have hlen := (isChild_of_mem_folded h hq).len_eq
    have hgreatest := (isChild_of_mem_folded h (greatest_mem_folded h)).len_eq
    exact Prefix.size_eq_of_len_eq (hlen.trans hgreatest.symm)
  have hle : ∑ q ∈ S.folded h, q.size ≤ (S.greatest h).parent.size := by
    calc ∑ q ∈ S.folded h, q.size = (S.folded h).card * (S.greatest h).size :=
          Finset.sum_const_nat hsize
      _ ≤ 2 * (S.greatest h).size := Nat.mul_le_mul_right _ (card_folded_le h)
      _ = (S.greatest h).parent.size := by
          rw [Prefix.size_parent (greatest_ne_root h), Nat.two_mul]
  unfold addresses
  omega

/-! ### The end of folding -/

/-- There are no more members than allowed, or only the root. -/
def Finished (S : Antichain) (n : Nat) : Prop :=
  S.members.card ≤ n ∨ S.members = {Prefix.root}

instance (S : Antichain) (n : Nat) : Decidable (S.Finished n) :=
  inferInstanceAs (Decidable (_ ∨ _))

/-- Where there are more members than the budget allows, and other ones than the root, there is
something to fold. -/
theorem foldable_of_not_finished {n : Nat} (h : ¬ S.Finished n) : S.Foldable := by
  rw [Finished, not_or, not_le] at h
  obtain ⟨hcard, hne⟩ := h
  by_contra hfold
  have hall : ∀ p ∈ S.members, p = Prefix.root := fun p hp =>
    by_contra fun hp0 => hfold ⟨p, hp, hp0⟩
  obtain ⟨p, hp⟩ := Finset.card_pos.mp (Nat.zero_lt_of_lt hcard)
  exact hne (Finset.eq_singleton_iff_unique_mem.mpr ⟨hall p hp ▸ hp, hall⟩)

/-- What is finished for a budget is finished for a greater one. -/
theorem Finished.mono {m n : Nat} (h : S.Finished m) (hmn : m ≤ n) : S.Finished n :=
  h.imp_left fun hm => Nat.le_trans hm hmn

end Antichain

/-! ### The specification of a reduction -/

/-- The answer to a step: it has made a fold, or there was none to make. -/
inductive Progress where
  | reducing
  | done
  deriving DecidableEq, Repr

/-- A set of prefixes without nesting, with the number of folds so far. -/
@[ext] structure SetReduction where
  blocks : Antichain
  folds : Nat

namespace SetReduction

variable {m n : Nat} {s t : SetReduction}

/-- The empty set. -/
def empty : SetReduction := ⟨.empty, 0⟩

/-- Adds a prefix to the set. -/
def add (s : SetReduction) (p : Prefix) : SetReduction :=
  { s with blocks := s.blocks.add p }

/-- The set of the given prefixes, less those that lie in another. -/
def ofPrefixes (ps : List Prefix) : SetReduction :=
  ps.foldl add empty

/-- Prefixes that are added one after another are added to the set, and no fold is counted. -/
theorem foldl_add (ps : List Prefix) (s : SetReduction) :
    ps.foldl add s = ⟨ps.foldl Antichain.add s.blocks, s.folds⟩ := by
  induction ps generalizing s with
  | nil => rfl
  | cons p ps ih => exact ih (s.add p)

/-- A list of prefixes makes the set of them, without a fold. -/
theorem ofPrefixes_eq (ps : List Prefix) : ofPrefixes ps = ⟨.ofList ps, 0⟩ :=
  foldl_add ps empty

/-- The members that a list comes to are its maximal prefixes. -/
theorem members_ofPrefixes (ps : List Prefix) :
    (ofPrefixes ps).blocks.members = Antichain.maximal ps := by
  rw [ofPrefixes_eq, Antichain.members_ofList]

/-- Folds the greatest member, and counts it. -/
def fold (s : SetReduction) (h : s.blocks.Foldable) : SetReduction where
  blocks := s.blocks.fold h
  folds := s.folds + 1

/-- Folds if there are more than `n` members and one of them is not the root. -/
def step (n : Nat) (s : SetReduction) : SetReduction × Progress :=
  if h : s.blocks.Finished n then (s, .done)
  else (s.fold (Antichain.foldable_of_not_finished h), .reducing)

/-- At the end of folding a step changes nothing. -/
theorem step_of_finished (h : s.blocks.Finished n) : s.step n = (s, .done) := by
  unfold step
  rw [dif_pos h]

/-- Before the end of folding a step is a fold. -/
theorem step_of_not_finished (h : ¬ s.blocks.Finished n) :
    s.step n = (s.fold (Antichain.foldable_of_not_finished h), .reducing) := by
  unfold step
  rw [dif_neg h]

/-- A step that folds makes the members shorter altogether. -/
theorem totalLength_of_step_eq (h : s.step n = (t, .reducing)) :
    t.blocks.totalLength < s.blocks.totalLength := by
  by_cases hf : s.blocks.Finished n
  · rw [step_of_finished hf] at h
    cases h
  · rw [step_of_not_finished hf] at h
    cases h
    exact Antichain.totalLength_fold_lt _

/-- Makes steps until one answers that it is done. -/
def reduce (n : Nat) (s : SetReduction) : SetReduction :=
  match _h : s.step n with
  | (t, .done) => t
  | (t, .reducing) => reduce n t
termination_by s.blocks.totalLength
decreasing_by exact totalLength_of_step_eq _h

/-- At the end of folding reducing changes nothing. -/
theorem reduce_of_finished (h : s.blocks.Finished n) : s.reduce n = s := by
  have hs := step_of_finished h
  rw [reduce]
  split
  · next ht => rw [hs] at ht; cases ht; rfl
  · next ht => rw [hs] at ht; cases ht

/-- Before the end of folding, reducing is a fold and reducing what that leaves. -/
theorem reduce_of_not_finished (h : ¬ s.blocks.Finished n) :
    s.reduce n = (s.fold (Antichain.foldable_of_not_finished h)).reduce n := by
  have hs := step_of_not_finished h
  rw [reduce]
  split
  · next ht => rw [hs] at ht; cases ht
  · next ht => rw [hs] at ht; cases ht; rfl

/-- **Folding carries over to reducing**: what holds at the end of folding, and of a state if it
does of the state after a fold, holds of every state. -/
theorem reduce_induction (n : Nat) {motive : SetReduction → Prop}
    (finished : ∀ s : SetReduction, s.blocks.Finished n → motive s)
    (fold : ∀ (s : SetReduction) (h : ¬ s.blocks.Finished n),
      motive (s.fold (Antichain.foldable_of_not_finished h)) → motive s)
    (s : SetReduction) : motive s := by
  induction hlen : s.blocks.totalLength using Nat.strong_induction_on generalizing s with
  | _ k ih =>
    by_cases h : s.blocks.Finished n
    · exact finished s h
    · refine fold s h (ih _ ?_ _ rfl)
      rw [← hlen]
      exact Antichain.totalLength_fold_lt _

/-- **The end of reducing**: no more members than allowed, or only the root. -/
theorem finished_reduce (n : Nat) (s : SetReduction) : (s.reduce n).blocks.Finished n := by
  induction s using reduce_induction n with
  | finished s h => rwa [reduce_of_finished h]
  | fold s h ih => rwa [reduce_of_not_finished h]

/-- What was held is held after reducing. -/
theorem holds_reduce {p : Prefix} (n : Nat) (s : SetReduction) (hp : s.blocks.Holds p) :
    (s.reduce n).blocks.Holds p := by
  induction s using reduce_induction n with
  | finished s h => rwa [reduce_of_finished h]
  | fold s h ih =>
    rw [reduce_of_not_finished h]
    exact ih (Antichain.holds_fold _ hp)

end SetReduction

end CidrCover
