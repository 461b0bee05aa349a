import CidrCover.Proofs.Prefix.Order
import Mathlib.Algebra.Order.BigOperators.Group.Finset

/-!
# Sets of prefixes without nesting

An `Antichain` is a finite set of prefixes none of which contains another one. It *holds* a prefix
if a member contains that. `widen` puts a prefix that is not held in the place of all members that
it contains, and `add` does so unless the prefix is held already; both say in one line what they do
to the prefixes that are held (`holds_widen`, `holds_add`).

* At most one member contains a given prefix (`eq_of_contains_of_contains`) or a given address
  (`eq_of_containsAddress`).
* **Adding a list leaves its maximal elements** (`members_ofList`), whatever its order and its
  repetitions: an antichain is determined by the prefixes that it holds (`eq_of_holds_iff`), so
  lists that cover the same leave the same (`maximal_congr`).
-/

namespace CidrCover

/-- A finite set of prefixes none of which contains another one. -/
structure Antichain where
  members : Finset Prefix
  eq_of_contains : ∀ {p q}, p ∈ members → q ∈ members → p.contains q → p = q

namespace Antichain

variable {S : Antichain} {p q r : Prefix}

/-- Sets with the same members are the same. -/
@[ext] theorem ext {S T : Antichain} (h : S.members = T.members) : S = T := by
  cases S
  cases T
  subst h
  rfl

/-- The empty set. -/
def empty : Antichain where
  members := ∅
  eq_of_contains hp := absurd hp (Finset.notMem_empty _)

/-- A member contains the prefix. -/
def Holds (S : Antichain) (p : Prefix) : Prop :=
  ∃ q ∈ S.members, q.contains p

instance (S : Antichain) (p : Prefix) : Decidable (S.Holds p) :=
  inferInstanceAs (Decidable (∃ q ∈ S.members, q.contains p))

/-- A set holds its members. -/
theorem holds_of_mem (h : p ∈ S.members) : S.Holds p :=
  ⟨p, h, p.contains_refl⟩

/-- What lies in a held prefix is held. -/
theorem Holds.of_contains (h : S.Holds p) (hpq : p.contains q) : S.Holds q := by
  obtain ⟨r, hr, hrp⟩ := h
  exact ⟨r, hr, Prefix.contains_trans hrp hpq⟩

/-- A member that is held by another prefix of the set is that prefix: nothing above a member is
held but the member itself. -/
theorem eq_of_holds_of_contains (hp : p ∈ S.members) (hq : S.Holds q) (hqp : q.contains p) :
    q = p := by
  obtain ⟨r, hr, hrq⟩ := hq
  have hrp : r = p := S.eq_of_contains hr hp (Prefix.contains_trans hrq hqp)
  exact Prefix.contains_antisymm hqp (hrp ▸ hrq)

/-- An antichain is determined by the prefixes that it holds. -/
theorem eq_of_holds_iff {S T : Antichain} (h : ∀ p, S.Holds p ↔ T.Holds p) : S = T := by
  have hsub : ∀ {S T : Antichain}, (∀ p, S.Holds p ↔ T.Holds p) → S.members ⊆ T.members := by
    intro S T h p hp
    obtain ⟨q, hq, hqp⟩ := (h p).mp (holds_of_mem hp)
    rwa [← eq_of_holds_of_contains hp ((h q).mpr (holds_of_mem hq)) hqp]
  exact ext (Finset.Subset.antisymm (hsub h) (hsub fun p => (h p).symm))

/-- Only one member contains a given prefix. -/
theorem eq_of_contains_of_contains (hp : p ∈ S.members) (hq : q ∈ S.members)
    (hpr : p.contains r) (hqr : q.contains r) : p = q := by
  rcases Prefix.contains_total hpr hqr with h | h
  · exact S.eq_of_contains hp hq h
  · exact (S.eq_of_contains hq hp h).symm

/-- Only one member contains a given address. -/
theorem eq_of_containsAddress {a : Address} (hp : p ∈ S.members) (hq : q ∈ S.members)
    (hpa : p.containsAddress a) (hqa : q.containsAddress a) : p = q :=
  eq_of_contains_of_contains hp hq (Prefix.containsAddress_iff.mp hpa)
    (Prefix.containsAddress_iff.mp hqa)

/-! ### Widening -/

/-- Puts a prefix in the place of the members that it contains. -/
def widen (S : Antichain) (p : Prefix) (h : ¬ S.Holds p) : Antichain where
  members := insert p (S.members.filter fun q => ¬ p.contains q)
  eq_of_contains {q r} hq hr hqr := by
    rw [Finset.mem_insert, Finset.mem_filter] at hq hr
    rcases hq with rfl | ⟨hq, -⟩ <;> rcases hr with rfl | ⟨hr, hnr⟩
    · rfl
    · exact absurd hqr hnr
    · exact absurd ⟨q, hq, hqr⟩ h
    · exact S.eq_of_contains hq hr hqr

/-- The members are the new one and those that do not lie in it. -/
@[simp] theorem mem_widen {h : ¬ S.Holds p} :
    q ∈ (S.widen p h).members ↔ q = p ∨ q ∈ S.members ∧ ¬ p.contains q := by
  unfold widen
  rw [Finset.mem_insert, Finset.mem_filter]

/-- The prefix is no member before, so it makes no difference whether that counts as lying below. -/
theorem mem_widen_above {h : ¬ S.Holds p} :
    q ∈ (S.widen p h).members ↔ q = p ∨ q ∈ S.members ∧ ¬ p.Above q := by
  rw [mem_widen]
  refine or_congr_right (and_congr_right fun hq => not_congr (and_iff_left_of_imp ?_).symm)
  intro _ hpq
  exact h (hpq ▸ holds_of_mem hq)

/-- A widened set holds what it held and what lies in the new member. -/
theorem holds_widen {h : ¬ S.Holds p} : (S.widen p h).Holds q ↔ S.Holds q ∨ p.contains q := by
  constructor
  · rintro ⟨r, hr, hrq⟩
    rcases mem_widen.mp hr with rfl | ⟨hr, -⟩
    · exact Or.inr hrq
    · exact Or.inl ⟨r, hr, hrq⟩
  · rintro (⟨r, hr, hrq⟩ | hpq)
    · by_cases hpr : p.contains r
      · exact ⟨p, mem_widen.mpr (Or.inl rfl), Prefix.contains_trans hpr hrq⟩
      · exact ⟨r, mem_widen.mpr (Or.inr ⟨hr, hpr⟩), hrq⟩
    · exact ⟨p, mem_widen.mpr (Or.inl rfl), hpq⟩

/-- The sum of a quantity over the new member and those that it replaces. -/
theorem sum_widen (f : Prefix → Nat) (h : ¬ S.Holds p) :
    ∑ q ∈ (S.widen p h).members, f q + ∑ q ∈ S.members with p.contains q, f q =
      ∑ q ∈ S.members, f q + f p := by
  have hp : p ∉ S.members.filter fun q => ¬ p.contains q := fun hp =>
    h (holds_of_mem (Finset.mem_filter.mp hp).1)
  have hsplit := Finset.sum_filter_add_sum_filter_not S.members (fun q => p.contains q) f
  unfold widen
  rw [Finset.sum_insert hp]
  omega

/-! ### Adding -/

/-- Puts a prefix in, unless it is held. -/
def add (S : Antichain) (p : Prefix) : Antichain :=
  if h : S.Holds p then S else S.widen p h

/-- A prefix that is held changes nothing. -/
theorem add_of_holds (h : S.Holds p) : S.add p = S := by
  unfold add
  rw [dif_pos h]

/-- Any other prefix widens the set. -/
theorem add_of_not_holds (h : ¬ S.Holds p) : S.add p = S.widen p h := by
  unfold add
  rw [dif_neg h]

/-- After adding, the set holds what it held and what lies in the new prefix. -/
theorem holds_add : (S.add p).Holds q ↔ S.Holds q ∨ p.contains q := by
  by_cases h : S.Holds p
  · rw [add_of_holds h]
    exact ⟨Or.inl, fun hq => hq.elim id h.of_contains⟩
  · rw [add_of_not_holds h, holds_widen]

/-- To add a prefix makes no other prefix a member. -/
theorem mem_of_mem_add (h : q ∈ (S.add p).members) : q = p ∨ q ∈ S.members := by
  by_cases hp : S.Holds p
  · rw [add_of_holds hp] at h
    exact Or.inr h
  · rw [add_of_not_holds hp, mem_widen] at h
    exact h.imp_right And.left

/-! ### Lists -/

/-- The prefixes of a list, added in turn. -/
def ofList (ps : List Prefix) : Antichain :=
  ps.foldl add empty

/-- The prefixes of a list that no other one of the list contains. -/
def maximal (ps : List Prefix) : Finset Prefix :=
  ps.toFinset.filter fun p => ∀ q ∈ ps, q.contains p → q = p

/-- The maximal prefixes of a list are those that lie in no other one of it. -/
theorem mem_maximal {ps : List Prefix} :
    p ∈ maximal ps ↔ p ∈ ps ∧ ∀ q ∈ ps, q.contains p → q = p := by
  unfold maximal
  rw [Finset.mem_filter, List.mem_toFinset]

/-- After adding several prefixes, the set holds what it held and what lies in one of them. -/
theorem holds_foldl_add (ps : List Prefix) :
    ∀ {S : Antichain}, (ps.foldl add S).Holds q ↔ S.Holds q ∨ ∃ p ∈ ps, p.contains q := by
  induction ps with
  | nil => intro S; simp
  | cons p ps ih =>
    intro S
    rw [List.foldl_cons, ih, holds_add, List.exists_mem_cons_iff, or_assoc]

/-- The set of a list holds what lies in a prefix of the list. -/
theorem holds_ofList {ps : List Prefix} : (ofList ps).Holds q ↔ ∃ p ∈ ps, p.contains q := by
  unfold ofList
  rw [holds_foldl_add, or_iff_right]
  rintro ⟨r, hr, -⟩
  exact Finset.notMem_empty r hr

/-- All members come from the set at the beginning or from the list. -/
theorem mem_of_mem_foldl_add (ps : List Prefix) :
    ∀ {S : Antichain}, q ∈ (ps.foldl add S).members → q ∈ S.members ∨ q ∈ ps := by
  induction ps with
  | nil => intro S h; exact Or.inl h
  | cons p ps ih =>
    intro S h
    rcases ih h with h | h
    · rcases mem_of_mem_add h with rfl | h
      · exact Or.inr List.mem_cons_self
      · exact Or.inl h
    · exact Or.inr (List.mem_cons_of_mem p h)

/-- **What is left of a list**: its maximal elements. -/
theorem members_ofList (ps : List Prefix) : (ofList ps).members = maximal ps := by
  have hsub : ∀ {q}, q ∈ (ofList ps).members → q ∈ ps := fun h =>
    (mem_of_mem_foldl_add ps h).resolve_left (Finset.notMem_empty _)
  ext p
  rw [mem_maximal]
  constructor
  · intro hp
    refine ⟨hsub hp, ?_⟩
    intro q hq hqp
    exact eq_of_holds_of_contains hp (holds_ofList.mpr ⟨q, hq, q.contains_refl⟩) hqp
  · rintro ⟨hp, hmax⟩
    obtain ⟨r, hr, hrp⟩ := holds_ofList.mpr ⟨p, hp, p.contains_refl⟩
    rwa [← hmax r (hsub hr) hrp]

/-- Lists leave the same if they cover the same. -/
theorem maximal_congr {ps qs : List Prefix}
    (h : ∀ r : Prefix, (∃ p ∈ ps, p.contains r) ↔ ∃ q ∈ qs, q.contains r) :
    maximal ps = maximal qs := by
  have heq : ofList ps = ofList qs := by
    apply eq_of_holds_iff
    intro r
    rw [holds_ofList, holds_ofList, h]
  rw [← members_ofList, heq, members_ofList]

/-- A list of the members of an antichain leaves that antichain. -/
theorem ofList_eq {ps : List Prefix} (h : ∀ p, p ∈ ps ↔ p ∈ S.members) : ofList ps = S := by
  ext p
  rw [members_ofList, mem_maximal, h]
  refine ⟨And.left, fun hp => ⟨hp, fun q hq hqp => ?_⟩⟩
  exact S.eq_of_contains ((h q).mp hq) hp hqp

end Antichain

end CidrCover
