import CidrCover.Leaves
import CidrCover.Proofs.Prefix.Order

/-!
# What a table of leaves lists

`l.Lists S slot` says that the table has one entry for each prefix of the set `S`, with the slot
that `slot` gives it, the greatest first. Each operation on tables is shown to do to the set what
its name says; the greatest entry is the one of the greatest member (`Lists.popMax?_eq`).
-/

namespace CidrCover.Leaves

/-! ### Descending lists of entries -/

/-- The entries are in strictly descending order of their prefixes. -/
def Descending (es : List (Prefix × NodeId)) : Prop :=
  es.Pairwise fun d e => e.1 < d.1

variable {es : List (Prefix × NodeId)} {d e : Prefix × NodeId} {p : Prefix} {i : NodeId}

/-- The entries are those that there were and the new one. -/
theorem mem_place (hp : ∀ e ∈ es, e.1 ≠ p) : e ∈ place p i es ↔ e = (p, i) ∨ e ∈ es := by
  induction es with
  | nil => simp [place]
  | cons d es ih =>
    have hd := hp d List.mem_cons_self
    rw [place]
    split_ifs with hlt
    · exact List.mem_cons
    · rw [List.mem_cons, List.mem_cons, ih fun e he => hp e (List.mem_cons_of_mem d he)]
      exact or_left_comm

/-- The entries are still in descending order. -/
theorem descending_place (h : Descending es) (hp : ∀ e ∈ es, e.1 ≠ p) :
    Descending (place p i es) := by
  induction es with
  | nil => exact List.pairwise_singleton _ _
  | cons d es ih =>
    have hd := hp d List.mem_cons_self
    have hes : ∀ e ∈ es, e.1 ≠ p := fun e he => hp e (List.mem_cons_of_mem d he)
    obtain ⟨hhead, htail⟩ := List.pairwise_cons.mp h
    rw [place]
    split_ifs with hlt
    · refine List.pairwise_cons.mpr ⟨fun e he => ?_, h⟩
      rcases List.mem_cons.mp he with rfl | he
      · exact hlt
      · exact lt_trans (hhead e he) hlt
    · refine List.pairwise_cons.mpr ⟨fun e he => ?_, ih htail hes⟩
      rcases (mem_place hes).mp he with rfl | he
      · exact lt_of_le_of_ne (not_lt.mp hlt) hd.symm
      · exact hhead e he

/-- The greatest entry goes in front. -/
theorem place_of_lt (h : ∀ e ∈ es, e.1 < p) : place p i es = (p, i) :: es := by
  cases es with
  | nil => rfl
  | cons e es => rw [place, if_pos (h e List.mem_cons_self)]

/-- What is taken out was in the table. -/
theorem mem_of_popMax? {l rest : Leaves} (h : l.popMax? = some (e, rest)) : e ∈ l.entries := by
  obtain ⟨entries⟩ := l
  cases entries with
  | nil => cases h
  | cons d es =>
    cases h
    exact List.mem_cons_self

/-- Removing the first entry of a prefix removes the only one. -/
theorem mem_eraseP (h : Descending es) : e ∈ es.eraseP (·.1 == p) ↔ e ∈ es ∧ e.1 ≠ p := by
  induction es with
  | nil => simp
  | cons d es ih =>
    obtain ⟨hhead, htail⟩ := List.pairwise_cons.mp h
    by_cases hd : d.1 = p
    · rw [List.eraseP_cons_of_pos (by simpa using hd), List.mem_cons]
      constructor
      · intro he
        exact ⟨Or.inr he, fun hep => lt_irrefl p (by simpa [hep, hd] using hhead e he)⟩
      · rintro ⟨rfl | he, hne⟩
        · exact absurd hd hne
        · exact he
    · rw [List.eraseP_cons_of_neg (by simpa using hd), List.mem_cons, List.mem_cons, ih htail,
        or_and_right]
      refine or_congr_left (and_iff_left_of_imp ?_).symm
      rintro rfl
      exact hd

/-! ### Tables -/

/-- The table has the members of `S`, each with its slot, the greatest first. -/
structure Lists (l : Leaves) (S : Finset Prefix) (slot : Prefix → NodeId) : Prop where
  descending : Descending l.entries
  mem_iff : ∀ {e}, e ∈ l.entries ↔ e.1 ∈ S ∧ slot e.1 = e.2

/-- The empty table lists nothing. -/
theorem lists_empty (slot : Prefix → NodeId) : Lists empty ∅ slot where
  descending := List.Pairwise.nil
  mem_iff := ⟨fun h => absurd h List.not_mem_nil, fun h => absurd h.1 (Finset.notMem_empty _)⟩

namespace Lists

variable {l : Leaves} {S : Finset Prefix} {slot slot' : Prefix → NodeId}

/-- The prefixes of a table are its set in ascending order. -/
theorem prefixes_eq (h : l.Lists S slot) : l.prefixes = S.sort (· ≤ ·) := by
  refine Prefix.eq_sort_of_ascending ?_ fun p => ?_
  · unfold prefixes
    rw [List.pairwise_reverse, List.pairwise_map]
    exact h.descending
  · unfold prefixes
    rw [List.mem_reverse, List.mem_map]
    constructor
    · rintro ⟨e, he, rfl⟩
      exact (h.mem_iff.mp he).1
    · intro hp
      exact ⟨(p, slot p), h.mem_iff.mpr ⟨hp, rfl⟩, rfl⟩

/-- There are as many entries as members. -/
theorem size_eq (h : l.Lists S slot) : l.size = S.card := by
  rw [← Finset.length_sort (s := S) (· ≤ ·), ← h.prefixes_eq, prefixes, List.length_reverse,
    List.length_map, size]

/-- The prefixes of the table are the members. -/
theorem mem_prefixes_iff (h : l.Lists S slot) : p ∈ l.prefixes ↔ p ∈ S := by
  rw [h.prefixes_eq, Finset.mem_sort]

/-- Only the slots of the members matter. -/
theorem congr (h : l.Lists S slot) (hold : ∀ p ∈ S, slot' p = slot p) : l.Lists S slot' where
  descending := h.descending
  mem_iff {e} := h.mem_iff.trans (and_congr_right fun he => by rw [hold e.1 he])

/-- To insert an entry is to insert its prefix. -/
theorem insert (h : l.Lists S slot) (hp : p ∉ S) :
    (l.insert p (slot p)).Lists (Insert.insert p S) slot := by
  have hes : ∀ e ∈ l.entries, e.1 ≠ p := by
    rintro e he rfl
    exact hp (h.mem_iff.mp he).1
  refine ⟨descending_place h.descending hes, fun {e} => ?_⟩
  unfold Leaves.insert
  rw [mem_place hes, h.mem_iff, Finset.mem_insert, or_and_right]
  refine or_congr_left ?_
  constructor
  · rintro rfl
    exact ⟨rfl, rfl⟩
  · rintro ⟨rfl, hslot⟩
    exact Prod.ext rfl hslot.symm

/-- To erase an entry is to erase its prefix. -/
theorem erase (h : l.Lists S slot) (p : Prefix) : (l.erase p).Lists (S.erase p) slot where
  descending := h.descending.sublist List.eraseP_sublist
  mem_iff {e} := by
    unfold Leaves.erase
    rw [mem_eraseP h.descending, h.mem_iff, Finset.mem_erase]
    tauto

/-- To erase several entries is to leave the members that are not among them. -/
theorem eraseAll (h : l.Lists S slot) (ps : List Prefix) :
    (l.eraseAll ps).Lists (S.filter fun q => q ∉ ps) slot := by
  induction ps generalizing l S with
  | nil => simpa [Leaves.eraseAll] using h
  | cons p ps ih =>
    have hset : (S.erase p).filter (fun q => q ∉ ps) = S.filter fun q => q ∉ p :: ps := by
      ext q
      simp only [Finset.mem_filter, Finset.mem_erase, List.mem_cons]
      tauto
    rw [← hset]
    exact ih (h.erase p)

/-- Erasing the members that a prefix is above. -/
theorem eraseAll_above (h : l.Lists S slot) (p : Prefix) :
    (l.eraseAll ((S.filter fun q => p.Above q).sort (· ≤ ·))).Lists
      (S.filter fun q => ¬ p.Above q) slot := by
  have hset : (S.filter fun q => q ∉ (S.filter fun q => p.Above q).sort (· ≤ ·)) =
      S.filter fun q => ¬ p.Above q := by
    apply Finset.filter_congr
    intro q hq
    simp only [Finset.mem_sort, Finset.mem_filter, hq, true_and]
  rw [← hset]
  exact h.eraseAll _

/-- The entry that is taken out is that of the greatest member. -/
theorem popMax?_eq (h : l.Lists S slot) (hS : S.Nonempty) :
    ∃ rest, l.popMax? = some ((S.max' hS, slot (S.max' hS)), rest) ∧
      rest.Lists (S.erase (S.max' hS)) slot := by
  have hmem : (S.max' hS, slot (S.max' hS)) ∈ l.entries :=
    h.mem_iff.mpr ⟨S.max'_mem hS, rfl⟩
  obtain ⟨entries⟩ := l
  cases entries with
  | nil => exact absurd hmem List.not_mem_nil
  | cons e es =>
    obtain ⟨hhead, htail⟩ := List.pairwise_cons.mp h.descending
    obtain ⟨heS, hslot⟩ := h.mem_iff.mp List.mem_cons_self
    have hmax : e.1 = S.max' hS := by
      rcases List.mem_cons.mp hmem with he | he
      · rw [← he]
      · exact absurd (S.le_max' _ heS) (not_le.mpr (hhead _ he))
    refine ⟨⟨es⟩, by rw [popMax?, ← hmax, hslot], htail, fun {d} => ?_⟩
    rw [Finset.mem_erase, ← hmax, and_assoc, ← h.mem_iff]
    constructor
    · intro hd
      exact ⟨ne_of_lt (hhead d hd), List.mem_cons_of_mem e hd⟩
    · rintro ⟨hne, hd⟩
      rcases List.mem_cons.mp hd with rfl | hd
      · exact absurd rfl hne
      · exact hd

/-- What is taken out is a member with its slot. -/
theorem mem_of_popMax? (h : l.Lists S slot) {rest : Leaves}
    (hpop : l.popMax? = some ((p, i), rest)) : p ∈ S ∧ slot p = i :=
  h.mem_iff.mp (Leaves.mem_of_popMax? hpop)

/-- An entry that was taken out belongs where it was. -/
theorem insert_of_popMax? (h : l.Lists S slot) {rest : Leaves}
    (hpop : l.popMax? = some ((p, i), rest)) : rest.insert p i = l := by
  obtain ⟨entries⟩ := l
  cases entries with
  | nil => cases hpop
  | cons e es =>
    cases hpop
    obtain ⟨hhead, -⟩ := List.pairwise_cons.mp h.descending
    rw [Leaves.insert, place_of_lt hhead]

end Lists

end CidrCover.Leaves
