import CidrCover.Proofs.Trie.Changes

/-!
# Insertion into a trie

An insertion walks down the path of its prefix, makes the nodes that are missing, and ends in one of
three ways, which the marks on the path decide:

* a mark strictly above the prefix covers it, and the shortest one is named (`insert_covered`);
* the prefix is marked itself (`insert_duplicate`);
* no mark contains it: then it is marked, all below it is dropped, and the marks among that are
  reported (`insert_inserted`).

In the first two cases the trie is what it was: a node is made only below all marks of the path, so
not before the third outcome is certain. The three inductions are on the bits that the walk has
still to go; `p.take (p.len - n)` is the prefix of the node at which `n` bits are left.
-/

namespace CidrCover

namespace Prefix

variable {p : Prefix} {n : Nat}

/-- The path of a prefix starts at the root. -/
theorem path_start (p : Prefix) : p.take (p.len - p.len) = root :=
  eq_root_of_len (by rw [len_take, Nat.sub_self, Nat.zero_min])

/-- One step down the path of a prefix. -/
theorem isChild_path (h : n < p.len) :
    (p.take (p.len - (n + 1))).IsChild (p.bit (p.len - (n + 1))) (p.take (p.len - n)) := by
  have hlen : (p.take (p.len - (n + 1))).len = p.len - (n + 1) := by rw [len_take]; omega
  have hne : p.take (p.len - (n + 1)) ≠ p := by
    intro he
    have := congrArg len he
    omega
  have hchild := isChild_take (take_contains p (p.len - (n + 1))) hne
  rwa [hlen, show p.len - (n + 1) + 1 = p.len - n by omega] at hchild

/-- On the path of a prefix, the node after one that lies above a leading part contains it as well.
-/
theorem path_contains {r : Prefix} (h : n < p.len) (hr : r.contains p)
    (hq : (p.take (p.len - (n + 1))).Above r) : (p.take (p.len - n)).contains r := by
  have hlt := len_lt_of_contains hq.1 hq.2
  refine contains_of_len_le (take_contains p _) hr ?_
  rw [len_take] at hlt ⊢
  omega

/-- Before its end the path is strictly above the prefix. -/
theorem path_above (h : n < p.len) : (p.take (p.len - (n + 1))).Above p := by
  refine ⟨take_contains p _, fun he => ?_⟩
  have := congrArg len he
  rw [len_take] at this
  omega

end Prefix

namespace Trie

variable {t : Trie} {p : Prefix} {n : Nat} {id next : NodeId}

/-! ### The end of the walk -/

/-- A mark at the end of the way: the prefix is a duplicate. -/
theorem insertBelow_zero_marked (h : t.isMarked id = true) :
    insertBelow p 0 t id = (t, .duplicate id) := by
  rw [insertBelow, if_pos h]

/-- No mark at the end of the way: the node is marked, and what is below it is dropped. -/
theorem insertBelow_zero_unmarked (h : t.isMarked id = false) :
    insertBelow p 0 t id =
      (((t.mark id).prune id).1, .inserted id ((t.mark id).prune id).2) := by
  rw [insertBelow, if_neg (ne_true_of_eq_false h)]

/-! ### One step of the walk -/

/-- A mark on the way ends the walk: the prefix is covered. -/
theorem insertBelow_marked (h : t.isMarked id = true) :
    insertBelow p (n + 1) t id = (t, .covered (t.block id)) := by
  rw [insertBelow, if_pos h]

/-- Where there is a next node the walk goes on from there. -/
theorem insertBelow_some (h : t.isMarked id = false)
    (hnext : (t.node id).child (p.bit (p.len - (n + 1))) = some next) :
    insertBelow p (n + 1) t id = insertBelow p n t next := by
  rw [insertBelow, if_neg (ne_true_of_eq_false h)]
  simp only [hnext]

/-- Where the next node is missing it is made, and the walk goes on from there. -/
theorem insertBelow_none (h : t.isMarked id = false)
    (hnext : (t.node id).child (p.bit (p.len - (n + 1))) = none) :
    insertBelow p (n + 1) t id =
      let made := t.allocate ((t.block id).extend (p.bit (p.len - (n + 1)))) id
      insertBelow p n (made.1.update id (·.link (p.bit (p.len - (n + 1))) (some made.2)))
        made.2 := by
  rw [insertBelow, if_neg (ne_true_of_eq_false h)]
  simp only [hnext]

end Trie

namespace Represents

variable {t : Trie} {slot : Prefix → NodeId} {s : Outline} {p r : Prefix} {n : Nat}

/-- A node whose prefix is not marked is not marked. -/
theorem isMarked_eq_false (h : Represents t slot s) (hp : p ∈ s.nodes) (hm : p ∉ s.marks) :
    t.isMarked (slot p) = false := by
  rw [← Bool.not_eq_true, h.isMarked_slot hp]
  exact hm

/-- A node knows the prefix that it stands for, so one bit more is the next prefix on the path. -/
theorem extend_block_slot (h : Represents t slot s) (hnode : p.take (p.len - (n + 1)) ∈ s.nodes)
    (hn : n < p.len) :
    (t.block (slot (p.take (p.len - (n + 1))))).extend (p.bit (p.len - (n + 1))) =
      p.take (p.len - n) := by
  rw [h.block_slot hnode]
  exact (Prefix.isChild_path hn).extend_eq

/-! ### The three outcomes of a walk -/

/-- Below the shortest mark above the prefix the walk does not come, and that mark is reported. -/
theorem insertBelow_covered (h : Represents t slot s) (hr : r ∈ s.marks) (hrp : r.Above p)
    (hmin : ∀ q ∈ s.marks, q.Above p → r.contains q) (hn : n ≤ p.len)
    (hq : (p.take (p.len - n)).contains r) :
    Trie.insertBelow p n t (slot (p.take (p.len - n))) = (t, .covered r) := by
  have hnode := s.closed (s.marks_subset hr) hq
  induction n with
  | zero =>
    rw [Nat.sub_zero, Prefix.take_len] at hq
    exact absurd hrp (fun hrp => hrp.2 (Prefix.contains_antisymm hrp.1 hq))
  | succ n ih =>
    by_cases hmark : p.take (p.len - (n + 1)) ∈ s.marks
    · have heq := Prefix.contains_antisymm hq (hmin _ hmark (Prefix.path_above hn))
      rw [Trie.insertBelow_marked ((h.isMarked_slot hnode).mpr hmark), h.block_slot hnode, heq]
    · have habove : (p.take (p.len - (n + 1))).Above r := ⟨hq, fun he => hmark (he ▸ hr)⟩
      have hnext := Prefix.path_contains hn hrp.1 habove
      have hc := s.closed (s.marks_subset hr) hnext
      rw [Trie.insertBelow_some (h.isMarked_eq_false hnode hmark)
        ((h.node hnode).child_eq_some hc (Prefix.isChild_path hn))]
      exact ih (by omega) hnext hc

/-- Without a mark above it, a marked prefix is found to be one. -/
theorem insertBelow_duplicate (h : Represents t slot s) (hp : p ∈ s.marks)
    (hnone : ∀ q ∈ s.marks, ¬ q.Above p) (hn : n ≤ p.len) :
    Trie.insertBelow p n t (slot (p.take (p.len - n))) = (t, .duplicate (slot p)) := by
  have hps := s.marks_subset hp
  induction n with
  | zero =>
    rw [Nat.sub_zero, Prefix.take_len]
    exact Trie.insertBelow_zero_marked ((h.isMarked_slot hps).mpr hp)
  | succ n ih =>
    have hmark : p.take (p.len - (n + 1)) ∉ s.marks := fun hm =>
      hnone _ hm (Prefix.path_above hn)
    have hnode := s.closed hps (p.take_contains (p.len - (n + 1)))
    have hc := s.closed hps (p.take_contains (p.len - n))
    rw [Trie.insertBelow_some (h.isMarked_eq_false hnode hmark)
      ((h.node hnode).child_eq_some hc (Prefix.isChild_path hn))]
    exact ih (by omega)

/-- The walk goes on from a node that it may have had to make, so the trie, its slots and its
outline change in the course of the induction. -/
theorem insertBelow_inserted (h : Represents t slot s) (hnone : ∀ q ∈ s.marks, ¬ q.contains p)
    (hn : n ≤ p.len) (hnode : p.take (p.len - n) ∈ s.nodes) :
    ∃ slot', Represents (Trie.insertBelow p n t (slot (p.take (p.len - n)))).1 slot' (s.insert p) ∧
      (Trie.insertBelow p n t (slot (p.take (p.len - n)))).2 =
        .inserted (slot' p) ((s.marks.filter fun q => p.Above q).sort (· ≤ ·)) ∧
      ∀ q ∈ s.nodes, slot' q = slot q := by
  induction n generalizing t slot s with
  | zero =>
    rw [Nat.sub_zero, Prefix.take_len] at hnode ⊢
    have hmark : p ∉ s.marks := fun hm => hnone p hm p.contains_refl
    have hm := h.mark hnode
    rw [Trie.insertBelow_zero_unmarked (h.isMarked_eq_false hnode hmark)]
    refine ⟨slot, ?_, ?_, fun _ _ => rfl⟩
    · rw [← Outline.prune_mark hnode]
      exact hm.prune hnode
    · show Insertion.inserted _ _ = _
      rw [hm.prune_snd hnode, Outline.marks_mark, Finset.filter_insert,
        if_neg p.not_above_self]
  | succ n ih =>
    have hmark : p.take (p.len - (n + 1)) ∉ s.marks := fun hm =>
      hnone _ hm (p.take_contains _)
    have hunmarked := h.isMarked_eq_false hnode hmark
    have hchild := Prefix.isChild_path (p := p) hn
    by_cases hc : p.take (p.len - n) ∈ s.nodes
    · rw [Trie.insertBelow_some hunmarked ((h.node hnode).child_eq_some hc hchild)]
      exact ih h hnone (by omega) hc
    · have hw := h.allocate_child hnode hc hchild
      rw [Trie.insertBelow_none hunmarked ((h.node hnode).child_eq_none hc hchild),
        h.extend_block_slot hnode hn]
      generalize t.allocate (p.take (p.len - n)) (slot (p.take (p.len - (n + 1)))) = made at hw ⊢
      have hi : Function.update slot (p.take (p.len - n)) made.2 (p.take (p.len - n)) = made.2 :=
        Function.update_self ..
      obtain ⟨slot', hrep, hout, hold⟩ := ih hw hnone (by omega) (Finset.mem_insert_self _ _)
      rw [hi, Outline.insert_withNode _ (p.take_contains _)] at hrep
      rw [hi] at hout
      refine ⟨slot', hrep, hout, ?_⟩
      intro q hq
      rw [hold q (Finset.mem_insert_of_mem hq), Function.update_of_ne]
      rintro rfl
      exact hc hq

/-! ### The three outcomes of an insertion -/

/-- The walk starts at the root. -/
theorem insert_eq (h : Represents t slot s) :
    t.insert p = Trie.insertBelow p p.len t (slot (p.take (p.len - p.len))) := by
  rw [p.path_start, h.slot_root, Trie.insert]

/-- A prefix with a mark above it is covered by the shortest such mark, and the trie stays as it is.
-/
theorem insert_covered (h : Represents t slot s) (hr : r ∈ s.marks) (hrp : r.Above p)
    (hmin : ∀ q ∈ s.marks, q.Above p → r.contains q) : t.insert p = (t, .covered r) := by
  rw [h.insert_eq]
  apply h.insertBelow_covered hr hrp hmin (Nat.le_refl _)
  rw [p.path_start]
  exact r.root_contains

/-- A marked prefix is a duplicate, and the trie stays as it is. -/
theorem insert_duplicate (h : Represents t slot s) (hp : p ∈ s.marks)
    (hnone : ∀ q ∈ s.marks, ¬ q.Above p) : t.insert p = (t, .duplicate (slot p)) := by
  rw [h.insert_eq]
  exact h.insertBelow_duplicate hp hnone (Nat.le_refl _)

/-- A prefix that no mark contains is inserted, with the marks below it in ascending order. -/
theorem insert_inserted (h : Represents t slot s) (hnone : ∀ q ∈ s.marks, ¬ q.contains p) :
    ∃ slot', Represents (t.insert p).1 slot' (s.insert p) ∧
      (t.insert p).2 =
        .inserted (slot' p) ((s.marks.filter fun q => p.Above q).sort (· ≤ ·)) ∧
      ∀ q ∈ s.nodes, slot' q = slot q := by
  rw [h.insert_eq]
  apply h.insertBelow_inserted hnone (Nat.le_refl _)
  rw [p.path_start]
  exact s.root_mem

end Represents

end CidrCover
