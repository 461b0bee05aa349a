import CidrCover.Proofs.Trie.Runs
import CidrCover.Proofs.Trie.Sweep

/-!
# How long an arena grows

Only `allocate` makes the array longer, and only if no slot is free. So the array is as long as the
trie has ever been large: after an insertion its length is the larger one of what it was and the
number of nodes (`Represents.size_insert`), and no other change makes a difference to it. The nodes
that an insertion makes are all still there when it ends, for nothing was below them.

Slots can be numbered in words of 32 bits, in which numbers from `2 ^ 32` on come round again.
`insertBy number` is the insertion with a numbering of its own and with the walk of `sweepBelow` at
its end. As long as the array is shorter than `2 ^ 32`, words number it as all numbers would
(`insertBy_word`), and then an insertion is the one of the trie, up to the order of the free slots
(`Represents.insertBy_reordered`).
-/

namespace CidrCover

namespace Trie

/-! ### Changes that leave the length alone -/

/-- To mark a node keeps the length of the array. -/
@[simp] theorem size_mark (t : Trie) (i : NodeId) : (t.mark i).nodes.size = t.nodes.size :=
  t.size_update i _

/-- To drop what is below a node keeps the length of the array. -/
@[simp] theorem size_prune (t : Trie) (i : NodeId) : (t.prune i).1.nodes.size = t.nodes.size := by
  unfold prune
  rw [size_release, size_update]

/-- So does a walk that drops it. -/
@[simp] theorem size_sweepBelow (t : Trie) (i : NodeId) :
    (t.sweepBelow i).1.nodes.size = t.nodes.size := by
  unfold sweepBelow
  rw [size_sweep, size_update]

/-- Dropping a node does nothing, or unlinks it and gives up its slot. -/
theorem detach_cases (t : Trie) (i : NodeId) :
    (t.detach i).1 = t ∨
      ∃ parent b, (t.detach i).1 = (t.update parent (·.link b none)).release [i] := by
  unfold detach
  cases (t.node i).parent with
  | none => exact Or.inl rfl
  | some parent =>
    cases hside : (t.node parent).side? i with
    | none => exact Or.inl (by simp only [hside])
    | some b => exact Or.inr ⟨parent, b, by simp only [hside]⟩

/-- To drop a node keeps the length of the array. -/
@[simp] theorem size_detach (t : Trie) (i : NodeId) : (t.detach i).1.nodes.size = t.nodes.size := by
  obtain h | ⟨parent, b, h⟩ := t.detach_cases i
  · rw [h]
  · rw [h, size_release, size_update]

/-- To drop what is below a node does not add to the nodes. -/
theorem nodeCount_prune_le (t : Trie) (i : NodeId) : (t.prune i).1.nodeCount ≤ t.nodeCount :=
  Nat.sub_le _ _

/-- To drop a node does not add to the nodes. -/
theorem nodeCount_detach_le (t : Trie) (i : NodeId) : (t.detach i).1.nodeCount ≤ t.nodeCount := by
  obtain h | ⟨parent, b, h⟩ := t.detach_cases i
  · rw [h]
  · rw [h]
    exact Nat.sub_le _ _

/-! ### The change that may make the array longer -/

/-- The array is never shorter after a slot has been taken. -/
theorem size_le_size_allocate (t : Trie) (p : Prefix) (i : NodeId) :
    t.nodes.size ≤ (t.allocate p i).1.nodes.size := by
  obtain ⟨nodes, free, live⟩ := t
  cases free <;> simp [allocate]

/-- It is longer by one slot at most. -/
theorem size_allocate_le (t : Trie) (p : Prefix) (i : NodeId) :
    (t.allocate p i).1.nodes.size ≤ t.nodes.size + 1 := by
  obtain ⟨nodes, free, live⟩ := t
  cases free <;> simp [allocate]

/-- If all slots are free or in use, one is added only for a node that has no room. -/
theorem size_allocate {t : Trie} (h : t.live + t.free.length = t.nodes.size) (p : Prefix)
    (i : NodeId) : (t.allocate p i).1.nodes.size = max t.nodes.size (t.live + 1) := by
  obtain ⟨nodes, free, live⟩ := t
  cases free with
  | nil =>
    simp only [List.length_nil, Nat.add_zero] at h
    simp [allocate, h]
  | cons j free =>
    simp only [List.length_cons] at h
    simp only [allocate, Array.size_setIfInBounds]
    omega

end Trie

/-! ### The length after an insertion -/

/-- An insertion that finds a node of its path missing adds it and drops none, for nothing is below
a missing node. -/
theorem Outline.card_lt_card_insert {s : Outline} {p c : Prefix} (hc : c ∉ s.nodes)
    (hcp : c.contains p) : s.nodes.card < (s.insert p).nodes.card := by
  have hkept : s.nodes ⊆ (s.insert p).nodes := by
    intro q hq
    refine mem_nodes_insert.mpr ⟨Or.inl hq, fun hpq => ?_⟩
    exact s.notMem_of_contains hc (Prefix.contains_trans hcp hpq.1) hq
  have hnew : c ∈ (s.insert p).nodes := by
    refine mem_nodes_insert.mpr ⟨Or.inr hcp, fun hpc => ?_⟩
    exact hpc.2 (Prefix.contains_antisymm hpc.1 hcp)
  exact Finset.card_lt_card ((Finset.ssubset_iff_of_subset hkept).mpr ⟨c, hnew, hc⟩)

namespace Represents

variable {t : Trie} {slot : Prefix → NodeId} {s : Outline} {p : Prefix} {n : Nat}

/-- There are no more nodes than slots. -/
theorem nodeCount_le_size (h : Represents t slot s) : t.nodeCount ≤ t.nodes.size :=
  Nat.le_of_add_right_le (Nat.le_of_eq h.balance)

/-- The nodes of the path that are missing are made one after another, and nothing is dropped
below the last one. -/
theorem size_insertBelow (h : Represents t slot s) (hnone : ∀ q ∈ s.marks, ¬ q.contains p)
    (hn : n ≤ p.len) (hnode : p.take (p.len - n) ∈ s.nodes) :
    (Trie.insertBelow p n t (slot (p.take (p.len - n)))).1.nodes.size =
      max t.nodes.size (Trie.insertBelow p n t (slot (p.take (p.len - n)))).1.nodeCount := by
  induction n generalizing t slot s with
  | zero =>
    rw [Nat.sub_zero, Prefix.take_len] at hnode ⊢
    have hmark : p ∉ s.marks := fun hm => hnone p hm p.contains_refl
    rw [Trie.insertBelow_zero_unmarked (h.isMarked_eq_false hnode hmark), Trie.size_prune,
      Trie.size_mark]
    have hle := Trie.nodeCount_prune_le (t.mark (slot p)) (slot p)
    exact (Nat.max_eq_left (hle.trans h.nodeCount_le_size)).symm
  | succ n ih =>
    have hmark : p.take (p.len - (n + 1)) ∉ s.marks := fun hm => hnone _ hm (p.take_contains _)
    have hunmarked := h.isMarked_eq_false hnode hmark
    have hchild := Prefix.isChild_path (p := p) hn
    by_cases hc : p.take (p.len - n) ∈ s.nodes
    · rw [Trie.insertBelow_some hunmarked ((h.node hnode).child_eq_some hc hchild)]
      exact ih h hnone (by omega) hc
    · have hw := h.allocate_child hnode hc hchild
      have hgrown := Trie.size_allocate h.balance (p.take (p.len - n))
        (slot (p.take (p.len - (n + 1))))
      rw [Trie.insertBelow_none hunmarked ((h.node hnode).child_eq_none hc hchild),
        h.extend_block_slot hnode hn]
      generalize t.allocate (p.take (p.len - n)) (slot (p.take (p.len - (n + 1)))) = made
        at hw hgrown ⊢
      have hi : Function.update slot (p.take (p.len - n)) made.2 (p.take (p.len - n)) = made.2 :=
        Function.update_self ..
      have hself := Finset.mem_insert_self (p.take (p.len - n)) s.nodes
      obtain ⟨slot', hrep, -, -⟩ := hw.insertBelow_inserted hnone (by omega) hself
      have hsize := ih hw hnone (by omega) hself
      rw [hi] at hrep hsize
      rw [Outline.insert_withNode _ (p.take_contains _)] at hrep
      have hmore := Outline.card_lt_card_insert hc (p.take_contains _)
      rw [← hrep.nodeCount_eq, ← h.live_eq] at hmore
      rw [hsize, Trie.size_update, hgrown, Nat.max_assoc, Nat.max_eq_right hmore]

/-- **An insertion makes the array as long as the nodes need it.** -/
theorem size_insert (h : Represents t slot s) (p : Prefix) :
    (t.insert p).1.nodes.size = max t.nodes.size (t.insert p).1.nodeCount := by
  by_cases hcover : ∃ q ∈ s.marks, q.contains p
  · obtain ⟨q, hq, hqp⟩ := hcover
    rw [h.insert_of_contains hq hqp, Nat.max_eq_left h.nodeCount_le_size]
  · have hnone : ∀ q ∈ s.marks, ¬ q.contains p := fun q hq hqp => hcover ⟨q, hq, hqp⟩
    rw [h.insert_eq]
    apply h.size_insertBelow hnone (Nat.le_refl _)
    rw [p.path_start]
    exact s.root_mem

end Represents

/-! ### Slots numbered in words -/

/-- The slot whose number is a word of 32 bits. -/
def NodeId.word (n : Nat) : NodeId :=
  ⟨n.toUInt32.toNat⟩

/-- A number that fits into a word comes out of it as it was. -/
theorem NodeId.word_eq {n : Nat} (h : n < 2 ^ 32) : NodeId.word n = ⟨n⟩ := by
  unfold word
  rw [Nat.toUInt32_eq, UInt32.toNat_ofNat', Nat.mod_eq_of_lt h]

namespace Trie

variable {number : Nat → NodeId} {t : Trie} {i : NodeId} {p : Prefix} {n : Nat}

/-- Takes a slot for a new node; a slot at the end of the array is numbered first. -/
def allocateBy (number : Nat → NodeId) (t : Trie) (block : Prefix) (parent : NodeId) :
    Trie × NodeId :=
  match t.free with
  | [] => ((t.allocate block parent).1, number t.nodes.size)
  | _ :: _ => t.allocate block parent

/-- Inserts a prefix whose last `n` bits lead downwards from a node. -/
def insertBelowBy (number : Nat → NodeId) (p : Prefix) : Nat → Trie → NodeId → Trie × Insertion
  | 0, t, id =>
    if t.isMarked id then (t, .duplicate id)
    else
      let (t, superseded) := (t.mark id).sweepBelow id
      (t, .inserted id superseded)
  | n + 1, t, id =>
    if t.isMarked id then
      let cover := t.block id
      (t, .covered cover)
    else
      let b := p.bit (p.len - (n + 1))
      match (t.node id).child b with
      | some next => insertBelowBy number p n t next
      | none =>
        let (t, next) := t.allocateBy number ((t.block id).extend b) id
        insertBelowBy number p n (t.update id (·.link b (some next))) next

/-- Inserts a prefix. -/
def insertBy (number : Nat → NodeId) (t : Trie) (p : Prefix) : Trie × Insertion :=
  insertBelowBy number p p.len t rootId

/-- The numbering does not concern the arena, only the slot that is reported. -/
theorem allocateBy_fst (number : Nat → NodeId) (t : Trie) (p : Prefix) (i : NodeId) :
    (t.allocateBy number p i).1 = (t.allocate p i).1 := by
  unfold allocateBy
  split <;> rfl

/-- If every slot has its own number, then that is the slot that is taken. -/
theorem allocateBy_mk (t : Trie) (p : Prefix) (i : NodeId) :
    t.allocateBy NodeId.mk p i = t.allocate p i := by
  obtain ⟨nodes, free, live⟩ := t
  cases free <;> rfl

/-- A slot in an array that is short enough has its own number. -/
theorem allocateBy_word (h : t.nodes.size < 2 ^ 32) (p : Prefix) (i : NodeId) :
    t.allocateBy NodeId.word p i = t.allocateBy NodeId.mk p i := by
  unfold allocateBy
  rw [NodeId.word_eq h]

/-- Where the next node is missing it is made, and the walk goes on from there. -/
theorem insertBelowBy_none (h : t.isMarked i = false)
    (hnext : (t.node i).child (p.bit (p.len - (n + 1))) = none) :
    insertBelowBy number p (n + 1) t i =
      let made := t.allocateBy number ((t.block i).extend (p.bit (p.len - (n + 1)))) i
      insertBelowBy number p n (made.1.update i (·.link (p.bit (p.len - (n + 1))) (some made.2)))
        made.2 := by
  rw [insertBelowBy, if_neg (ne_true_of_eq_false h)]
  simp only [hnext]

/-- Where there is a next node the walk goes on from there. -/
theorem insertBelowBy_some {next : NodeId} (h : t.isMarked i = false)
    (hnext : (t.node i).child (p.bit (p.len - (n + 1))) = some next) :
    insertBelowBy number p (n + 1) t i = insertBelowBy number p n t next := by
  rw [insertBelowBy, if_neg (ne_true_of_eq_false h)]
  simp only [hnext]

/-- A mark on the way ends the walk: the prefix is covered. -/
theorem insertBelowBy_marked (h : t.isMarked i = true) :
    insertBelowBy number p (n + 1) t i = (t, .covered (t.block i)) := by
  rw [insertBelowBy, if_pos h]

/-- A mark at the end of the way ends it, too: the prefix is a duplicate. -/
theorem insertBelowBy_zero_marked (h : t.isMarked i = true) :
    insertBelowBy number p 0 t i = (t, .duplicate i) := by
  rw [insertBelowBy, if_pos h]

/-- At the end of the way the node is marked, and what is below it is swept. -/
theorem insertBelowBy_zero_unmarked (h : t.isMarked i = false) :
    insertBelowBy number p 0 t i =
      (((t.mark i).sweepBelow i).1, .inserted i ((t.mark i).sweepBelow i).2) := by
  rw [insertBelowBy, if_neg (ne_true_of_eq_false h)]

/-- No bit of the path takes more than one slot, however the slots are numbered. -/
theorem size_insertBelowBy (number : Nat → NodeId) (p : Prefix) (n : Nat) (t : Trie) (i : NodeId) :
    t.nodes.size ≤ (insertBelowBy number p n t i).1.nodes.size ∧
      (insertBelowBy number p n t i).1.nodes.size ≤ t.nodes.size + n := by
  induction n generalizing t i with
  | zero =>
    cases h : t.isMarked i with
    | true => simp [insertBelowBy_zero_marked h]
    | false => simp [insertBelowBy_zero_unmarked h]
  | succ n ih =>
    cases h : t.isMarked i with
    | true => simp [insertBelowBy_marked h]
    | false =>
      cases hnext : (t.node i).child (p.bit (p.len - (n + 1))) with
      | some next =>
        rw [insertBelowBy_some h hnext]
        exact ⟨(ih t next).1, (ih t next).2.trans (by omega)⟩
      | none =>
        rw [insertBelowBy_none h hnext]
        have hmade := allocateBy_fst number t ((t.block i).extend (p.bit (p.len - (n + 1)))) i
        have hlow := t.size_le_size_allocate ((t.block i).extend (p.bit (p.len - (n + 1)))) i
        have hhigh := t.size_allocate_le ((t.block i).extend (p.bit (p.len - (n + 1)))) i
        rw [← hmade] at hlow hhigh
        generalize t.allocateBy number ((t.block i).extend (p.bit (p.len - (n + 1)))) i = made
          at hlow hhigh ⊢
        dsimp only
        have hrest := ih (made.1.update i (·.link (p.bit (p.len - (n + 1))) (some made.2))) made.2
        rw [size_update] at hrest
        omega

/-- An insertion does not make the array shorter, however the slots are numbered. -/
theorem size_le_size_insertBy (number : Nat → NodeId) (t : Trie) (p : Prefix) :
    t.nodes.size ≤ (t.insertBy number p).1.nodes.size :=
  (size_insertBelowBy number p p.len t rootId).1

/-- It makes the array longer by 32 slots at most. -/
theorem size_insertBy_le (number : Nat → NodeId) (t : Trie) (p : Prefix) :
    (t.insertBy number p).1.nodes.size ≤ t.nodes.size + 32 :=
  (size_insertBelowBy number p p.len t rootId).2.trans (Nat.add_le_add_left p.len_le _)

/-- The array is never shorter on the way than it was before, so all slots on the way have their
own numbers if those at the end have. -/
theorem insertBelowBy_word (h : (insertBelowBy NodeId.word p n t i).1.nodes.size < 2 ^ 32) :
    insertBelowBy NodeId.word p n t i = insertBelowBy NodeId.mk p n t i := by
  induction n generalizing t i with
  | zero => rw [insertBelowBy, insertBelowBy]
  | succ n ih =>
    have hsize := (size_insertBelowBy NodeId.word p (n + 1) t i).1.trans_lt h
    cases hm : t.isMarked i with
    | true => rw [insertBelowBy_marked hm, insertBelowBy_marked hm]
    | false =>
      cases hnext : (t.node i).child (p.bit (p.len - (n + 1))) with
      | some next =>
        rw [insertBelowBy_some hm hnext] at h ⊢
        rw [insertBelowBy_some hm hnext, ih h]
      | none =>
        rw [insertBelowBy_none hm hnext] at h ⊢
        rw [insertBelowBy_none hm hnext, ih h, allocateBy_word hsize]

/-- **Words number a short array as all numbers would.** -/
theorem insertBy_word (h : (t.insertBy NodeId.word p).1.nodes.size < 2 ^ 32) :
    t.insertBy NodeId.word p = t.insertBy NodeId.mk p :=
  insertBelowBy_word h

end Trie

namespace Represents

variable {t : Trie} {slot : Prefix → NodeId} {s : Outline} {p : Prefix} {n : Nat}

/-- From any node of the path on, the walk with a sweep at its end leaves the same nodes as the walk
with a list, and has the same outcome. -/
theorem insertBelowBy_reordered (h : Represents t slot s) (hn : n ≤ p.len)
    (hnode : p.take (p.len - n) ∈ s.nodes) :
    (Trie.insertBelow p n t (slot (p.take (p.len - n)))).1.Reordered
        (Trie.insertBelowBy NodeId.mk p n t (slot (p.take (p.len - n)))).1 ∧
      (Trie.insertBelowBy NodeId.mk p n t (slot (p.take (p.len - n)))).2 =
        (Trie.insertBelow p n t (slot (p.take (p.len - n)))).2 := by
  induction n generalizing t slot s with
  | zero =>
    rw [Nat.sub_zero, Prefix.take_len] at hnode ⊢
    cases hm : t.isMarked (slot p) with
    | true =>
      rw [Trie.insertBelow_zero_marked hm, Trie.insertBelowBy_zero_marked hm]
      exact ⟨.refl t, rfl⟩
    | false =>
      have hmarked := h.mark hnode
      rw [Trie.insertBelow_zero_unmarked hm, Trie.insertBelowBy_zero_unmarked hm]
      refine ⟨hmarked.sweepBelow_fst hnode, ?_⟩
      rw [hmarked.sweepBelow_snd hnode]
  | succ n ih =>
    cases hm : t.isMarked (slot (p.take (p.len - (n + 1)))) with
    | true =>
      rw [Trie.insertBelow_marked hm, Trie.insertBelowBy_marked hm]
      exact ⟨.refl t, rfl⟩
    | false =>
      have hchild := Prefix.isChild_path (p := p) hn
      by_cases hc : p.take (p.len - n) ∈ s.nodes
      · have hnext := (h.node hnode).child_eq_some hc hchild
        rw [Trie.insertBelow_some hm hnext, Trie.insertBelowBy_some hm hnext]
        exact ih h (by omega) hc
      · have hnext := (h.node hnode).child_eq_none hc hchild
        have hw := h.allocate_child hnode hc hchild
        rw [Trie.insertBelow_none hm hnext, Trie.insertBelowBy_none hm hnext, Trie.allocateBy_mk,
          h.extend_block_slot hnode hn]
        have hmade := ih hw (by omega) (Finset.mem_insert_self _ _)
        rwa [Function.update_self] at hmade

/-- **An insertion with a walk at its end is the insertion of the trie.** -/
theorem insertBy_reordered (h : Represents t slot s) (p : Prefix) :
    (t.insert p).1.Reordered (t.insertBy NodeId.mk p).1 ∧
      (t.insertBy NodeId.mk p).2 = (t.insert p).2 := by
  have heq := h.insertBelowBy_reordered (Nat.le_refl p.len) (p.path_start ▸ s.root_mem)
  rwa [p.path_start, h.slot_root] at heq

end Represents

end CidrCover
