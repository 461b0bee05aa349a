import CidrCover.Proofs.Trie.Growth
import CidrCover.Proofs.Trie.Links
import Mathlib.Data.Set.Card

/-!
# The slots of an arena

An arena is sound if its slots are shared out between the nodes that the links reach and the free
slots, none of them twice, and if the links of the nodes make a tree (`Trie.Integrity`). A slot that
were given up twice, or given out again while a link still leads to it, would spoil some part of the
tree long afterwards and far away.

`Trie.Reached method k peak t` says that some changes lead from the empty trie to `t`, that `k` of
them were insertions and that `peak` is the largest number of nodes that there have been. Insertions
and prunings can be carried out in two ways: by lists of nodes, as `insert` and `prune` do, or by
walks with a stack and with slots numbered in words of 32 bits. In both cases the free slots may be
put in another order at any time.

* `Reached.listed`: as long as the array is shorter than `2 ^ 32`, what is reached with walks and
  words is reached with lists, too.
* **Every arena that is reached is sound** (`Trie.arena_integrity`). Its array is as long as the
  trie has ever been large, 32 slots for each insertion and one for the root at most, so words do
  for fewer than `2 ^ 27` insertions.
-/

namespace CidrCover

namespace Trie

/-! ### Changes -/

/-- A way to carry out the changes that can be carried out in more than one way. -/
structure Method where
  insert : Trie → Prefix → Trie
  prune : Trie → NodeId → Trie

/-- Nodes are listed before they are dropped, and slots have any numbers. -/
def Method.listed : Method where
  insert t p := (t.insert p).1
  prune t i := (t.prune i).1

/-- Nodes are dropped by a walk with a stack, and slots are numbered in words. -/
def Method.walked : Method where
  insert t p := (t.insertBy NodeId.word p).1
  prune t i := (t.sweepBelow i).1

/-- One change of a trie, with the number of insertions that it is. -/
inductive Change (method : Method) : Nat → Trie → Trie → Prop
  | insert (t : Trie) (p : Prefix) : Change method 1 t (method.insert t p)
  | mark {t : Trie} {i : NodeId} (hi : t.Reachable i) : Change method 0 t (t.mark i)
  | prune {t : Trie} {i : NodeId} (hi : t.Reachable i) : Change method 0 t (method.prune t i)
  | detach {t : Trie} {i : NodeId} (hi : t.Reachable i) (hleaf : i = rootId ∨ t.isChildless i) :
      Change method 0 t (t.detach i).1
  | reorder {t u : Trie} (hu : t.Reordered u) : Change method 0 t u

/-- Some changes lead to the trie: `k` of them are insertions, and `peak` is the largest number of
nodes before and after them. -/
inductive Reached (method : Method) : Nat → Nat → Trie → Prop
  | start : Reached method 0 empty.nodeCount empty
  | step {k peak c : Nat} {t u : Trie} (ht : Reached method k peak t) (hu : Change method c t u) :
      Reached method (k + c) (max peak u.nodeCount) u

/-- Each slot is a node that the links reach or a free slot, and the links make a tree. -/
structure Integrity (t : Trie) : Prop where
  /-- No slot is free twice. -/
  free_nodup : t.free.Nodup
  /-- No free slot is reached. -/
  not_reachable : ∀ i ∈ t.free, ¬ t.Reachable i
  /-- The counter is the number of nodes. -/
  live_eq : Set.encard {i | t.Reachable i} = t.live
  /-- Every slot is reached or free. -/
  slots : ∀ i : NodeId, i.index < t.nodes.size ↔ t.Reachable i ∨ i ∈ t.free
  balance : t.live + t.free.length = t.nodes.size
  /-- A node other than the root is a child of the parent that it names and of no other node. -/
  parent : ∀ i, t.Reachable i → i ≠ rootId → ∃ j, t.Reachable j ∧ t.parent? i = some j ∧
    ∀ l, t.Reachable l → (i ∈ (t.node l).children ↔ l = j)
  /-- No node is a child along both bits. -/
  children_nodup : ∀ i, t.Reachable i → (t.node i).children.Nodup

/-- The command to insert leaves the trie of the insertion. -/
theorem perform_insert_fst (t : Trie) (p : Prefix) :
    (t.perform (.insert p)).1 = (t.insert p).1 := by
  rcases hinsert : t.insert p with ⟨u, outcome⟩
  cases outcome <;> simp only [perform, hinsert]

end Trie

/-! ### Arenas that represent an outline -/

namespace Represents

variable {t u : Trie} {slot : Prefix → NodeId} {s : Outline} {i : NodeId} {c : Nat}

/-- The nodes and the free slots take up the whole array. -/
theorem image_union_free (h : Represents t slot s) :
    s.nodes.image slot ∪ t.free.toFinset = (Finset.range t.nodes.size).image NodeId.mk := by
  have hinj : Function.Injective NodeId.mk := fun m n he => congrArg NodeId.index he
  have hnodes : (s.nodes.image slot).card = t.live := by
    rw [Finset.card_image_of_injOn (fun p hp q hq => h.slot_inj hp hq), h.live_eq]
  have hdisjoint : Disjoint (s.nodes.image slot) t.free.toFinset := by
    rw [Finset.disjoint_left]
    intro i hi hfree
    obtain ⟨p, hp, rfl⟩ := Finset.mem_image.mp hi
    exact h.slot_notMem_free hp (List.mem_toFinset.mp hfree)
  apply Finset.eq_of_subset_of_card_le
  · intro i hi
    have hlt : i.index < t.nodes.size := by
      rcases Finset.mem_union.mp hi with hi | hi
      · obtain ⟨p, hp, rfl⟩ := Finset.mem_image.mp hi
        exact h.index_lt hp
      · exact h.free_lt i (List.mem_toFinset.mp hi)
    exact Finset.mem_image.mpr ⟨i.index, Finset.mem_range.mpr hlt, rfl⟩
  · rw [Finset.card_image_of_injective _ hinj, Finset.card_range, Finset.card_union_of_disjoint
      hdisjoint, hnodes, List.toFinset_card_of_nodup h.free_nodup, h.balance]

/-- The slots of the array are those that are reached and those that are free. -/
theorem index_lt_iff (h : Represents t slot s) (i : NodeId) :
    i.index < t.nodes.size ↔ t.Reachable i ∨ i ∈ t.free := by
  have hmem := Finset.ext_iff.mp h.image_union_free i
  rw [Finset.mem_union, Finset.mem_image, List.mem_toFinset, ← h.reachable_iff] at hmem
  rw [hmem, Finset.mem_image]
  constructor
  · intro hi
    exact ⟨i.index, Finset.mem_range.mpr hi, rfl⟩
  · rintro ⟨n, hn, rfl⟩
    exact Finset.mem_range.mp hn

/-- As many slots are reached as the counter says. -/
theorem encard_reachable (h : Represents t slot s) :
    Set.encard {i | t.Reachable i} = t.live := by
  have himage : {i | t.Reachable i} = slot '' s.nodes := by
    ext i
    exact h.reachable_iff
  have hinj : Set.InjOn slot s.nodes := fun p hp q hq => h.slot_inj hp hq
  rw [himage, hinj.encard_image, Set.encard_coe_eq_coe_finsetCard, h.live_eq]

/-- No node has one child along both bits. -/
theorem children_nodup (h : Represents t slot s) (hi : t.Reachable i) :
    (t.node i).children.Nodup := by
  obtain ⟨p, hp, rfl⟩ := h.reachable_iff.mp hi
  obtain ⟨cs, hchildren, hapart, hcs⟩ := (h.node hp).exists_children
  have hnodup : cs.Nodup := by
    refine hapart.imp ?_
    rintro c _ hcc rfl
    exact hcc c c.contains_refl c.contains_refl
  rw [← List.nodup_reverse, hchildren]
  apply hnodup.map_on
  intro c hc d hd he
  exact h.slot_inj ((hcs c).mp hc).1 ((hcs d).mp hd).1 he

/-- **The arena of an outline is sound.** -/
theorem integrity (h : Represents t slot s) : t.Integrity where
  free_nodup := h.free_nodup
  not_reachable i hfree hi := by
    obtain ⟨p, hp, rfl⟩ := h.reachable_iff.mp hi
    exact h.slot_notMem_free hp hfree
  live_eq := h.encard_reachable
  slots := h.index_lt_iff
  balance := h.balance
  parent i hi hne := by
    obtain ⟨p, hp, rfl⟩ := h.reachable_iff.mp hi
    have hroot : p ≠ Prefix.root := by
      rintro rfl
      exact hne h.slot_root
    have hparent : t.parent? (slot p) = some (slot p.parent) := by
      rw [h.parent?_slot hp, Prefix.parent?_eq_some hroot, Option.map_some]
    refine ⟨slot p.parent, h.reachable_slot (s.closed hp p.parent_contains), hparent, ?_⟩
    intro l hl
    rw [h.mem_children_iff hi hl, hparent, Option.some.injEq, eq_comm]
  children_nodup i hi := h.children_nodup hi

/-- **One change leaves a sound arena**, and makes its array no longer than the nodes need it. -/
theorem change (h : Represents t slot s) (hu : Trie.Change .listed c t u) :
    (∃ slot' s', Represents u slot' s') ∧ u.nodes.size = max t.nodes.size u.nodeCount ∧
      u.nodes.size ≤ t.nodes.size + 32 * c := by
  -- but for an insertion, the array stays as long as it is, and no node is added
  have hkeep : ∀ {v : Trie}, v.nodes.size = t.nodes.size → v.nodeCount ≤ t.nodeCount →
      v.nodes.size = max t.nodes.size v.nodeCount ∧ v.nodes.size ≤ t.nodes.size + 32 * 0 := by
    intro v hsize hcount
    rw [hsize, Nat.max_eq_left (hcount.trans h.nodeCount_le_size)]
    exact ⟨rfl, Nat.le_refl _⟩
  cases hu with
  | insert _ p =>
    obtain ⟨slot', hrep, -, -⟩ := h.performs_insert p
    rw [Trie.perform_insert_fst] at hrep
    have hle := Trie.size_insertBy_le NodeId.mk t p
    rw [(h.insertBy_reordered p).1.nodes_eq] at hle
    exact ⟨⟨slot', _, hrep⟩, h.size_insert p, hle⟩
  | @mark _ i hi =>
    obtain ⟨p, hp, rfl⟩ := h.reachable_iff.mp hi
    exact ⟨⟨slot, _, h.mark hp⟩, hkeep (t.size_mark _) (Nat.le_refl _)⟩
  | @prune _ i hi =>
    obtain ⟨p, hp, rfl⟩ := h.reachable_iff.mp hi
    exact ⟨⟨slot, _, h.prune hp⟩, hkeep (t.size_prune _) (t.nodeCount_prune_le _)⟩
  | @detach _ i hi hleaf =>
    obtain ⟨p, hp, rfl⟩ := h.reachable_iff.mp hi
    refine ⟨?_, hkeep (t.size_detach _) (t.nodeCount_detach_le _)⟩
    by_cases hne : p = Prefix.root
    · subst hne
      rw [h.detach_root]
      exact ⟨slot, s, h⟩
    · have hnot : slot p ≠ Trie.rootId := by
        rw [← h.slot_root]
        exact h.slot_ne hp s.root_mem hne
      have hchildless := (h.isChildless_iff hp).mp (hleaf.resolve_left hnot)
      exact ⟨slot, _, h.detach hp hne hchildless⟩
  | reorder hu =>
    exact ⟨⟨slot, s, h.of_reordered hu⟩,
      hkeep (congrArg Array.size hu.nodes_eq) (Nat.le_of_eq hu.live_eq)⟩

end Represents

/-! ### Runs -/

namespace Trie

variable {method : Method} {k peak c : Nat} {t u v : Trie}

/-- With lists, all that is reached represents some outline. -/
theorem Reached.represents (h : Reached .listed k peak t) :
    (∃ slot s, Represents t slot s) ∧ t.nodes.size = peak ∧ t.nodes.size ≤ 1 + 32 * k := by
  induction h with
  | start => exact ⟨⟨_, _, represents_empty⟩, rfl, Nat.le_refl _⟩
  | step _ hu ih =>
    obtain ⟨⟨slot, s, h⟩, hpeak, hle⟩ := ih
    obtain ⟨hrep, hsize, hgrown⟩ := h.change hu
    rw [← hpeak]
    exact ⟨hrep, hsize, by omega⟩

/-- With lists, all that is reached is sound and has an array that is as long as the largest number
of nodes. -/
theorem Reached.integrity (h : Reached .listed k peak t) :
    t.Integrity ∧ t.nodes.size = peak ∧ t.nodes.size ≤ 1 + 32 * k := by
  obtain ⟨⟨slot, s, hrep⟩, hsize⟩ := h.represents
  exact ⟨hrep.integrity, hsize⟩

/-- With walks and words, a change makes the array no shorter and not much longer. -/
theorem Change.size_le (h : Change .walked c t u) :
    t.nodes.size ≤ u.nodes.size ∧ u.nodes.size ≤ t.nodes.size + 32 * c := by
  have hkeep : ∀ {v : Trie}, v.nodes.size = t.nodes.size →
      t.nodes.size ≤ v.nodes.size ∧ v.nodes.size ≤ t.nodes.size + 32 * 0 := by
    intro v hsize
    rw [hsize]
    exact ⟨Nat.le_refl _, Nat.le_refl _⟩
  cases h with
  | insert _ p => exact ⟨size_le_size_insertBy _ t p, size_insertBy_le _ t p⟩
  | mark _ => exact hkeep (t.size_mark _)
  | prune _ => exact hkeep (t.size_sweepBelow _)
  | detach _ _ => exact hkeep (t.size_detach _)
  | reorder hu => exact hkeep (congrArg Array.size hu.nodes_eq)

/-- With walks and words, the array has 32 slots for each insertion and one for the root at most. -/
theorem Reached.size_le (h : Reached .walked k peak t) : t.nodes.size ≤ 1 + 32 * k := by
  induction h with
  | start => exact Nat.le_refl _
  | step _ hu ih =>
    have hgrown := hu.size_le.2
    omega

/-- A change after which the free slots are put in another order. -/
theorem Reached.step_reordered (ht : Reached method k peak t) (hu : Change method c t u)
    (hv : u.Reordered v) : Reached method (k + c) (max peak v.nodeCount) v := by
  have hcount : v.nodeCount = u.nodeCount := hv.live_eq
  have hreached := (ht.step hu).step (.reorder hv)
  rwa [hcount, Nat.max_assoc, Nat.max_self, ← hcount] at hreached

/-- **Walks and words reach nothing that lists do not reach**, as long as the array is short. -/
theorem Reached.listed (h : Reached .walked k peak t) (hsize : t.nodes.size < 2 ^ 32) :
    Reached .listed k peak t := by
  induction h with
  | start => exact .start
  | @step k peak c t u _ hu ih =>
    have ht := ih (hu.size_le.1.trans_lt hsize)
    obtain ⟨⟨slot, s, h⟩, -⟩ := ht.represents
    cases hu with
    | insert _ p =>
      have hword : t.insertBy NodeId.word p = t.insertBy NodeId.mk p := insertBy_word hsize
      apply ht.step_reordered (.insert t p)
      show (t.insert p).1.Reordered (t.insertBy NodeId.word p).1
      rw [hword]
      exact (h.insertBy_reordered p).1
    | mark hi => exact ht.step (.mark hi)
    | @prune _ i hi =>
      obtain ⟨p, hp, rfl⟩ := h.reachable_iff.mp hi
      exact ht.step_reordered (.prune hi) (h.sweepBelow_fst hp)
    | detach hi hleaf => exact ht.step (.detach hi hleaf)
    | reorder hu => exact ht.step (.reorder hu)

/-- **Every arena that is reached is sound**: no slot is lost, free twice or free while it is in
use, and none is added while one is free. With words this holds as long as the array is shorter
than `2 ^ 32`, which fewer than `2 ^ 27` insertions cannot change. -/
theorem arena_integrity {k peak : Nat} {t : Trie} :
    (Reached .listed k peak t →
      t.Integrity ∧ t.nodes.size = peak ∧ t.nodes.size ≤ 1 + 32 * k) ∧
    (Reached .walked k peak t →
      (t.nodes.size < 2 ^ 32 → Reached .listed k peak t ∧ t.Integrity ∧ t.nodes.size = peak) ∧
        t.nodes.size ≤ 1 + 32 * k ∧
        ∀ p, k + 1 < 2 ^ 27 → t.insertBy NodeId.word p = t.insertBy NodeId.mk p) := by
  refine ⟨Reached.integrity, fun h => ⟨fun hsize => ?_, h.size_le, fun p hk => ?_⟩⟩
  · have hlisted := h.listed hsize
    obtain ⟨hsound, hpeak, -⟩ := hlisted.integrity
    exact ⟨hlisted, hsound, hpeak⟩
  · apply insertBy_word
    have hle := (h.step (.insert t p)).size_le
    have hbound : 1 + 32 * (k + 1) < 2 ^ 32 := by omega
    exact hle.trans_lt hbound

/-- The second insertion finds the slots that the first one took and the walk gave up. -/
theorem arena_integrity_of_reuse :
    let t := (((empty.insertBy NodeId.word (.host 10)).1.sweepBelow rootId).1.insertBy
      NodeId.word (.host 11)).1
    Reached .walked 2 33 t ∧ Reached .listed 2 33 t ∧ t.nodes.size < 2 ^ 32 ∧ t.Integrity ∧
      t.nodes.size = 33 ∧
      t.insertBy NodeId.word (.host 10) = t.insertBy NodeId.mk (.host 10) := by
  intro t
  obtain ⟨peak, hpeak, hwalked⟩ : ∃ peak, peak = 33 ∧ Reached .walked 2 peak t :=
    ⟨_, by decide +kernel,
      ((Reached.start.step (.insert empty (.host 10))).step (.prune .root)).step
        (.insert _ (.host 11))⟩
  subst hpeak
  have hsize : t.nodes.size < 2 ^ 32 := by decide +kernel
  obtain ⟨hshort, -, hwords⟩ := arena_integrity.2 hwalked
  obtain ⟨hlisted, -, hpeak⟩ := hshort hsize
  exact ⟨hwalked, hlisted, hsize, (arena_integrity.1 hlisted).1, hpeak,
    hwords (.host 10) (by decide)⟩

end Trie

end CidrCover
