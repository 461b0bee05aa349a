import CidrCover.Proofs.Antichain.Folding
import CidrCover.Proofs.Antichain.Listing
import CidrCover.Proofs.Leaves
import CidrCover.Proofs.Trie.Insertion
import CidrCover.Reduction.Machine

/-!
# Reductions carry out their specification

`Realizes r slot s` says that the trie of `r` has the members of `s` as its marks and nodes only at
and above them (`Antichain.outline`), that the table lists the same members with the same slots, and
that the folds are counted alike. Adding, folding and reducing keep this up, each with the answer of
the specification:

* `Realizes.add`: the three outcomes of an insertion are the two cases of the specification, since a
  duplicate and a covered prefix are both held.
* `Realizes.step_of_finished` and `step_of_not_finished`: a step folds just if the specification
  does. The greatest entry has no node below it, since all nodes lie at or above members; its parent
  is not marked, since the members are not nested.
* **The fuel is enough** (`Realizes.reduceWith`): each fold gives up the nodes of the members that it
  folds, and no other node (`Antichain.card_nodes_outline_fold`), so there are fewer folds to make
  than nodes.
-/

namespace CidrCover

/-! ### The nodes that a set needs -/

namespace Antichain

variable {S : Antichain} {p q : Prefix}

/-- The members, marked, with all that is above them, and the root. -/
def outline (S : Antichain) : Outline where
  nodes := Insert.insert Prefix.root (S.members.biUnion Prefix.ancestors)
  marks := S.members
  root_mem := Finset.mem_insert_self _ _
  closed {p q} hp hqp := by
    simp only [Finset.mem_insert, Finset.mem_biUnion, Prefix.mem_ancestors] at hp ⊢
    rcases hp with rfl | ⟨r, hr, hpr⟩
    · exact Or.inl (Prefix.eq_root_of_contains_root hqp)
    · exact Or.inr ⟨r, hr, Prefix.contains_trans hqp hpr⟩
  marks_subset := by
    intro p hp
    simp only [Finset.mem_insert, Finset.mem_biUnion, Prefix.mem_ancestors]
    exact Or.inr ⟨p, hp, p.contains_refl⟩

/-- The nodes are the root and what lies at or above a member. -/
theorem mem_nodes_outline :
    q ∈ S.outline.nodes ↔ q = Prefix.root ∨ ∃ p ∈ S.members, q.contains p := by
  simp only [outline, Finset.mem_insert, Finset.mem_biUnion, Prefix.mem_ancestors]

/-- The members are what is marked. -/
@[simp] theorem marks_outline : S.outline.marks = S.members := rfl

/-- On a set that has nothing above a prefix, inserting is widening. -/
theorem outline_widen (h : ¬ S.Holds p) : S.outline.insert p = (S.widen p h).outline := by
  ext q
  · simp only [Outline.mem_nodes_insert, mem_nodes_outline, mem_widen]
    constructor
    · rintro ⟨(rfl | ⟨r, hr, hqr⟩) | hqp, hpq⟩
      · exact Or.inl rfl
      · by_cases hpr : p.contains r
        · -- the chain of what contains `r` has both `p` and `q`
          rcases Prefix.contains_total hqr hpr with hqp | hpq'
          · exact Or.inr ⟨p, Or.inl rfl, hqp⟩
          · obtain rfl : p = q := by_contra fun hne => hpq ⟨hpq', hne⟩
            exact Or.inr ⟨p, Or.inl rfl, hpq'⟩
        · exact Or.inr ⟨r, Or.inr ⟨hr, hpr⟩, hqr⟩
      · exact Or.inr ⟨p, Or.inl rfl, hqp⟩
    · rintro (rfl | ⟨r, rfl | ⟨hr, hpr⟩, hqr⟩)
      · exact ⟨Or.inl (Or.inl rfl), p.not_above_root⟩
      · exact ⟨Or.inr hqr, fun hrq => hrq.2 (Prefix.contains_antisymm hrq.1 hqr)⟩
      · exact ⟨Or.inl (Or.inr ⟨r, hr, hqr⟩), fun hpq => hpr (Prefix.contains_trans hpq.1 hqr)⟩
  · rw [Outline.mem_marks_insert, marks_outline, marks_outline, mem_widen_above]

/-! ### The nodes next to the greatest member -/

/-- The parent of a member has a node of its own, as all that is above a member. -/
theorem parent_mem_nodes_outline (hp : p ∈ S.members) : p.parent ∈ S.outline.nodes :=
  mem_nodes_outline.mpr (Or.inr ⟨p, hp, p.parent_contains⟩)

/-- No node is strictly below a member. -/
theorem not_above_of_mem_nodes_outline (hp : p ∈ S.members) :
    ∀ q ∈ S.outline.nodes, ¬ p.Above q := by
  intro q hq hpq
  rcases mem_nodes_outline.mp hq with rfl | ⟨r, hr, hqr⟩
  · exact p.not_above_root hpq
  · have hpr := hpq.of_contains hqr
    exact hpr.2 (S.eq_of_contains hp hr hpr.1)

/-- A fold of the greatest member inserts its parent. -/
theorem outline_fold (h : S.Foldable) :
    S.outline.insert (S.greatest h).parent = (S.fold h).outline :=
  outline_widen _

/-- What is left when the greatest member has been dropped and has not yet been folded. -/
def thinned (S : Antichain) (h : S.Foldable) : Outline :=
  S.outline.without (S.greatest h) (greatest_ne_root h)
    (not_above_of_mem_nodes_outline (greatest_mem h))

/-- Without the greatest member the other ones are still marked. -/
@[simp] theorem marks_thinned (h : S.Foldable) :
    (S.thinned h).marks = S.members.erase (S.greatest h) := rfl

/-- The parent of the greatest member still has its node. -/
theorem parent_mem_nodes_thinned (h : S.Foldable) :
    (S.greatest h).parent ∈ (S.thinned h).nodes :=
  Outline.mem_nodes_without.mpr
    ⟨Prefix.parent_ne (greatest_ne_root h), parent_mem_nodes_outline (greatest_mem h)⟩

/-- The parent of the greatest member is not marked, for it lies above a member. -/
theorem parent_notMem_marks_thinned (h : S.Foldable) :
    (S.greatest h).parent ∉ (S.thinned h).marks := by
  intro hmark
  exact not_holds_parent_greatest h (holds_of_mem (Finset.mem_of_mem_erase hmark))

/-- A fold puts the parent in the place of what has been dropped. -/
theorem insert_thinned (h : S.Foldable) :
    (S.thinned h).insert (S.greatest h).parent = (S.fold h).outline := by
  rw [thinned, Outline.insert_without (parent_greatest_above h), outline_fold]

/-- The nodes strictly below the parent of the greatest member are the members that are folded. -/
theorem filter_above_nodes_outline (h : S.Foldable) :
    S.outline.nodes.filter (fun q => (S.greatest h).parent.Above q) = S.folded h := by
  ext q
  rw [Finset.mem_filter, mem_nodes_outline]
  constructor
  · rintro ⟨rfl | ⟨r, hr, hqr⟩, hpq⟩
    · exact absurd hpq (Prefix.not_above_root _)
    · have hrf : r ∈ S.folded h := Finset.mem_filter.mpr ⟨hr, Prefix.contains_trans hpq.1 hqr⟩
      -- a node between the parent and its child is the child
      have hlen := (isChild_of_mem_folded h hrf).len_eq
      have hlt := Prefix.len_lt_of_contains hpq.1 hpq.2
      rwa [Prefix.eq_of_contains_of_len_le hqr (by omega)]
  · intro hq
    have hchild := isChild_of_mem_folded h hq
    exact ⟨Or.inr ⟨q, (Finset.mem_filter.mp hq).1, q.contains_refl⟩, hchild.contains, hchild.ne⟩

/-- A fold gives up the nodes of the folded members, and no other node. -/
theorem card_nodes_outline_fold (h : S.Foldable) :
    (S.fold h).outline.nodes.card + (S.folded h).card = S.outline.nodes.card := by
  have hpar := parent_mem_nodes_outline (greatest_mem h)
  have hkept : (S.fold h).outline.nodes =
      S.outline.nodes.filter fun q => ¬ (S.greatest h).parent.Above q := by
    ext q
    rw [← outline_fold h, Outline.mem_nodes_insert, Finset.mem_filter, or_iff_left_of_imp]
    exact S.outline.closed hpar
  rw [hkept, ← filter_above_nodes_outline h, Nat.add_comm]
  exact Finset.card_filter_add_card_filter_not _

end Antichain

/-! ### What is left in a table -/

/-- A table of the members, after the greatest of them has been taken out, its parent put in, and
what is strictly below that erased. -/
theorem Leaves.Lists.fold {l : Leaves} {slot : Prefix → NodeId} {S : Antichain} (hf : S.Foldable)
    (h : l.Lists (S.members.erase (S.greatest hf)) slot) :
    ((l.insert (S.greatest hf).parent (slot (S.greatest hf).parent)).eraseAll
      (((Insert.insert (S.greatest hf).parent (S.members.erase (S.greatest hf))).filter
        fun q => (S.greatest hf).parent.Above q).sort (· ≤ ·))).Lists
      (S.fold hf).members slot := by
  have hmembers : (S.fold hf).members =
      (Insert.insert (S.greatest hf).parent (S.members.erase (S.greatest hf))).filter
        fun q => ¬ (S.greatest hf).parent.Above q := by
    ext q
    unfold Antichain.fold
    rw [Antichain.mem_widen_above, Finset.mem_filter, Finset.mem_insert, Finset.mem_erase]
    constructor
    · rintro (rfl | ⟨hq, hpq⟩)
      · exact ⟨Or.inl rfl, Prefix.not_above_self _⟩
      · exact ⟨Or.inr ⟨fun he => hpq (he ▸ Antichain.parent_greatest_above hf), hq⟩, hpq⟩
    · rintro ⟨rfl | ⟨-, hq⟩, hpq⟩
      · exact Or.inl rfl
      · exact Or.inr ⟨hq, hpq⟩
  have hnew : (S.greatest hf).parent ∉ S.members.erase (S.greatest hf) := by
    intro hmem
    apply Antichain.not_holds_parent_greatest hf
    exact Antichain.holds_of_mem (Finset.mem_of_mem_erase hmem)
  rw [hmembers]
  exact (h.insert hnew).eraseAll_above _

/-! ### The relation -/

namespace Reduction

/-- The trie has the members as its marks and no other nodes than they need, the table lists the
members with their slots, and the folds are counted alike. -/
structure Realizes (r : Reduction) (slot : Prefix → NodeId) (s : SetReduction) : Prop where
  trie : Represents r.trie slot s.blocks.outline
  leaves : r.leaves.Lists s.blocks.members slot
  folds : r.folds = s.folds

/-- At the beginning there is a root that is no leaf. -/
theorem realizes_empty : Realizes empty (fun _ => Trie.rootId) SetReduction.empty where
  trie := represents_empty
  leaves := Leaves.lists_empty _
  folds := rfl

variable {r : Reduction} {t : Trie} {id : NodeId} {ps : List Prefix} {p c : Prefix} {n : Nat}

/-! ### The three outcomes of adding -/

/-- A prefix that was inserted goes into the table, and what it supersedes goes out of it. -/
theorem add_inserted (h : r.trie.insert p = (t, .inserted id ps)) :
    r.add p = (⟨t, (r.leaves.eraseAll ps).insert p id, r.folds⟩, .inserted id ps) := by
  simp only [add, h]

/-- A duplicate changes nothing. -/
theorem add_duplicate (h : r.trie.insert p = (r.trie, .duplicate id)) :
    r.add p = (r, .duplicate id) := by
  simp only [add, h]

/-- A covered prefix changes nothing. -/
theorem add_covered (h : r.trie.insert p = (r.trie, .covered c)) :
    r.add p = (r, .covered c) := by
  simp only [add, h]

namespace Realizes

variable {slot : Prefix → NodeId} {s : SetReduction}

/-- A prefix strictly below a member is covered by it. -/
theorem add_of_above {q : Prefix} (h : Realizes r slot s) (hq : q ∈ s.blocks.members)
    (hqp : q.Above p) : r.add p = (r, .covered q) := by
  apply add_covered
  apply h.trie.insert_covered hq hqp
  intro q' hq' hqp'
  rw [Antichain.eq_of_contains_of_contains hq hq' hqp.1 hqp'.1]
  exact q'.contains_refl

/-- A member is a duplicate. -/
theorem add_of_mem (h : Realizes r slot s) (hp : p ∈ s.blocks.members) :
    r.add p = (r, .duplicate (slot p)) := by
  apply add_duplicate
  apply h.trie.insert_duplicate hp
  intro q hq hqp
  exact hqp.2 (s.blocks.eq_of_contains hq hp hqp.1)

/-- Any other prefix is inserted, and the members that it contains are superseded. -/
theorem add_of_not_holds (h : Realizes r slot s) (hp : ¬ s.blocks.Holds p) :
    ∃ slot' r', Realizes r' slot' (s.add p) ∧
      r.add p = (r', .inserted (slot' p)
        ((s.blocks.members.filter fun q => p.Above q).sort (· ≤ ·))) := by
  have hnone : ∀ q ∈ s.blocks.outline.marks, ¬ q.contains p := fun q hq hqp => hp ⟨q, hq, hqp⟩
  obtain ⟨slot', htrie, hout, hold⟩ := h.trie.insert_inserted hnone
  have hblocks : (s.add p).blocks = s.blocks.widen p hp := Antichain.add_of_not_holds hp
  have hkept : ∀ q ∈ s.blocks.members, slot' q = slot q := fun q hq =>
    hold q (s.blocks.outline.marks_subset hq)
  refine ⟨slot', _, ⟨?_, ?_, ?_⟩, add_inserted (Prod.ext rfl hout)⟩
  · rw [hblocks, ← Antichain.outline_widen]
    exact htrie
  · have hmembers : (s.blocks.widen p hp).members =
        Insert.insert p (s.blocks.members.filter fun q => ¬ p.Above q) := by
      ext q
      rw [Antichain.mem_widen_above, Finset.mem_insert, Finset.mem_filter]
    rw [hblocks, hmembers]
    apply ((h.leaves.congr hkept).eraseAll_above p).insert
    intro hmem
    exact hp (Antichain.holds_of_mem (Finset.mem_filter.mp hmem).1)
  · exact h.folds

/-- After adding, trie and table go on with the set of the specification. -/
theorem add (h : Realizes r slot s) (p : Prefix) :
    ∃ slot', Realizes (r.add p).1 slot' (s.add p) := by
  by_cases hp : s.blocks.Holds p
  · have hs : s.add p = s := SetReduction.ext (Antichain.add_of_holds hp) rfl
    rw [hs]
    obtain ⟨q, hq, hqp⟩ := hp
    by_cases hne : q = p
    · subst hne
      rw [h.add_of_mem hq]
      exact ⟨slot, h⟩
    · rw [h.add_of_above hq ⟨hqp, hne⟩]
      exact ⟨slot, h⟩
  · obtain ⟨slot', r', hr', hadd⟩ := h.add_of_not_holds hp
    rw [hadd]
    exact ⟨slot', hr'⟩

end Realizes

/-! ### The three outcomes of a step -/

/-- A step that finds the budget met changes nothing. -/
theorem step_of_size_le (h : r.leaves.size ≤ n) : r.step n = (r, none) := by
  simp only [step, if_pos h]

/-- A step whose entry the trie does not let go changes nothing. -/
theorem step_of_detach_none {leaf : Prefix} {rest : Leaves} (hsize : ¬ r.leaves.size ≤ n)
    (hpop : r.leaves.popMax? = some ((leaf, id), rest))
    (hdetach : r.trie.detach id = (r.trie, none)) : r.step n = (r, none) := by
  simp only [step, if_neg hsize, hpop, hdetach]

/-- A step that folds marks the parent, puts it into the table and erases what is swept below it. -/
theorem step_of_detach_some {leaf : Prefix} {rest : Leaves} {parent : NodeId}
    (hsize : ¬ r.leaves.size ≤ n) (hpop : r.leaves.popMax? = some ((leaf, id), rest))
    (hdetach : r.trie.detach id = (t, some parent)) (hmark : t.isMarked parent = false)
    {into : Prefix} (hblock : t.block parent = into)
    (hswept : ((t.mark parent).prune parent).2 = ps) :
    r.step n =
      (⟨((t.mark parent).prune parent).1, (rest.insert into parent).eraseAll ps, r.folds + 1⟩,
        some ⟨leaf, into, ((rest.insert into parent).eraseAll ps).size⟩) := by
  subst hblock hswept
  simp only [step, if_neg hsize, hpop, hdetach, hmark, Bool.false_eq_true, if_false]

namespace Realizes

variable {slot : Prefix → NodeId} {s : SetReduction}

/-- The table has one entry for each member. -/
theorem size_eq (h : Realizes r slot s) : r.leaves.size = s.blocks.members.card :=
  h.leaves.size_eq

/-- At the end of folding, a step changes nothing. The root as the only leaf is taken out of the
table and put back, for the trie does not let it go. -/
theorem step_of_finished (h : Realizes r slot s) (hn : s.blocks.Finished n) :
    r.step n = (r, none) := by
  by_cases hsize : r.leaves.size ≤ n
  · exact step_of_size_le hsize
  · have hroot : s.blocks.members = {Prefix.root} := by
      rw [h.size_eq] at hsize
      exact hn.resolve_left hsize
    have hleaves := h.leaves
    rw [hroot] at hleaves
    obtain ⟨rest, hpop, -⟩ := hleaves.popMax?_eq (Finset.singleton_nonempty _)
    rw [Finset.max'_singleton] at hpop
    exact step_of_detach_none hsize hpop h.trie.detach_root

/-- The trie lets the greatest member go, and its answer is the parent. -/
theorem detach_greatest (h : Realizes r slot s) (hf : s.blocks.Foldable) :
    ∃ t, r.trie.detach (slot (s.blocks.greatest hf)) =
        (t, some (slot (s.blocks.greatest hf).parent)) ∧
      Represents t slot (s.blocks.thinned hf) := by
  have hmem := Antichain.greatest_mem hf
  have hne := Antichain.greatest_ne_root hf
  have hnode := s.blocks.outline.marks_subset hmem
  have ht := h.trie.detach hnode hne (Antichain.not_above_of_mem_nodes_outline hmem)
  rw [h.trie.detach_eq hnode hne] at ht
  exact ⟨_, h.trie.detach_eq hnode hne, ht⟩

/-- Otherwise it folds the greatest member into its parent. -/
theorem step_of_not_finished (h : Realizes r slot s) (hn : ¬ s.blocks.Finished n) :
    let hf := Antichain.foldable_of_not_finished hn
    ∃ r', Realizes r' slot (s.fold hf) ∧
      r.step n = (r', some ⟨s.blocks.greatest hf, (s.blocks.greatest hf).parent,
        (s.blocks.fold hf).members.card⟩) := by
  intro hf
  have hsize : ¬ r.leaves.size ≤ n := by
    rw [h.size_eq]
    exact (not_or.mp hn).1
  obtain ⟨rest, hpop, hrest⟩ := h.leaves.popMax?_eq hf.nonempty
  obtain ⟨t, hdetach, ht⟩ := h.detach_greatest hf
  have hpar := Antichain.parent_mem_nodes_thinned hf
  have hunmarked := ht.isMarked_eq_false hpar (Antichain.parent_notMem_marks_thinned hf)
  have hm := ht.mark hpar
  have htrie := hm.prune hpar
  rw [Outline.prune_mark, Antichain.insert_thinned] at htrie
  have hlists := hrest.fold hf
  refine ⟨⟨_, _, _⟩, ⟨htrie, hlists, congrArg (· + 1) h.folds⟩, ?_⟩
  rw [← hlists.size_eq]
  exact step_of_detach_some hsize hpop hdetach hunmarked (ht.block_slot hpar) (hm.prune_snd hpar)

/-! ### Reducing -/

/-- **The fuel is enough**: as long as there is one unit for each node, folding ends by itself. -/
theorem reduceWith (h : Realizes r slot s) {fuel : Nat}
    (hfuel : s.blocks.outline.nodes.card ≤ fuel) :
    Realizes (r.reduceWith n fuel).1 slot (s.reduce n) := by
  induction fuel generalizing r s with
  | zero =>
    have hpos := Finset.card_pos.mpr ⟨Prefix.root, s.blocks.outline.root_mem⟩
    omega
  | succ fuel ih =>
    by_cases hn : s.blocks.Finished n
    · rw [SetReduction.reduce_of_finished hn]
      simp only [Reduction.reduceWith, h.step_of_finished hn]
      exact h
    · obtain ⟨r', hr', hstep⟩ := h.step_of_not_finished hn
      have hf := Antichain.foldable_of_not_finished hn
      have hnodes := Antichain.card_nodes_outline_fold hf
      have hone := Antichain.one_le_card_folded hf
      rw [SetReduction.reduce_of_not_finished hn]
      simp only [Reduction.reduceWith, hstep]
      apply ih hr'
      simp only [SetReduction.fold]
      omega

/-- After reducing, trie and table hold what the specification comes to. -/
theorem reduce (h : Realizes r slot s) (n : Nat) :
    Realizes (r.reduce n).1 slot (s.reduce n) := by
  apply h.reduceWith
  exact h.trie.live_eq.ge

end Realizes

/-! ### Simulation -/

/-- The slots are of no account. -/
def Simulates (r : Reduction) (s : SetReduction) : Prop :=
  ∃ slot, Realizes r slot s

/-- The answer to a step, by the fold that it has made. -/
def progress : Option Fold → Progress
  | none => .done
  | some _ => .reducing

/-- The empty states correspond. -/
theorem simulates_empty : Simulates empty SetReduction.empty :=
  ⟨_, realizes_empty⟩

namespace Simulates

variable {s : SetReduction}

/-- After adding a prefix the states correspond again. -/
theorem add (h : Simulates r s) (p : Prefix) : Simulates (r.add p).1 (s.add p) := by
  obtain ⟨slot, h⟩ := h
  exact h.add p

/-- After a step the states correspond again, and the answers are the same. -/
theorem step (h : Simulates r s) (n : Nat) :
    Simulates (r.step n).1 (s.step n).1 ∧ progress (r.step n).2 = (s.step n).2 := by
  obtain ⟨slot, h⟩ := h
  by_cases hn : s.blocks.Finished n
  · rw [h.step_of_finished hn, SetReduction.step_of_finished hn]
    exact ⟨⟨slot, h⟩, rfl⟩
  · obtain ⟨r', hr', hstep⟩ := h.step_of_not_finished hn
    rw [hstep, SetReduction.step_of_not_finished hn]
    exact ⟨⟨slot, hr'⟩, rfl⟩

/-- After reducing the states correspond again. -/
theorem reduce (h : Simulates r s) (n : Nat) : Simulates (r.reduce n).1 (s.reduce n) := by
  obtain ⟨slot, h⟩ := h
  exact ⟨slot, h.reduce n⟩

/-- After adding prefixes in turn the states correspond again. -/
theorem addAll (h : Simulates r s) (ps : List Prefix) :
    Simulates (r.addAll ps).1 (ps.foldl SetReduction.add s) := by
  induction ps generalizing r s with
  | nil => exact h
  | cons p ps ih => exact ih (h.add p)

/-! ### What can be seen -/

/-- The blocks are the members in ascending order. -/
theorem blocks_eq (h : Simulates r s) : r.blocks = s.blocks.toList := by
  obtain ⟨slot, h⟩ := h
  exact h.leaves.prefixes_eq

/-- The number of leaves is that of the members. -/
theorem leafCount_eq (h : Simulates r s) : r.leafCount = s.blocks.members.card := by
  obtain ⟨slot, h⟩ := h
  exact h.leaves.size_eq

/-- The folds are counted alike. -/
theorem folds_eq (h : Simulates r s) : r.folds = s.folds := by
  obtain ⟨slot, h⟩ := h
  exact h.folds

end Simulates

/-- A list of prefixes makes states that correspond. -/
theorem simulates_ofPrefixes (ps : List Prefix) :
    Simulates (ofPrefixes ps) (SetReduction.ofPrefixes ps) :=
  simulates_empty.addAll ps

end Reduction

end CidrCover
