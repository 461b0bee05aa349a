import CidrCover.Proofs.Reduction.Runs
import CidrCover.Proofs.Trie.Links

/-!
# What a step takes for granted

A step takes an entry out of the table, drops its node, marks the parent and sweeps what is left
below it. It asks for several things on the way: that the node is still the one of the prefix, that
nothing hangs below it, that the parent is neither marked nor in the table, that what was swept is in
the table. None of them can be seen from the step alone. They hold because table and trie agree, and
because no leaf is longer than the one that was taken out: below its parent there is its sibling and
nothing else (`Antichain.swept_eq`).

* `Realizes.stepIsFold`: a step is just that, the fold of the entry that it takes out into the node
  that the trie names as its parent; it folds nothing if the budget is met or only the root is left.
* **Nothing is taken for granted that does not hold** (`Reduction.step_safe`): in every state that a
  run can lead to.
-/

namespace CidrCover

/-! ### What is below the parent of the greatest member -/

namespace Antichain

variable {S : Antichain} {p q : Prefix}

/-- Without the greatest member, only its sibling is left of what a fold takes in. -/
theorem swept_eq (h : S.Foldable) :
    ((Insert.insert (S.greatest h).parent (S.members.erase (S.greatest h))).filter
        fun q => (S.greatest h).parent.Above q) =
      if (S.greatest h).sibling ∈ S.members then {(S.greatest h).sibling} else ∅ := by
  have hchild := (S.greatest h).isChild_sibling
  have hmem : ∀ q, (q = (S.greatest h).parent ∨ q ≠ S.greatest h ∧ q ∈ S.members) ∧
      (S.greatest h).parent.Above q ↔ q = (S.greatest h).sibling ∧ q ∈ S.members := by
    intro q
    constructor
    · rintro ⟨rfl | ⟨hne, hq⟩, habove⟩
      · exact absurd habove (Prefix.not_above_self _)
      · have hfolded : q ∈ S.folded h := Finset.mem_filter.mpr ⟨hq, habove.1⟩
        have hcases := (isChild_of_mem_folded h hfolded).eq_or_eq_sibling (greatest_ne_root h)
        exact ⟨hcases.resolve_left hne, hq⟩
    · rintro ⟨rfl, hq⟩
      exact ⟨Or.inr ⟨Prefix.sibling_ne _, hq⟩, hchild.contains, hchild.ne⟩
  ext q
  rw [Finset.mem_filter, Finset.mem_insert, Finset.mem_erase, hmem]
  split_ifs with hsibling
  · rw [Finset.mem_singleton, and_iff_left_iff_imp]
    rintro rfl
    exact hsibling
  · rw [iff_false_right (Finset.notMem_empty q)]
    rintro ⟨rfl, hq⟩
    exact hsibling hq

end Antichain

/-! ### What table and trie agree on -/

namespace Reduction

/-- The node of an entry stands for its prefix, can be reached, is marked and has no children. -/
structure Registered (t : Trie) (e : Prefix × NodeId) : Prop where
  block : t.block e.2 = e.1
  reachable : t.Reachable e.2
  marked : t.isMarked e.2 = true
  childless : t.isChildless e.2 = true

/-- `t` is the trie without a leaf that was dropped, `parent` its parent there, and `rest` the table
without it: then the parent goes into trie and table for the first time, and the sweep below it
finds the sibling of the leaf, if that was a leaf, and nothing else. -/
structure SafeFold (r : Reduction) (leaf : Prefix) (rest : Leaves) (t : Trie) (parent : NodeId) :
    Prop where
  block : t.block parent = leaf.parent
  unmarked : t.isMarked parent = false
  unlisted : leaf.parent ∉ rest.prefixes
  swept : ((t.mark parent).prune parent).2 =
    if leaf.sibling ∈ r.blocks then [leaf.sibling] else []
  listed : ∀ p ∈ ((t.mark parent).prune parent).2,
    p ∈ (rest.insert (t.block parent) parent).prefixes

/-- What holds of an entry that was taken out of the table: its node can be dropped, unless it is the
root and the only leaf, and then the table is as it was when the entry is put back. -/
structure SafePop (r : Reduction) (leaf : Prefix) (node : NodeId) (rest : Leaves) : Prop where
  registered : Registered r.trie (leaf, node)
  restored : rest.insert leaf node = r.leaves
  kept : (r.trie.detach node).2 = none → leaf = Prefix.root ∧ r.blocks = [Prefix.root]
  dropped : ∀ {t parent}, r.trie.detach node = (t, some parent) → r.SafeFold leaf rest t parent

namespace Realizes

variable {r : Reduction} {slot : Prefix → NodeId} {s : SetReduction} {leaf : Prefix}
  {node : NodeId} {rest : Leaves} {n : Nat}

/-- The entries of the table have the nodes that they need. -/
theorem registered (h : Realizes r slot s) {e : Prefix × NodeId} (he : e ∈ r.leaves.entries) :
    Registered r.trie e := by
  obtain ⟨hmem, hslot⟩ := h.leaves.mem_iff.mp he
  have hnode := s.blocks.outline.marks_subset hmem
  rw [← Prod.mk.eta (p := e), ← hslot]
  exact
    { block := h.trie.block_slot hnode
      reachable := h.trie.reachable_slot hnode
      marked := (h.trie.isMarked_slot hnode).mpr hmem
      childless := (h.trie.isChildless_iff hnode).mpr
        (Antichain.not_above_of_mem_nodes_outline hmem) }

/-- The blocks are the members. -/
theorem mem_blocks_iff (h : Realizes r slot s) {p : Prefix} :
    p ∈ r.blocks ↔ p ∈ s.blocks.members :=
  h.leaves.mem_prefixes_iff

/-- The root is the only block if it is the only member. -/
theorem blocks_eq_root_iff (h : Realizes r slot s) :
    r.blocks = [Prefix.root] ↔ s.blocks.members = {Prefix.root} := by
  constructor
  · intro hblocks
    ext p
    rw [← h.mem_blocks_iff, hblocks, List.mem_singleton, Finset.mem_singleton]
  · intro hmembers
    rw [blocks, h.leaves.prefixes_eq, hmembers, Finset.sort_singleton]

/-- The root lets itself not be dropped, and is then the only leaf. -/
theorem safePop_root (h : Realizes r slot s)
    (hpop : r.leaves.popMax? = some ((Prefix.root, node), rest)) :
    r.SafePop Prefix.root node rest := by
  have hregistered := h.registered (Leaves.mem_of_popMax? hpop)
  obtain ⟨hmem, rfl⟩ := h.leaves.mem_of_popMax? hpop
  have hmembers : s.blocks.members = {Prefix.root} :=
    Finset.eq_singleton_iff_unique_mem.mpr ⟨hmem, fun p => Antichain.eq_root_of_root_mem hmem⟩
  exact
    { registered := hregistered
      restored := h.leaves.insert_of_popMax? hpop
      kept := by
        intro _
        exact ⟨rfl, h.blocks_eq_root_iff.mpr hmembers⟩
      dropped := by
        intro t parent hdetach
        rw [h.trie.detach_root] at hdetach
        exact absurd hdetach (by simp) }

/-- The parent of a leaf that was dropped comes in for the first time. -/
theorem safeFold (h : Realizes r slot s) (hf : s.blocks.Foldable) {t : Trie}
    (ht : Represents t slot (s.blocks.thinned hf))
    (hrest : rest.Lists (s.blocks.members.erase (s.blocks.greatest hf)) slot) :
    r.SafeFold (s.blocks.greatest hf) rest t (slot (s.blocks.greatest hf).parent) := by
  have hpar := Antichain.parent_mem_nodes_thinned hf
  have hnew := Antichain.parent_notMem_marks_thinned hf
  have hblock := ht.block_slot hpar
  have hsibling : (s.blocks.greatest hf).sibling ∈ r.blocks ↔
      (s.blocks.greatest hf).sibling ∈ s.blocks.members := h.mem_blocks_iff
  have hswept : ((t.mark (slot (s.blocks.greatest hf).parent)).prune
      (slot (s.blocks.greatest hf).parent)).2 =
        if (s.blocks.greatest hf).sibling ∈ r.blocks then [(s.blocks.greatest hf).sibling]
        else [] := by
    rw [(ht.mark hpar).prune_snd hpar, Outline.marks_mark, Antichain.marks_thinned,
      Antichain.swept_eq, if_congr hsibling rfl rfl]
    split_ifs
    · exact Finset.sort_singleton _ _
    · exact Finset.sort_empty _
  refine ⟨hblock, ht.isMarked_eq_false hpar hnew, ?_, hswept, ?_⟩
  · rwa [hrest.mem_prefixes_iff]
  · intro p hp
    rw [hswept] at hp
    split_ifs at hp with hleaf
    · obtain rfl := List.mem_singleton.mp hp
      rw [hblock, (hrest.insert hnew).mem_prefixes_iff]
      exact Finset.mem_insert_of_mem
        (Finset.mem_erase.mpr ⟨Prefix.sibling_ne _, hsibling.mp hleaf⟩)
    · exact absurd hp List.not_mem_nil

/-- Any leaf but the root is dropped, and goes into its parent. -/
theorem safePop_of_foldable (h : Realizes r slot s) (hf : s.blocks.Foldable) :
    ∃ rest, r.leaves.popMax? =
        some ((s.blocks.greatest hf, slot (s.blocks.greatest hf)), rest) ∧
      r.SafePop (s.blocks.greatest hf) (slot (s.blocks.greatest hf)) rest := by
  obtain ⟨rest, hpop, hrest⟩ := h.leaves.popMax?_eq hf.nonempty
  obtain ⟨u, hdetach, hu⟩ := h.detach_greatest hf
  refine ⟨rest, hpop, h.registered (Leaves.mem_of_popMax? hpop), h.leaves.insert_of_popMax? hpop,
    ?_, ?_⟩
  · intro hkept
    rw [hdetach] at hkept
    exact absurd hkept (Option.some_ne_none _)
  · intro t parent hdropped
    rw [hdetach] at hdropped
    cases hdropped
    exact h.safeFold hf hu hrest

/-- Whatever is taken out of the table can be dropped, or is put back. -/
theorem safePop (h : Realizes r slot s) (hpop : r.leaves.popMax? = some ((leaf, node), rest)) :
    r.SafePop leaf node rest := by
  by_cases hroot : leaf = Prefix.root
  · subst hroot
    exact h.safePop_root hpop
  · have hf : s.blocks.Foldable := ⟨leaf, (h.leaves.mem_of_popMax? hpop).1, hroot⟩
    obtain ⟨rest', hpop', hsafe⟩ := h.safePop_of_foldable hf
    rw [hpop, Option.some.injEq, Prod.mk.injEq, Prod.mk.injEq] at hpop'
    obtain ⟨⟨rfl, rfl⟩, rfl⟩ := hpop'
    exact hsafe

end Realizes

/-! ### What a step does to the numbers -/

/-- A step that folds lowers the number of leaves by one or leaves it, and counts the fold; any other
step changes nothing. -/
def SafeStep (r : Reduction) (n : Nat) : Prop :=
  progress (r.step n).2 = .reducing ∧
      ((r.step n).1.leafCount = r.leafCount ∨ (r.step n).1.leafCount + 1 = r.leafCount) ∧
      (r.step n).1.folds = r.folds + 1 ∨
    progress (r.step n).2 = .done ∧ (r.step n).1 = r

/-- What a step has to do with the entry that is taken out of the table. Nothing is folded if the
budget is met or only the root is left. Otherwise the entry is dropped from the trie, its parent
there takes its place and takes in what is swept below it, and this is what the step reports. -/
structure StepIsFold (r : Reduction) (n : Nat) : Prop where
  finished : (r.step n).2 = none ↔ r.leafCount ≤ n ∨ r.blocks = [Prefix.root]
  folded : ∀ f, (r.step n).2 = some f → ∃ leaf node rest t parent,
    r.leaves.popMax? = some ((leaf, node), rest) ∧ r.trie.detach node = (t, some parent) ∧
    f = ⟨leaf, leaf.parent, (r.step n).1.leafCount⟩ ∧
    (r.step n).1 = ⟨((t.mark parent).prune parent).1,
      (rest.insert leaf.parent parent).eraseAll ((t.mark parent).prune parent).2, r.folds + 1⟩

/-- The specification says when there is nothing to fold, and otherwise every part of the fold is
known from what a step takes for granted. -/
theorem Realizes.stepIsFold {r : Reduction} {slot : Prefix → NodeId} {s : SetReduction}
    (h : Realizes r slot s) (n : Nat) : r.StepIsFold n := by
  have hfinished : s.blocks.Finished n ↔ r.leafCount ≤ n ∨ r.blocks = [Prefix.root] := by
    rw [h.blocks_eq_root_iff, leafCount, h.size_eq, Antichain.Finished]
  by_cases hn : s.blocks.Finished n
  · have hstep := h.step_of_finished hn
    refine ⟨?_, fun f hfold => ?_⟩
    · rw [hstep, ← hfinished]
      exact iff_of_true rfl hn
    · rw [hstep] at hfold
      exact absurd hfold.symm (Option.some_ne_none f)
  · have hf := Antichain.foldable_of_not_finished hn
    have hsize : ¬ r.leaves.size ≤ n := by
      rw [h.size_eq]
      exact (not_or.mp hn).1
    obtain ⟨rest, hpop, hsafe⟩ := h.safePop_of_foldable hf
    obtain ⟨t, hdetach, -⟩ := h.detach_greatest hf
    obtain ⟨hblock, hunmarked, -, -, -⟩ := hsafe.dropped hdetach
    have hstep := step_of_detach_some hsize hpop hdetach hunmarked hblock rfl
    refine ⟨?_, fun f hfold => ⟨_, _, rest, t, _, hpop, hdetach, ?_, ?_⟩⟩
    · rw [hstep, ← hfinished]
      exact iff_of_false (Option.some_ne_none _) hn
    · rw [hstep, Option.some.injEq] at hfold
      rw [hstep, ← hfold]
      rfl
    · rw [hstep]

/-- A step counts its fold, and lowers the number of leaves by one at most. -/
theorem Realizes.safeStep {r : Reduction} {slot : Prefix → NodeId} {s : SetReduction}
    (h : Realizes r slot s) (n : Nat) : r.SafeStep n := by
  by_cases hn : s.blocks.Finished n
  · rw [SafeStep, h.step_of_finished hn]
    exact Or.inr ⟨rfl, rfl⟩
  · obtain ⟨r', hr', hstep⟩ := h.step_of_not_finished hn
    have hf := Antichain.foldable_of_not_finished hn
    have hle := Antichain.card_fold_le hf
    have hge := Antichain.card_le_card_fold_add_one hf
    have hbefore : r.leafCount = s.blocks.members.card := h.size_eq
    have hafter : r'.leafCount = (s.blocks.fold hf).members.card := hr'.size_eq
    have hcount : r'.leafCount = r.leafCount ∨ r'.leafCount + 1 = r.leafCount := by omega
    rw [SafeStep, hstep, h.folds]
    exact Or.inl ⟨rfl, hcount, hr'.folds⟩

/-- **Nothing is taken for granted that does not hold**: of the entries of the table, of the one that
is taken out of it, and of a step as a whole, which is the fold of that entry or changes nothing. -/
theorem step_safe (cmds : List Command) :
    (∀ e ∈ (empty.run cmds).leaves.entries, Registered (empty.run cmds).trie e) ∧
      (∀ leaf node rest, (empty.run cmds).leaves.popMax? = some ((leaf, node), rest) →
        (empty.run cmds).SafePop leaf node rest) ∧
      ∀ n, (empty.run cmds).SafeStep n ∧ (empty.run cmds).StepIsFold n := by
  obtain ⟨slot, h⟩ := simulates_empty.run cmds
  exact ⟨fun e => h.registered, fun leaf node rest => h.safePop,
    fun n => ⟨h.safeStep n, h.stepIsFold n⟩⟩

/-- Two neighbours: the greater one is taken out, its sibling is the other, and a step that is to
leave one of them folds it into the parent. -/
theorem step_safe_of_neighbours :
    (.host 10, ⟨32⟩) ∈ (empty.run [.add (.host 10), .add (.host 11)]).leaves.entries ∧
      Registered (empty.run [.add (.host 10), .add (.host 11)]).trie (.host 10, ⟨32⟩) ∧
      (empty.run [.add (.host 10), .add (.host 11)]).leaves.popMax? =
        some ((.host 11, ⟨33⟩), ⟨[(.host 10, ⟨32⟩)]⟩) ∧
      (empty.run [.add (.host 10), .add (.host 11)]).SafePop (.host 11) ⟨33⟩
        ⟨[(.host 10, ⟨32⟩)]⟩ ∧
      ∃ f, ((empty.run [.add (.host 10), .add (.host 11)]).step 1).2 = some f ∧
        f.leaf = .host 11 ∧ f.into = (Prefix.host 11).parent := by
  have hentries : (empty.run [.add (.host 10), .add (.host 11)]).leaves.entries =
      [(.host 11, ⟨33⟩), (.host 10, ⟨32⟩)] := by
    decide +kernel
  have hmem : (.host 10, ⟨32⟩) ∈ (empty.run [.add (.host 10), .add (.host 11)]).leaves.entries := by
    rw [hentries]
    decide
  have hpop : (empty.run [.add (.host 10), .add (.host 11)]).leaves.popMax? =
      some ((.host 11, ⟨33⟩), ⟨[(.host 10, ⟨32⟩)]⟩) := by
    rw [Leaves.popMax?, hentries]
  obtain ⟨hentry, hpopped, hstep⟩ := step_safe [.add (.host 10), .add (.host 11)]
  refine ⟨hmem, hentry _ hmem, hpop, hpopped _ _ _ hpop, ?_⟩
  have hfold : ((empty.run [.add (.host 10), .add (.host 11)]).step 1).2.isSome = true := by
    decide +kernel
  obtain ⟨f, hf⟩ := Option.isSome_iff_exists.mp hfold
  obtain ⟨leaf, node, rest, t, parent, hpop', -, hreport, -⟩ := (hstep 1).2.folded f hf
  rw [hpop, Option.some.injEq, Prod.mk.injEq, Prod.mk.injEq] at hpop'
  obtain ⟨⟨rfl, -⟩, -⟩ := hpop'
  exact ⟨f, hf, congrArg Fold.leaf hreport, congrArg Fold.into hreport⟩

end Reduction

end CidrCover
