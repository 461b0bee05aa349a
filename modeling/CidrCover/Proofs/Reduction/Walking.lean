import CidrCover.Proofs.Reduction.Runs
import CidrCover.Proofs.Trie.Growth

/-!
# Reductions on an arena of words

A reduction can keep its trie in an arena whose slots are numbered in words of 32 bits, and drop the
nodes below one by a walk with a stack (`Trie.insertBy`, `Trie.sweepBelow`). `addWalked`,
`stepWalked` and `reduceWalked` do so; a step puts an entry that the trie does not let go back into
the table. The free slots come to be in another order than those of a `Reduction`, so that later
nodes get other slots: the two do not go through the same states. But from one state a single
command leads to states that differ in the order of the free slots alone, and of that order a state
says nothing about the set that it realizes.

* `Realizes.addWalked`, `Realizes.stepWalked`: one command, compared with that of a `Reduction` from
  the same state.
* **Words and walks cannot be seen** (`traceWalked_eq`): as long as the arena has fewer than `2 ^ 32`
  slots, all that can be seen of a run is what is seen of a `Reduction`, and so of its
  specification. Runs that add fewer than `2 ^ 27` prefixes are never longer than that
  (`traceWalked_eq_of_length`).
-/

namespace CidrCover.Reduction

/-! ### The commands -/

/-- Adds a prefix to the set, with words for slots. -/
def addWalked (r : Reduction) (p : Prefix) : Reduction × Insertion :=
  match r with
  | ⟨trie, leaves, folds⟩ =>
    match trie.insertBy NodeId.word p with
    | (trie, .inserted node superseded) =>
      (⟨trie, (leaves.eraseAll superseded).insert p node, folds⟩, .inserted node superseded)
    | (trie, .duplicate node) => (⟨trie, leaves, folds⟩, .duplicate node)
    | (trie, .covered cover) => (⟨trie, leaves, folds⟩, .covered cover)

/-- Folds the greatest leaf into its parent if there are more than `n` leaves, and sweeps with a
stack. -/
def stepWalked (n : Nat) (r : Reduction) : Reduction × Option Fold :=
  match r with
  | ⟨trie, leaves, folds⟩ =>
    if leaves.size ≤ n then (⟨trie, leaves, folds⟩, none)
    else
      match leaves.popMax? with
      | none => (⟨trie, leaves, folds⟩, none)
      | some ((leaf, node), rest) =>
        match trie.detach node with
        | (trie, none) => (⟨trie, rest.insert leaf node, folds⟩, none)
        | (trie, some parent) =>
          let into := trie.block parent
          let (trie, rest) :=
            if trie.isMarked parent then (trie, rest)
            else (trie.mark parent, rest.insert into parent)
          let (trie, swept) := trie.sweepBelow parent
          let rest := rest.eraseAll swept
          (⟨trie, rest, folds + 1⟩, some ⟨leaf, into, rest.size⟩)

/-- Folds at most `fuel` times, while there are more than `n` leaves. -/
def reduceWithWalked (n : Nat) : Nat → Reduction → Reduction
  | 0, r => r
  | fuel + 1, r =>
    match r.stepWalked n with
    | (r, none) => r
    | (r, some _) => reduceWithWalked n fuel r

/-- Folds until there are at most `n` leaves or only the root is left. -/
def reduceWalked (n : Nat) (r : Reduction) : Reduction :=
  reduceWithWalked n r.trie.nodeCount r

/-- Carries out a command. -/
def performWalked (r : Reduction) : Command → Reduction × Option Progress
  | .add p => ((r.addWalked p).1, none)
  | .step n => ((r.stepWalked n).1, some (progress (r.stepWalked n).2))
  | .reduce n => (r.reduceWalked n, none)

/-- Carries out commands in turn. -/
def runWalked (r : Reduction) (cmds : List Command) : Reduction :=
  cmds.foldl (fun r c => (r.performWalked c).1) r

/-- What can be seen after each of some commands. -/
def traceWalked (r : Reduction) : List Command → List Observation
  | [] => []
  | c :: cmds =>
    (r.performWalked c).1.observe (r.performWalked c).2 :: (r.performWalked c).1.traceWalked cmds

variable {r u : Reduction} {t : Trie} {s : SetReduction} {slot : Prefix → NodeId} {id : NodeId}
  {leaf p : Prefix} {rest : Leaves} {n : Nat}

/-! ### The order of the free slots -/

/-- The states differ at most in the order of their free slots. -/
structure Reordered (r u : Reduction) : Prop where
  trie : r.trie.Reordered u.trie
  leaves : u.leaves = r.leaves
  folds : u.folds = r.folds

/-- Every state is such a state of its own. -/
theorem Reordered.refl (r : Reduction) : r.Reordered r :=
  ⟨.refl r.trie, rfl, rfl⟩

/-- The order of the free slots is of no account for what a state realizes. -/
theorem Realizes.of_reordered (h : Realizes r slot s) (hu : r.Reordered u) :
    Realizes u slot s where
  trie := h.trie.of_reordered hu.trie
  leaves := hu.leaves ▸ h.leaves
  folds := hu.folds.trans h.folds

/-! ### The length of the array -/

/-- Adding in words leaves the trie of the insertion. -/
theorem trie_addWalked (r : Reduction) (p : Prefix) :
    (r.addWalked p).1.trie = (r.trie.insertBy NodeId.word p).1 := by
  obtain ⟨trie, leaves, folds⟩ := r
  unfold addWalked
  rcases hinsert : trie.insertBy NodeId.word p with ⟨t, outcome⟩
  cases outcome with
  | inserted node superseded => simp only [hinsert]
  | duplicate node => simp only [hinsert]
  | covered cover => simp only [hinsert]

/-- A step takes no slot. -/
theorem size_stepWalked (n : Nat) (r : Reduction) :
    (r.stepWalked n).1.trie.nodes.size = r.trie.nodes.size := by
  obtain ⟨trie, leaves, folds⟩ := r
  simp only [stepWalked]
  split_ifs with hsize
  · rfl
  · cases hpop : leaves.popMax? with
    | none => rfl
    | some popped =>
      obtain ⟨⟨leaf, node⟩, rest⟩ := popped
      have hkept := trie.size_detach node
      rcases hdetach : trie.detach node with ⟨t, parent?⟩
      rw [hdetach] at hkept
      cases parent? with
      | none => simp only [hdetach, hkept]
      | some parent =>
        simp only [hdetach]
        split_ifs with hmark
        · rw [Trie.size_sweepBelow, hkept]
        · rw [Trie.size_sweepBelow, Trie.size_mark, hkept]

/-- Neither does a sequence of folds. -/
theorem size_reduceWithWalked (n fuel : Nat) (r : Reduction) :
    (r.reduceWithWalked n fuel).trie.nodes.size = r.trie.nodes.size := by
  induction fuel generalizing r with
  | zero => rfl
  | succ fuel ih =>
    have hsize := size_stepWalked n r
    rcases hstep : r.stepWalked n with ⟨u, fold?⟩
    rw [hstep] at hsize
    cases fold? with
    | none => simpa only [reduceWithWalked, hstep] using hsize
    | some f => simpa only [reduceWithWalked, hstep] using (ih u).trans hsize

/-- A command makes the array no shorter, and longer by the bits of an added prefix at most. -/
theorem size_performWalked (r : Reduction) (c : Command) :
    r.trie.nodes.size ≤ (r.performWalked c).1.trie.nodes.size ∧
      (r.performWalked c).1.trie.nodes.size ≤
        r.trie.nodes.size + 32 * (Command.added [c]).length := by
  cases c with
  | add p =>
    show r.trie.nodes.size ≤ (r.addWalked p).1.trie.nodes.size ∧
      (r.addWalked p).1.trie.nodes.size ≤ r.trie.nodes.size + 32 * 1
    rw [trie_addWalked]
    exact ⟨Trie.size_le_size_insertBy _ _ p, Trie.size_insertBy_le _ _ p⟩
  | step n =>
    have hsize : (r.performWalked (.step n)).1.trie.nodes.size = r.trie.nodes.size :=
      size_stepWalked n r
    exact ⟨hsize.ge, hsize.le⟩
  | reduce n =>
    have hsize : (r.performWalked (.reduce n)).1.trie.nodes.size = r.trie.nodes.size :=
      size_reduceWithWalked n _ r
    exact ⟨hsize.ge, hsize.le⟩

/-- The same of all commands of a run. -/
theorem size_runWalked (r : Reduction) (cmds : List Command) :
    r.trie.nodes.size ≤ (r.runWalked cmds).trie.nodes.size ∧
      (r.runWalked cmds).trie.nodes.size ≤
        r.trie.nodes.size + 32 * (Command.added cmds).length := by
  induction cmds generalizing r with
  | nil => exact ⟨Nat.le_refl _, Nat.le_refl _⟩
  | cons c cmds ih =>
    have hone := size_performWalked r c
    have hrest := ih (r.performWalked c).1
    have hadded : (Command.added (c :: cmds)).length =
        (Command.added [c]).length + (Command.added cmds).length := by
      cases c with
      | add p => exact Nat.add_comm _ 1
      | step n => exact (Nat.zero_add _).symm
      | reduce n => exact (Nat.zero_add _).symm
    have hrun : r.runWalked (c :: cmds) = (r.performWalked c).1.runWalked cmds := rfl
    rw [hrun, hadded]
    omega

/-! ### One command -/

/-- If the array stays short, adding in words does what adding does, up to the order of the free
slots, and has the same outcome. -/
theorem Realizes.addWalked (h : Realizes r slot s)
    (hsize : (r.addWalked p).1.trie.nodes.size < 2 ^ 32) :
    (r.add p).1.Reordered (r.addWalked p).1 ∧ (r.addWalked p).2 = (r.add p).2 := by
  rw [trie_addWalked] at hsize
  obtain ⟨hreordered, hsame⟩ := h.trie.insertBy_reordered p
  rw [← Trie.insertBy_word hsize] at hreordered hsame
  obtain ⟨trie, leaves, folds⟩ := r
  unfold Reduction.add Reduction.addWalked
  dsimp only at hreordered hsame ⊢
  rcases hlisted : trie.insert p with ⟨t, outcome⟩
  rcases hwalked : trie.insertBy NodeId.word p with ⟨t', outcome'⟩
  rw [hlisted, hwalked] at hreordered hsame
  obtain rfl : outcome' = outcome := hsame
  cases outcome' with
  | inserted node superseded => exact ⟨⟨hreordered, rfl, rfl⟩, rfl⟩
  | duplicate node => exact ⟨⟨hreordered, rfl, rfl⟩, rfl⟩
  | covered cover => exact ⟨⟨hreordered, rfl, rfl⟩, rfl⟩

/-- A step that finds the budget met. -/
theorem stepWalked_of_size_le (h : r.leaves.size ≤ n) : r.stepWalked n = (r, none) := by
  simp only [stepWalked, if_pos h]

/-- A step whose entry the trie does not let go. -/
theorem stepWalked_of_detach_none (hsize : ¬ r.leaves.size ≤ n)
    (hpop : r.leaves.popMax? = some ((leaf, id), rest))
    (hdetach : r.trie.detach id = (r.trie, none)) :
    r.stepWalked n = (⟨r.trie, rest.insert leaf id, r.folds⟩, none) := by
  simp only [stepWalked, if_neg hsize, hpop, hdetach]

/-- A step that folds into a node that is not marked. -/
theorem stepWalked_of_detach_some {parent : NodeId} (hsize : ¬ r.leaves.size ≤ n)
    (hpop : r.leaves.popMax? = some ((leaf, id), rest))
    (hdetach : r.trie.detach id = (t, some parent)) (hmark : t.isMarked parent = false) :
    r.stepWalked n =
      (⟨((t.mark parent).sweepBelow parent).1,
          (rest.insert (t.block parent) parent).eraseAll ((t.mark parent).sweepBelow parent).2,
          r.folds + 1⟩,
        some ⟨leaf, t.block parent, ((rest.insert (t.block parent) parent).eraseAll
          ((t.mark parent).sweepBelow parent).2).size⟩) := by
  simp only [stepWalked, if_neg hsize, hpop, hdetach, hmark, Bool.false_eq_true, if_false]

/-- A step with a stack does what a step does, up to the order of the free slots, and makes the same
fold. -/
theorem Realizes.stepWalked (h : Realizes r slot s) (n : Nat) :
    (r.step n).1.Reordered (r.stepWalked n).1 ∧ (r.stepWalked n).2 = (r.step n).2 := by
  by_cases hsize : r.leaves.size ≤ n
  · rw [step_of_size_le hsize, stepWalked_of_size_le hsize]
    exact ⟨.refl r, rfl⟩
  by_cases hn : s.blocks.Finished n
  · -- the root is the only leaf, and goes back to where it was taken from
    have hroot : s.blocks.members = {Prefix.root} := by
      rw [h.size_eq] at hsize
      exact hn.resolve_left hsize
    have hleaves := h.leaves
    rw [hroot] at hleaves
    obtain ⟨rest, hpop, -⟩ := hleaves.popMax?_eq (Finset.singleton_nonempty _)
    rw [Finset.max'_singleton] at hpop
    rw [h.step_of_finished hn, stepWalked_of_detach_none hsize hpop h.trie.detach_root,
      h.leaves.insert_of_popMax? hpop]
    exact ⟨.refl r, rfl⟩
  · have hf := Antichain.foldable_of_not_finished hn
    obtain ⟨rest, hpop, -⟩ := h.leaves.popMax?_eq hf.nonempty
    obtain ⟨t, hdetach, ht⟩ := h.detach_greatest hf
    have hpar := Antichain.parent_mem_nodes_thinned hf
    have hunmarked := ht.isMarked_eq_false hpar (Antichain.parent_notMem_marks_thinned hf)
    have hm := ht.mark hpar
    rw [step_of_detach_some hsize hpop hdetach hunmarked rfl rfl,
      stepWalked_of_detach_some hsize hpop hdetach hunmarked, hm.sweepBelow_snd hpar]
    exact ⟨⟨hm.sweepBelow_fst hpar, rfl, rfl⟩, rfl⟩

/-- Folding with a stack ends where folding ends in the specification. -/
theorem Realizes.reduceWithWalked (h : Realizes r slot s) {fuel : Nat}
    (hfuel : s.blocks.outline.nodes.card ≤ fuel) :
    Realizes (r.reduceWithWalked n fuel) slot (s.reduce n) := by
  induction fuel generalizing r s with
  | zero =>
    have hpos := Finset.card_pos.mpr ⟨Prefix.root, s.blocks.outline.root_mem⟩
    omega
  | succ fuel ih =>
    obtain ⟨hreordered, hsame⟩ := h.stepWalked n
    rcases hstep : r.stepWalked n with ⟨u, fold?⟩
    rw [hstep] at hreordered hsame
    by_cases hn : s.blocks.Finished n
    · rw [h.step_of_finished hn] at hreordered hsame
      obtain rfl : fold? = none := hsame
      rw [SetReduction.reduce_of_finished hn]
      simp only [Reduction.reduceWithWalked, hstep]
      exact h.of_reordered hreordered
    · obtain ⟨r', hr', hlisted⟩ := h.step_of_not_finished hn
      rw [hlisted] at hreordered hsame
      have hf := Antichain.foldable_of_not_finished hn
      have hnodes := Antichain.card_nodes_outline_fold hf
      have hone := Antichain.one_le_card_folded hf
      obtain rfl : fold? = some _ := hsame
      rw [SetReduction.reduce_of_not_finished hn]
      simp only [Reduction.reduceWithWalked, hstep]
      apply ih (hr'.of_reordered hreordered)
      simp only [SetReduction.fold]
      omega

/-- **After a command the states correspond again**, if the array is short then, and the answers are
the same. -/
theorem Simulates.performWalked (h : Simulates r s) {c : Command}
    (hsize : (r.performWalked c).1.trie.nodes.size < 2 ^ 32) :
    Simulates (r.performWalked c).1 (s.perform c).1 ∧
      (r.performWalked c).2 = (s.perform c).2 := by
  cases c with
  | add p =>
    obtain ⟨slot, h⟩ := h
    obtain ⟨slot', hadd⟩ := h.add p
    exact ⟨⟨slot', hadd.of_reordered (h.addWalked hsize).1⟩, rfl⟩
  | step n =>
    obtain ⟨⟨slot', hstep⟩, hanswer⟩ := h.step n
    obtain ⟨slot, h⟩ := h
    obtain ⟨hreordered, hsame⟩ := h.stepWalked n
    refine ⟨⟨slot', hstep.of_reordered hreordered⟩, congrArg some ?_⟩
    rw [hsame]
    exact hanswer
  | reduce n =>
    obtain ⟨slot, h⟩ := h
    exact ⟨⟨slot, h.reduceWithWalked h.trie.live_eq.ge⟩, rfl⟩

/-! ### All runs -/

/-- After a run the states correspond again, if the array is short then: it was no longer before. -/
theorem Simulates.runWalked (h : Simulates r s) {cmds : List Command}
    (hsize : (r.runWalked cmds).trie.nodes.size < 2 ^ 32) :
    Simulates (r.runWalked cmds) (s.run cmds) := by
  induction cmds generalizing r s with
  | nil => exact h
  | cons c cmds ih =>
    have hfirst := (size_runWalked (r.performWalked c).1 cmds).1.trans_lt hsize
    exact ih (h.performWalked hfirst).1 hsize

/-- Corresponding states show the same traces, as long as the array is short. -/
theorem Simulates.traceWalked (h : Simulates r s) {cmds : List Command}
    (hsize : (r.runWalked cmds).trie.nodes.size < 2 ^ 32) :
    r.traceWalked cmds = s.trace cmds := by
  induction cmds generalizing r s with
  | nil => rfl
  | cons c cmds ih =>
    have hfirst := (size_runWalked (r.performWalked c).1 cmds).1.trans_lt hsize
    obtain ⟨hstate, hanswer⟩ := h.performWalked hfirst
    simp only [Reduction.traceWalked, SetReduction.trace]
    rw [hstate.observe, hanswer, ih hstate hsize]

/-- **Words and walks cannot be seen**, as long as the arena has fewer than `2 ^ 32` slots: the run
shows what that of a `Reduction` shows, and ends in a state that corresponds to the specification. -/
theorem traceWalked_eq {cmds : List Command}
    (hsize : (empty.runWalked cmds).trie.nodes.size < 2 ^ 32) :
    empty.traceWalked cmds = empty.trace cmds ∧
      empty.traceWalked cmds = SetReduction.empty.trace cmds ∧
      Simulates (empty.runWalked cmds) (SetReduction.empty.run cmds) := by
  have htrace := simulates_empty.traceWalked hsize
  exact ⟨htrace.trans (simulates_empty.trace cmds).symm, htrace, simulates_empty.runWalked hsize⟩

/-- Fewer than `2 ^ 27` prefixes do not fill the arena, whatever else is done. -/
theorem traceWalked_eq_of_length {cmds : List Command}
    (h : (Command.added cmds).length < 2 ^ 27) :
    empty.traceWalked cmds = empty.trace cmds := by
  have hle := (size_runWalked empty cmds).2
  have hone : empty.trie.nodes.size = 1 := rfl
  have hsize : (empty.runWalked cmds).trie.nodes.size < 2 ^ 32 := by omega
  exact (traceWalked_eq hsize).1

-- two neighbours are folded, and the third host takes the slots that the fold has given up
example :
    (empty.traceWalked [.add (.host 10), .add (.host 11), .step 1, .add (.host 13)]).map
        (·.blocks) =
      [[.host 10], [.host 10, .host 11], [(Prefix.host 10).parent],
        [(Prefix.host 10).parent, .host 13]] := by
  decide +kernel

end CidrCover.Reduction
