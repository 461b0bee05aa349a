import CidrCover.Proofs.Trie.Contents

/-!
# Dropping nodes with a stack

`prune` lists the nodes below one and then gives up their slots. They can be given up while they are
being found as well: `sweepBelow` keeps a stack of nodes, takes the one on top, puts its children on
the stack and its slot on the list of free slots, and goes on until the stack is empty. No node
below the stack has been given up before its turn comes, so the links that the walk reads are still
there.

**The walk drops what `prune` drops** (`Represents.sweepBelow_fst`, `Represents.sweepBelow_snd`): it
reports the same prefixes and leaves the same nodes, and the free slots are the same in another
order, which is all that `Trie.Reordered` leaves open.
-/

namespace CidrCover

namespace Trie

/-- Gives up the nodes on a stack and all below them in at most `fuel` steps, that on top first, and
lists the marked prefixes among them as it comes across them. -/
def sweep : Nat → Trie → List NodeId → Trie × List Prefix
  | 0, t, _ => (t, [])
  | _ + 1, t, [] => (t, [])
  | fuel + 1, t, i :: stack =>
    let (u, dropped) := sweep fuel (t.release [i]) ((t.node i).children.reverse ++ stack)
    (u, if t.isMarked i then t.block i :: dropped else dropped)

/-- Drops all nodes below one with a stack, and lists the marked prefixes among them in ascending
order. -/
def sweepBelow (t : Trie) (i : NodeId) : Trie × List Prefix :=
  let (u, dropped) := sweep t.live (t.update i Node.childless) (t.node i).children.reverse
  (u, Prefix.sort dropped)

variable {t : Trie} {ids ids' : List NodeId}

/-- A walk keeps the length of the array. -/
@[simp] theorem size_sweep (fuel : Nat) (t : Trie) (stack : List NodeId) :
    (sweep fuel t stack).1.nodes.size = t.nodes.size := by
  induction fuel generalizing t stack with
  | zero => rfl
  | succ fuel ih =>
    cases stack with
    | nil => rfl
    | cons i stack => exact (ih _ _).trans (size_release t [i])

/-! ### The order of the free slots -/

/-- The tries differ at most in the order of their free slots. -/
structure Reordered (t u : Trie) : Prop where
  nodes_eq : u.nodes = t.nodes
  live_eq : u.live = t.live
  free_perm : u.free.Perm t.free

/-- Every trie is in an order of its own. -/
theorem Reordered.refl (t : Trie) : t.Reordered t :=
  ⟨rfl, rfl, .refl _⟩

/-- To give up a slot and then others is to give up all of them. -/
theorem release_release (t : Trie) (i : NodeId) (ids : List NodeId) :
    (t.release [i]).release ids = t.release (i :: ids) := by
  unfold release
  simp only [List.foldl_cons, List.foldl_nil, List.reverse_cons, List.reverse_nil, List.nil_append,
    List.append_assoc, List.length_cons, List.length_nil, Nat.sub_sub, Nat.add_comm]

/-- Slots can be given up in any order. -/
theorem release_reordered (t : Trie) (h : ids.Perm ids') :
    (t.release ids').Reordered (t.release ids) where
  nodes_eq := by
    apply h.foldl_eq'
    intro i _ j _ ns
    apply Array.ext_getElem?
    intro k
    simp only [Array.getElem?_modify]
    split_ifs <;> simp [*]
  live_eq := by
    rw [live_release, live_release, h.length_eq]
  free_perm := by
    rw [free_release, free_release]
    exact ((List.reverse_perm ids).trans (h.trans (List.reverse_perm ids').symm)).append_right _

end Trie

/-! ### What is under a stack -/

namespace Prefix

/-- Nothing is at or below both prefixes. -/
def Apart (p q : Prefix) : Prop :=
  ∀ r, p.contains r → ¬ q.contains r

variable {p q c d : Prefix} {a b : Bool}

/-- To be apart goes both ways. -/
theorem Apart.symm (h : p.Apart q) : q.Apart p := fun r hq hp => h r hp hq

/-- What lies in one of two prefixes that are apart is apart from the other. -/
theorem Apart.of_contains (h : p.Apart q) (hpc : p.contains c) : c.Apart q := fun r hc =>
  h r (contains_trans hpc hc)

/-- The two children of a prefix are apart. -/
theorem IsChild.apart (hc : IsChild p a c) (hd : IsChild p b d) (hne : a ≠ b) : c.Apart d := by
  intro r hcr hdr
  exact hne ((hc.bit_of_contains hcr).symm.trans (hd.bit_of_contains hdr))

end Prefix

namespace Outline

variable {s : Outline} {p q : Prefix} {cs st : List Prefix}

/-- The nodes at and below the prefixes of a stack. -/
def under (s : Outline) (st : List Prefix) : Finset Prefix :=
  s.nodes.filter fun q => ∃ p ∈ st, p.contains q

/-- Under a stack are the nodes that lie in a prefix of the stack. -/
theorem mem_under : q ∈ s.under st ↔ q ∈ s.nodes ∧ ∃ p ∈ st, p.contains q :=
  Finset.mem_filter

/-- Under the children of a node is what is strictly below it. -/
theorem mem_under_children (hcs : ∀ c, c ∈ cs ↔ c ∈ s.nodes ∧ ∃ b, p.IsChild b c) :
    q ∈ s.under cs ↔ q ∈ s.nodes ∧ p.Above q := by
  rw [mem_under]
  refine and_congr_right fun hq => ?_
  constructor
  · rintro ⟨c, hc, hcq⟩
    obtain ⟨-, b, hpc⟩ := (hcs c).mp hc
    exact Prefix.Above.of_contains ⟨hpc.contains, hpc.ne⟩ hcq
  · intro hpq
    refine ⟨q.take (p.len + 1), (hcs _).mpr ⟨?_, _, Prefix.isChild_take hpq.1 hpq.2⟩, ?_⟩
    · exact s.closed hq (q.take_contains _)
    · exact q.take_contains _

/-- Under two stacks together is what is under one of them. -/
theorem mem_under_append {st' : List Prefix} :
    q ∈ s.under (st ++ st') ↔ q ∈ s.under st ∨ q ∈ s.under st' := by
  simp only [mem_under, List.mem_append, or_and_right, exists_or, and_or_left]

/-- The top of a stack gives way to its children, and it alone is no longer under the stack. -/
theorem under_cons (hp : p ∈ s.nodes) (hcs : ∀ c, c ∈ cs ↔ c ∈ s.nodes ∧ ∃ b, p.IsChild b c) :
    s.under (p :: st) = Insert.insert p (s.under (cs ++ st)) := by
  ext q
  rw [Finset.mem_insert, mem_under_append, mem_under_children hcs, mem_under, mem_under,
    List.exists_mem_cons_iff]
  by_cases hqp : q = p
  · subst hqp
    simp [hp, q.contains_refl]
  · have habove : p.Above q ↔ p.contains q := and_iff_left (Ne.symm hqp)
    rw [habove, or_iff_right hqp, and_or_left]

/-- The top is not under its children and what it is apart from. -/
theorem notMem_under (hcs : ∀ c, c ∈ cs ↔ c ∈ s.nodes ∧ ∃ b, p.IsChild b c)
    (hapart : ∀ q ∈ st, p.Apart q) : p ∉ s.under (cs ++ st) := by
  rw [mem_under_append, mem_under_children hcs, mem_under, not_or]
  refine ⟨fun h => p.not_above_self h.2, ?_⟩
  rintro ⟨-, q, hq, hqp⟩
  exact hapart q hq p p.contains_refl hqp

end Outline

/-! ### The walk -/

namespace Describes

variable {slot : Prefix → NodeId} {s : Outline} {p : Prefix} {n : Node}

/-- The child along a bit, if there is one, with its prefix. -/
theorem exists_child (h : Describes slot s p n) (b : Bool) :
    ∃ cs : List Prefix, (n.child b).toList = cs.map slot ∧ cs.Pairwise Prefix.Apart ∧
      ∀ c, c ∈ cs ↔ c ∈ s.nodes ∧ p.IsChild b c := by
  cases hb : n.child b with
  | none =>
    refine ⟨[], rfl, .nil, fun c => ?_⟩
    refine ⟨fun hc => absurd hc List.not_mem_nil, ?_⟩
    rintro ⟨hc, hpc⟩
    rw [h.child_eq_some hc hpc] at hb
    cases hb
  | some i =>
    obtain ⟨d, hd, hpd, rfl⟩ := h.child.mp hb
    refine ⟨[d], rfl, List.pairwise_singleton _ d, fun c => ?_⟩
    rw [List.mem_singleton]
    constructor
    · rintro rfl
      exact ⟨hd, hpd⟩
    · rintro ⟨-, hpc⟩
      exact hpc.unique hpd

/-- The children in the order in which they are put on a stack, with their prefixes. -/
theorem exists_children (h : Describes slot s p n) :
    ∃ cs : List Prefix, n.children.reverse = cs.map slot ∧ cs.Pairwise Prefix.Apart ∧
      ∀ c, c ∈ cs ↔ c ∈ s.nodes ∧ ∃ b, p.IsChild b c := by
  obtain ⟨zs, hzs, hzapart, hz⟩ := h.exists_child false
  obtain ⟨os, hos, hoapart, ho⟩ := h.exists_child true
  have hchildren : n.children = zs.map slot ++ os.map slot := by
    rw [← hzs, ← hos]
    rfl
  refine ⟨os.reverse ++ zs.reverse, ?_, ?_, fun c => ?_⟩
  · rw [hchildren, List.reverse_append, List.map_append, List.map_reverse, List.map_reverse]
  · rw [List.pairwise_append, List.pairwise_reverse, List.pairwise_reverse]
    refine ⟨hoapart.imp Prefix.Apart.symm, hzapart.imp Prefix.Apart.symm, fun c hc d hd => ?_⟩
    have hone := ((ho c).mp (List.mem_reverse.mp hc)).2
    have hzero := ((hz d).mp (List.mem_reverse.mp hd)).2
    exact hone.apart hzero Bool.false_ne_true.symm
  · rw [List.mem_append, List.mem_reverse, List.mem_reverse, ho, hz, Bool.exists_bool,
      ← and_or_left, or_comm]

end Describes

/-- A walk with this stack can go on: the stack holds nodes that are apart from each other, and what
is under them is as the outline wants it. The nodes that have been given up no longer are. -/
structure Intact (t : Trie) (slot : Prefix → NodeId) (s : Outline) (st : List Prefix) : Prop where
  nodes : ∀ p ∈ st, p ∈ s.nodes
  apart : st.Pairwise Prefix.Apart
  node : ∀ q ∈ s.under st, Describes slot s q (t.node (slot q))

namespace Intact

variable {t : Trie} {slot : Prefix → NodeId} {s : Outline} {p : Prefix} {cs st : List Prefix}

/-- The node on top is as the outline wants it. -/
theorem top (h : Intact t slot s (p :: st)) : Describes slot s p (t.node (slot p)) := by
  apply h.node
  rw [Outline.mem_under]
  exact ⟨h.nodes p List.mem_cons_self, p, List.mem_cons_self, p.contains_refl⟩

/-- The top of the stack is given up, and its children take its place. -/
theorem step (h : Intact t slot s (p :: st))
    (hinj : ∀ {p q}, p ∈ s.nodes → q ∈ s.nodes → slot p = slot q → p = q)
    (hapart : cs.Pairwise Prefix.Apart)
    (hcs : ∀ c, c ∈ cs ↔ c ∈ s.nodes ∧ ∃ b, p.IsChild b c) :
    Intact (t.release [slot p]) slot s (cs ++ st) where
  nodes q hq := by
    rcases List.mem_append.mp hq with hq | hq
    · exact ((hcs q).mp hq).1
    · exact h.nodes q (List.mem_cons_of_mem p hq)
  apart := by
    obtain ⟨htop, hrest⟩ := List.pairwise_cons.mp h.apart
    rw [List.pairwise_append]
    refine ⟨hapart, hrest, fun c hc q hq => ?_⟩
    obtain ⟨-, b, hpc⟩ := (hcs c).mp hc
    exact (htop q hq).of_contains hpc.contains
  node q hq := by
    have hp := h.nodes p List.mem_cons_self
    have hnot := Outline.notMem_under hcs (List.pairwise_cons.mp h.apart).1
    have hqp : slot q ≠ slot p := by
      intro he
      rw [hinj (Outline.mem_under.mp hq).1 hp he] at hq
      exact hnot hq
    rw [Trie.node_release_of_notMem (by simpa using hqp)]
    apply h.node
    rw [Outline.under_cons hp hcs]
    exact Finset.mem_insert_of_mem hq

end Intact

namespace Represents

variable {t u : Trie} {slot : Prefix → NodeId} {s : Outline} {p q : Prefix} {st : List Prefix}
  {fuel : Nat}

/-- An outline says nothing about the order of the free slots. -/
theorem of_reordered (h : Represents t slot s) (hu : t.Reordered u) : Represents u slot s where
  slot_root := h.slot_root
  slot_inj := h.slot_inj
  index_lt hp := hu.nodes_eq ▸ h.index_lt hp
  node {p} hp := by
    have hnode : u.node (slot p) = t.node (slot p) := by rw [Trie.node, hu.nodes_eq, Trie.node]
    rw [hnode]
    exact h.node hp
  free_lt i hi := hu.nodes_eq ▸ h.free_lt i (hu.free_perm.mem_iff.mp hi)
  free_nodup := hu.free_perm.nodup_iff.mpr h.free_nodup
  slot_notMem_free hp hfree := h.slot_notMem_free hp (hu.free_perm.mem_iff.mp hfree)
  live_eq := hu.live_eq.trans h.live_eq
  balance := by
    rw [hu.live_eq, hu.free_perm.length_eq, hu.nodes_eq]
    exact h.balance

/-- **The walk visits what is under its stack**, every node once. -/
theorem sweep_eq (hinj : ∀ {p q}, p ∈ s.nodes → q ∈ s.nodes → slot p = slot q → p = q)
    (h : Intact t slot s st) (hfuel : (s.under st).card ≤ fuel) :
    ∃ qs : List Prefix, qs.Nodup ∧ (∀ q, q ∈ qs ↔ q ∈ s.under st) ∧
      Trie.sweep fuel t (st.map slot) =
        (t.release (qs.map slot), qs.filter fun q => q ∈ s.marks) := by
  induction fuel generalizing t st with
  | zero =>
    have hempty : s.under st = ∅ := Finset.card_eq_zero.mp (Nat.le_zero.mp hfuel)
    refine ⟨[], List.nodup_nil, fun q => ?_, rfl⟩
    rw [hempty]
    exact iff_of_false List.not_mem_nil (Finset.notMem_empty q)
  | succ fuel ih =>
    cases st with
    | nil =>
      refine ⟨[], List.nodup_nil, fun q => ?_, rfl⟩
      simp [Outline.mem_under]
    | cons p st =>
      have hp : p ∈ s.nodes := h.nodes p List.mem_cons_self
      have hd := h.top
      obtain ⟨cs, hchildren, hcsapart, hcs⟩ := hd.exists_children
      have hunder : s.under (p :: st) = Insert.insert p (s.under (cs ++ st)) :=
        Outline.under_cons hp hcs
      have hnot := Outline.notMem_under hcs (List.pairwise_cons.mp h.apart).1
      rw [hunder, Finset.card_insert_of_notMem hnot] at hfuel
      obtain ⟨qs, hnodup, hmem, hrun⟩ :=
        ih (h.step hinj hcsapart hcs) (Nat.le_of_succ_le_succ hfuel)
      refine ⟨p :: qs, ?_, fun q => ?_, ?_⟩
      · rw [List.nodup_cons, hmem]
        exact ⟨hnot, hnodup⟩
      · rw [List.mem_cons, hmem, hunder, Finset.mem_insert]
      · have hmarked : t.isMarked (slot p) = decide (p ∈ s.marks) := by
          rw [Bool.eq_iff_iff, decide_eq_true_eq]
          exact hd.marked
        have hblock : t.block (slot p) = p := hd.block
        rw [List.map_cons, Trie.sweep, hchildren, ← List.map_append, hrun]
        simp only [Trie.release_release, List.map_cons, List.filter_cons, hmarked, hblock]

/-- A walk below a node gives up the nodes strictly below it. -/
theorem sweepBelow_eq (h : Represents t slot s) (hp : p ∈ s.nodes) :
    ∃ qs : List Prefix, qs.Nodup ∧ (∀ q, q ∈ qs ↔ q ∈ s.nodes ∧ p.Above q) ∧
      t.sweepBelow (slot p) = ((t.update (slot p) Node.childless).release (qs.map slot),
        Prefix.sort (qs.filter fun q => q ∈ s.marks)) := by
  obtain ⟨cs, hchildren, hapart, hcs⟩ := (h.node hp).exists_children
  have hintact : Intact (t.update (slot p) Node.childless) slot s cs := by
    refine ⟨fun c hc => ((hcs c).mp hc).1, hapart, fun q hq => ?_⟩
    obtain ⟨hqs, hpq⟩ := (Outline.mem_under_children hcs).mp hq
    rw [Trie.node_update_of_ne _ (h.slot_ne hqs hp (Ne.symm hpq.2))]
    exact h.node hqs
  have hfuel : (s.under cs).card ≤ t.live := by
    rw [h.live_eq]
    exact Finset.card_filter_le _ _
  obtain ⟨qs, hnodup, hmem, hrun⟩ := sweep_eq h.slot_inj hintact hfuel
  refine ⟨qs, hnodup, fun q => ?_, ?_⟩
  · rw [hmem, Outline.mem_under_children hcs]
  · unfold Trie.sweepBelow
    rw [hchildren, hrun]

/-- **The walk and the list of nodes give up the same slots.** -/
theorem sweepBelow_fst (h : Represents t slot s) (hp : p ∈ s.nodes) :
    (t.prune (slot p)).1.Reordered (t.sweepBelow (slot p)).1 := by
  obtain ⟨qs, hnodup, hmem, hrun⟩ := h.sweepBelow_eq hp
  have hslots : (qs.map slot).Nodup := by
    refine hnodup.map_on fun q hq r hr he => ?_
    exact h.slot_inj ((hmem q).mp hq).1 ((hmem r).mp hr).1 he
  have hperm : (qs.map slot).Perm (t.below (slot p)) := by
    rw [List.perm_ext_iff_of_nodup hslots (h.nodup_below hp)]
    intro i
    simp only [List.mem_map, hmem, h.mem_below hp, and_assoc]
  rw [hrun]
  exact Trie.release_reordered (t.update (slot p) Node.childless) hperm

/-- The walk and the list report the same prefixes. -/
theorem sweepBelow_snd (h : Represents t slot s) (hp : p ∈ s.nodes) :
    (t.sweepBelow (slot p)).2 = (t.prune (slot p)).2 := by
  obtain ⟨qs, hnodup, hmem, hrun⟩ := h.sweepBelow_eq hp
  rw [hrun, h.prune_snd hp]
  apply Prefix.sort_eq_sort (hnodup.filter _)
  intro q
  rw [List.mem_filter, hmem, Finset.mem_filter, decide_eq_true_eq]
  constructor
  · rintro ⟨⟨-, hpq⟩, hq⟩
    exact ⟨hq, hpq⟩
  · rintro ⟨hq, hpq⟩
    exact ⟨⟨s.marks_subset hq, hpq⟩, hq⟩

end Represents

end CidrCover
