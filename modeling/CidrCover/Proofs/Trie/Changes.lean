import CidrCover.Proofs.Trie.Outline

/-!
# What each change of a trie does to its outline

Marking a node, making one, dropping all below one and dropping one without children: each is shown
to carry a representation of an outline over to one of the changed outline. Marking and dropping
leave all slots that stay in use where they are; making a node gives it a slot of its own.

* **The nodes at and below one** (`mem_subtree`, `nodup_subtree`): following the links lists the
  slot of each prefix below a node once. No node is more than 32 levels down, so `below` misses
  none.
* `Represents.prune` and `prune_snd`: the walk drops the nodes strictly below, and reports the
  marked ones among them in ascending order.
* `Represents.detach`: dropping a node without children leads to its parent.
-/

namespace CidrCover.Represents

variable {t : Trie} {slot : Prefix → NodeId} {s : Outline} {p q c : Prefix} {b : Bool} {i : NodeId}

/-! ### Marking -/

/-- To mark a node is to mark it in the outline. -/
theorem mark (h : Represents t slot s) (hp : p ∈ s.nodes) :
    Represents (t.mark (slot p)) slot (s.mark p hp) where
  slot_root := h.slot_root
  slot_inj := h.slot_inj
  index_lt hq := by
    unfold Trie.mark
    rw [Trie.size_update]
    exact h.index_lt hq
  node {q} hq := by
    have hd := h.node hq
    by_cases hqp : q = p
    · subst hqp
      unfold Trie.mark
      rw [Trie.node_update_self _ (h.index_lt hq)]
      refine ⟨hd.block, hd.parent, ?_, ?_⟩
      · intro b i
        exact hd.child
      · exact ⟨fun _ => Finset.mem_insert_self _ _, fun _ => rfl⟩
    · unfold Trie.mark
      rw [Trie.node_update_of_ne _ (h.slot_ne hq hp hqp)]
      refine hd.congr rfl (fun _ => ⟨Iff.rfl, fun _ => rfl⟩) ?_
      rw [Outline.marks_mark, Finset.mem_insert, or_iff_right hqp]
  free_lt i hi := by
    unfold Trie.mark
    rw [Trie.size_update]
    exact h.free_lt i hi
  free_nodup := h.free_nodup
  slot_notMem_free := h.slot_notMem_free
  live_eq := h.live_eq
  balance := by
    unfold Trie.mark
    rw [Trie.size_update]
    exact h.balance

/-! ### Making a node -/

/-- A new node has no children, for the nodes are closed. -/
theorem describes_fresh {slot' : Prefix → NodeId} (hp : c.parent ∈ s.nodes) (hc : c ∉ s.nodes)
    (hne : c ≠ Prefix.root) :
    Describes slot' (s.withNode c hp) c (Node.fresh c (some (slot' c.parent))) where
  block := rfl
  parent := by
    rw [Prefix.parent?_eq_some hne]
    rfl
  child {a j} := by
    rw [Node.child_fresh]
    refine ⟨fun hj => absurd hj (by simp), ?_⟩
    rintro ⟨d, hd, hcd, -⟩
    rcases Finset.mem_insert.mp hd with rfl | hd
    · exact absurd rfl hcd.ne
    · exact absurd hd (s.notMem_of_contains hc hcd.contains)
  marked := ⟨fun hm => absurd hm (by simp [Node.fresh]), fun hm => absurd (s.marks_subset hm) hc⟩

/-- The parent of a new node has one link more. -/
theorem describes_link {slot' : Prefix → NodeId} {n : Node} (hp : c.parent ∈ s.nodes)
    (hchild : c.parent.IsChild b c) (hold : ∀ {q}, q ∈ s.nodes → slot' q = slot q)
    (hd : Describes slot s c.parent n) :
    Describes slot' (s.withNode c hp) c.parent (n.link b (some (slot' c))) where
  block := by rw [Node.block_link, hd.block]
  parent := by
    rw [Node.parent_link, hd.parent]
    by_cases hroot : c.parent = Prefix.root
    · rw [hroot]; rfl
    · rw [Prefix.parent?_eq_some hroot, Option.map_some, Option.map_some,
        hold (s.closed hp c.parent.parent_contains)]
  child {a j} := by
    rw [Node.child_link]
    by_cases hab : a = b
    · subst hab
      rw [if_pos rfl, Option.some.injEq]
      constructor
      · intro hj
        exact ⟨c, Finset.mem_insert_self _ _, hchild, hj⟩
      · rintro ⟨d, -, hd', rfl⟩
        rw [hchild.unique hd']
    · rw [if_neg hab, hd.child]
      constructor
      · rintro ⟨d, hds, hpd, rfl⟩
        exact ⟨d, Finset.mem_insert_of_mem hds, hpd, hold hds⟩
      · rintro ⟨d, hds, hpd, rfl⟩
        rcases Finset.mem_insert.mp hds with rfl | hds
        · exact absurd (hpd.bit_eq.symm.trans hchild.bit_eq) hab
        · exact ⟨d, hds, hpd, (hold hds).symm⟩
  marked := by
    rw [Node.terminal_link]
    exact hd.marked

/-- A slot that was not in use holds no node. -/
theorem slot_ne_of_unused (h : Represents t slot s) (hq : q ∈ s.nodes)
    (hi : i ∈ t.free ∨ t.nodes.size ≤ i.index) : slot q ≠ i := by
  rintro rfl
  rcases hi with hi | hi
  · exact h.slot_notMem_free hq hi
  · exact absurd (h.index_lt hq) (Nat.not_lt.mpr hi)

/-- A new child in a slot that was not in use, linked to its parent. -/
theorem withNode (h : Represents t slot s) (hp : c.parent ∈ s.nodes) (hc : c ∉ s.nodes)
    (hchild : c.parent.IsChild b c) {u : Trie}
    (ha : Trie.Allocated t (Node.fresh c (some (slot c.parent))) u i) :
    Represents (u.update (slot c.parent) (·.link b (some i))) (Function.update slot c i)
      (s.withNode c hp) := by
  have hold : ∀ {q}, q ∈ s.nodes → Function.update slot c i q = slot q := by
    intro q hq
    refine Function.update_of_ne ?_ _ _
    rintro rfl
    exact hc hq
  have hnew : Function.update slot c i c = i := Function.update_self ..
  have hunused : ∀ {q}, q ∈ s.nodes → slot q ≠ i := fun hq => h.slot_ne_of_unused hq ha.unused
  exact
    { slot_root := (hold s.root_mem).trans h.slot_root
      slot_inj := by
        intro q r hq hr he
        rw [Outline.nodes_withNode, Finset.mem_insert] at hq hr
        rcases hq with rfl | hq <;> rcases hr with rfl | hr
        · rfl
        · rw [hnew, hold hr] at he
          exact absurd he.symm (hunused hr)
        · rw [hnew, hold hq] at he
          exact absurd he (hunused hq)
        · rw [hold hq, hold hr] at he
          exact h.slot_inj hq hr he
      index_lt := by
        intro q hq
        rw [Trie.size_update]
        rcases Finset.mem_insert.mp hq with rfl | hq
        · rw [hnew]
          exact ha.index_lt
        · rw [hold hq]
          exact Nat.lt_of_lt_of_le (h.index_lt hq) ha.size_le
      node := by
        intro q hq
        rcases Finset.mem_insert.mp hq with rfl | hq
        · rw [hnew, Trie.node_update_of_ne _ (hunused hp).symm, ha.node_self, ← hold hp]
          exact describes_fresh hp hc hchild.ne_root
        · by_cases hqp : q = c.parent
          · subst hqp
            rw [hold hq, Trie.node_update_self _ (Nat.lt_of_lt_of_le (h.index_lt hq) ha.size_le),
              ha.node_of_ne (hunused hq)]
            have hlink := describes_link hp hchild hold (h.node hq)
            rwa [hnew] at hlink
          · rw [hold hq, Trie.node_update_of_ne _ (h.slot_ne hq hp hqp),
              ha.node_of_ne (hunused hq)]
            refine (h.node hq).congr (hold (s.closed hq q.parent_contains)) ?_ Iff.rfl
            intro a d hqd
            have hdc : d ≠ c := by
              rintro rfl
              exact hqp hqd.parent_eq.symm
            exact ⟨Finset.mem_insert.trans (or_iff_right hdc), hold⟩
      free_lt := by
        intro j hj
        rw [Trie.size_update]
        exact Nat.lt_of_lt_of_le (h.free_lt j (ha.free_subset hj).1) ha.size_le
      free_nodup := ha.free_nodup
      slot_notMem_free := by
        intro q hq hfree
        rcases Finset.mem_insert.mp hq with rfl | hq
        · exact (ha.free_subset hfree).2 hnew
        · rw [hold hq] at hfree
          exact h.slot_notMem_free hq (ha.free_subset hfree).1
      live_eq := by
        rw [Trie.live_update, ha.live_eq, h.live_eq, Outline.nodes_withNode,
          Finset.card_insert_of_notMem hc]
      balance := by
        have := h.balance
        have := ha.balance
        rw [Trie.live_update, Trie.free_update, Trie.size_update, ha.live_eq]
        omega }

/-- Making a missing child of a node. -/
theorem allocate_child (h : Represents t slot s) (hp : p ∈ s.nodes) (hc : c ∉ s.nodes)
    (hchild : p.IsChild b c) :
    Represents
      ((t.allocate c (slot p)).1.update (slot p) (·.link b (some (t.allocate c (slot p)).2)))
      (Function.update slot c (t.allocate c (slot p)).2)
      (s.withNode c (hchild.parent_eq.symm ▸ hp)) := by
  obtain rfl := hchild.parent_eq
  exact h.withNode hp hc hchild (Trie.allocated_allocate h.free_lt h.free_nodup c _)

/-! ### The nodes below one -/

/-- Below the children of a node are the nodes strictly below it. -/
theorem mem_flatMap_children (h : Represents t slot s) {k : Nat}
    (ih : ∀ {c i}, c ∈ s.nodes → (i ∈ t.subtree k (slot c) ↔
      ∃ q ∈ s.nodes, c.contains q ∧ q.len < c.len + k ∧ slot q = i)) (hp : p ∈ s.nodes) :
    i ∈ (t.node (slot p)).children.flatMap (t.subtree k) ↔
      ∃ q ∈ s.nodes, p.Above q ∧ q.len < p.len + (k + 1) ∧ slot q = i := by
  rw [List.mem_flatMap]
  constructor
  · rintro ⟨j, hj, hi⟩
    obtain ⟨b, hb⟩ := Node.mem_children.mp hj
    obtain ⟨c, hc, hpc, rfl⟩ := (h.node hp).child.mp hb
    obtain ⟨q, hq, hcq, hlen, rfl⟩ := (ih hc).mp hi
    have hclen := hpc.len_eq
    refine ⟨q, hq, Prefix.Above.of_contains ⟨hpc.contains, hpc.ne⟩ hcq, by omega, rfl⟩
  · rintro ⟨q, hq, hpq, hlen, rfl⟩
    have hchild := Prefix.isChild_take hpq.1 hpq.2
    have hcq := q.take_contains (p.len + 1)
    have hc := s.closed hq hcq
    have hclen := hchild.len_eq
    refine ⟨slot (q.take (p.len + 1)), ?_, (ih hc).mpr ⟨q, hq, hcq, by omega, rfl⟩⟩
    exact Node.mem_children.mpr ⟨_, (h.node hp).child_eq_some hc hchild⟩

/-- **What following the links finds**: the slots of the nodes at and below one, as far down as the
number of levels goes. -/
theorem mem_subtree (h : Represents t slot s) (k : Nat) (hp : p ∈ s.nodes) :
    i ∈ t.subtree k (slot p) ↔
      ∃ q ∈ s.nodes, p.contains q ∧ q.len < p.len + k ∧ slot q = i := by
  induction k generalizing p i with
  | zero =>
    refine ⟨fun hi => absurd hi List.not_mem_nil, ?_⟩
    rintro ⟨q, -, hpq, hlen, -⟩
    have := Prefix.len_le_of_contains hpq
    omega
  | succ k ih =>
    rw [Trie.subtree, List.mem_cons, h.mem_flatMap_children ih hp]
    constructor
    · rintro (rfl | ⟨q, hq, hpq, hlen, hi⟩)
      · exact ⟨p, hp, p.contains_refl, by omega, rfl⟩
      · exact ⟨q, hq, hpq.1, hlen, hi⟩
    · rintro ⟨q, hq, hpq, hlen, rfl⟩
      by_cases hne : p = q
      · exact Or.inl (congrArg slot hne.symm)
      · exact Or.inr ⟨q, hq, ⟨hpq, hne⟩, hlen, rfl⟩

/-- No prefix is more than 32 levels below another one, so all below a node is found. -/
theorem mem_below (h : Represents t slot s) (hp : p ∈ s.nodes) :
    i ∈ t.below (slot p) ↔ ∃ q ∈ s.nodes, p.Above q ∧ slot q = i := by
  unfold Trie.below
  rw [h.mem_flatMap_children (h.mem_subtree 32) hp]
  refine exists_congr fun q => and_congr_right fun _ => and_congr_right fun _ => ?_
  have := q.len_le
  exact and_iff_right (by omega)

/-- The two children of a node have nothing below them in common. -/
theorem disjoint_subtree (h : Represents t slot s) (k : Nat) (hp : p ∈ s.nodes) {j : NodeId}
    (hi : (t.node (slot p)).child false = some i) (hj : (t.node (slot p)).child true = some j) :
    List.Disjoint (t.subtree k i) (t.subtree k j) := by
  obtain ⟨c, hc, hpc, rfl⟩ := (h.node hp).child.mp hi
  obtain ⟨d, hd, hpd, rfl⟩ := (h.node hp).child.mp hj
  intro x hx hy
  obtain ⟨q, hq, hcq, -, rfl⟩ := (h.mem_subtree k hc).mp hx
  obtain ⟨r, hr, hdr, -, hrq⟩ := (h.mem_subtree k hd).mp hy
  obtain rfl := h.slot_inj hr hq hrq
  have hbit := (hpc.bit_of_contains hcq).symm.trans (hpd.bit_of_contains hdr)
  exact Bool.false_ne_true hbit

/-- The subtrees of the children have no node in common and list none twice. -/
theorem nodup_flatMap_children (h : Represents t slot s) {k : Nat}
    (ih : ∀ {c}, c ∈ s.nodes → (t.subtree k (slot c)).Nodup) (hp : p ∈ s.nodes) :
    ((t.node (slot p)).children.flatMap (t.subtree k)).Nodup := by
  have hside : ∀ b, ∀ i ∈ ((t.node (slot p)).child b).toList, (t.subtree k i).Nodup := by
    intro b i hi
    obtain ⟨c, hc, -, rfl⟩ := (h.node hp).child.mp (Option.mem_toList.mp hi)
    exact ih hc
  rw [List.nodup_flatMap]
  constructor
  · intro i hi
    obtain ⟨b, hb⟩ := Node.mem_children.mp hi
    exact hside b i (Option.mem_toList.mpr hb)
  · unfold Node.children
    cases hz : (t.node (slot p)).zero with
    | none => cases (t.node (slot p)).one <;> simp
    | some i =>
      cases ho : (t.node (slot p)).one with
      | none => simp
      | some j => simpa [Function.onFun] using h.disjoint_subtree k hp hz ho

/-- Following the links finds every slot once. -/
theorem nodup_subtree (h : Represents t slot s) (k : Nat) (hp : p ∈ s.nodes) :
    (t.subtree k (slot p)).Nodup := by
  induction k generalizing p with
  | zero => exact List.nodup_nil
  | succ k ih =>
    rw [Trie.subtree, List.nodup_cons, h.mem_flatMap_children (h.mem_subtree k) hp]
    refine ⟨?_, h.nodup_flatMap_children ih hp⟩
    rintro ⟨q, hq, hpq, -, he⟩
    exact hpq.2 (h.slot_inj hq hp he).symm

/-- Below a node no node is listed twice. -/
theorem nodup_below (h : Represents t slot s) (hp : p ∈ s.nodes) : (t.below (slot p)).Nodup :=
  h.nodup_flatMap_children (h.nodup_subtree 32) hp

/-- As many nodes are listed below a node as there are prefixes strictly below its own. -/
theorem length_below (h : Represents t slot s) (hp : p ∈ s.nodes) :
    (t.below (slot p)).length = (s.nodes.filter fun q => p.Above q).card := by
  have himage : (t.below (slot p)).toFinset = (s.nodes.filter fun q => p.Above q).image slot := by
    ext i
    simp only [List.mem_toFinset, h.mem_below hp, Finset.mem_image, Finset.mem_filter, and_assoc]
  rw [← List.toFinset_card_of_nodup (h.nodup_below hp), himage]
  apply Finset.card_image_of_injOn
  intro q hq r hr he
  exact h.slot_inj (Finset.mem_filter.mp hq).1 (Finset.mem_filter.mp hr).1 he

/-! ### Dropping all below a node -/

/-- To drop all nodes below one is to drop the prefixes strictly below its own. -/
theorem prune (h : Represents t slot s) (hp : p ∈ s.nodes) :
    Represents (t.prune (slot p)).1 slot (s.prune p) := by
  have hkept : ∀ {q}, q ∈ (s.prune p).nodes → q ∈ s.nodes := fun hq =>
    (Outline.mem_nodes_prune.mp hq).1
  have hbelow : ∀ {q}, q ∈ (s.prune p).nodes → slot q ∉ t.below (slot p) := by
    intro q hq hmem
    obtain ⟨hqs, hpq⟩ := Outline.mem_nodes_prune.mp hq
    obtain ⟨r, hr, hpr, he⟩ := (h.mem_below hp).mp hmem
    exact hpq (h.slot_inj hr hqs he ▸ hpr)
  have hsplit : (s.prune p).nodes.card + (t.below (slot p)).length = s.nodes.card := by
    rw [h.length_below hp, Nat.add_comm]
    exact Finset.card_filter_add_card_filter_not _
  exact
    { slot_root := h.slot_root
      slot_inj := fun hq hr he => h.slot_inj (hkept hq) (hkept hr) he
      index_lt := by
        intro q hq
        unfold Trie.prune
        rw [Trie.size_release, Trie.size_update]
        exact h.index_lt (hkept hq)
      node := by
        intro q hq
        have hd := h.node (hkept hq)
        unfold Trie.prune
        rw [Trie.node_release_of_notMem (hbelow hq)]
        by_cases hqp : q = p
        · subst hqp
          rw [Trie.node_update_self _ (h.index_lt hp)]
          refine ⟨hd.block, hd.parent, ?_, hd.marked.trans ?_⟩
          · intro b i
            rw [Node.child_childless]
            refine ⟨fun hi => absurd hi (by simp), ?_⟩
            rintro ⟨c, hc, hqc, -⟩
            exact absurd ⟨hqc.contains, hqc.ne⟩ (Outline.mem_nodes_prune.mp hc).2
          · rw [Outline.mem_marks_prune, and_iff_left q.not_above_self]
        · rw [Trie.node_update_of_ne _ (h.slot_ne (hkept hq) hp hqp)]
          have hpq := (Outline.mem_nodes_prune.mp hq).2
          refine hd.congr rfl (fun {b c} hqc => ⟨?_, fun _ => rfl⟩) ?_
          · rw [Outline.mem_nodes_prune, and_iff_left_iff_imp]
            intro _ hpc
            have hpar := Prefix.contains_parent hpc.1 hpc.2
            rw [hqc.parent_eq] at hpar
            exact hpq ⟨hpar, Ne.symm hqp⟩
          · rw [Outline.mem_marks_prune, and_iff_left hpq]
      free_lt := by
        intro i hi
        unfold Trie.prune
        rw [Trie.size_release, Trie.size_update]
        rw [Trie.prune, Trie.free_release, List.mem_append, List.mem_reverse, h.mem_below hp] at hi
        rcases hi with ⟨q, hq, -, rfl⟩ | hi
        · exact h.index_lt hq
        · exact h.free_lt i hi
      free_nodup := by
        unfold Trie.prune
        rw [Trie.free_release, List.nodup_append', List.nodup_reverse]
        refine ⟨h.nodup_below hp, h.free_nodup, fun i hi hfree => ?_⟩
        obtain ⟨q, hq, -, rfl⟩ := (h.mem_below hp).mp (List.mem_reverse.mp hi)
        exact h.slot_notMem_free hq hfree
      slot_notMem_free := by
        intro q hq
        unfold Trie.prune
        rw [Trie.free_release, List.mem_append, List.mem_reverse, not_or]
        exact ⟨hbelow hq, h.slot_notMem_free (hkept hq)⟩
      live_eq := by
        unfold Trie.prune
        rw [Trie.live_release, Trie.live_update, h.live_eq]
        omega
      balance := by
        have := h.balance
        have := h.live_eq
        unfold Trie.prune
        rw [Trie.live_release, Trie.free_release, Trie.size_release, Trie.size_update,
          Trie.live_update, List.length_append, List.length_reverse, Trie.free_update]
        omega }

/-- The marked prefixes among some slots, which are those of the nodes with a property. -/
theorem markedAmong_eq (h : Represents t slot s) {P : Prefix → Prop} [DecidablePred P]
    {ids : List NodeId} (hnodup : ids.Nodup)
    (hids : ∀ {i}, i ∈ ids ↔ ∃ q ∈ s.nodes, P q ∧ slot q = i) :
    t.markedAmong ids = (s.marks.filter P).sort (· ≤ ·) := by
  have hblock : ∀ {i}, i ∈ ids → ∃ q ∈ s.nodes, P q ∧ slot q = i ∧ t.block i = q := by
    intro i hi
    obtain ⟨q, hq, hPq, rfl⟩ := hids.mp hi
    exact ⟨q, hq, hPq, rfl, h.block_slot hq⟩
  refine Prefix.sort_eq_sort ?_ fun q => ?_
  · refine List.Nodup.map_on ?_ (hnodup.filter _)
    intro i hi j hj he
    obtain ⟨q, -, -, rfl, hq⟩ := hblock (List.mem_of_mem_filter hi)
    obtain ⟨r, -, -, rfl, hr⟩ := hblock (List.mem_of_mem_filter hj)
    rw [hq, hr] at he
    rw [he]
  · rw [List.mem_map, Finset.mem_filter]
    constructor
    · rintro ⟨i, hi, rfl⟩
      rw [List.mem_filter] at hi
      obtain ⟨q, hq, hPq, rfl, hb⟩ := hblock hi.1
      rw [hb]
      exact ⟨(h.isMarked_slot hq).mp hi.2, hPq⟩
    · rintro ⟨hq, hPq⟩
      have hqs := s.marks_subset hq
      refine ⟨slot q, List.mem_filter.mpr ⟨?_, (h.isMarked_slot hqs).mpr hq⟩, h.block_slot hqs⟩
      exact hids.mpr ⟨q, hqs, hPq, rfl⟩

/-- What a walk below a node reports. -/
theorem prune_snd (h : Represents t slot s) (hp : p ∈ s.nodes) :
    (t.prune (slot p)).2 = (s.marks.filter fun q => p.Above q).sort (· ≤ ·) :=
  h.markedAmong_eq (h.nodup_below hp) (h.mem_below hp)

/-! ### Dropping one node -/

/-- The root stays. -/
theorem detach_root (h : Represents t slot s) : t.detach (slot Prefix.root) = (t, none) := by
  have hparent := (h.node s.root_mem).parent
  rw [Prefix.parent?_root, Option.map_none] at hparent
  unfold Trie.detach
  rw [hparent]

/-- The node is unlinked from its parent, which is the answer, and its slot is given up. -/
theorem detach_eq (h : Represents t slot s) (hp : p ∈ s.nodes) (hne : p ≠ Prefix.root) :
    t.detach (slot p) =
      ((t.update (slot p.parent) (·.link (p.bit p.parent.len) none)).release [slot p],
        some (slot p.parent)) := by
  have hparent := (h.node hp).parent
  rw [Prefix.parent?_eq_some hne, Option.map_some] at hparent
  have hchild := Prefix.isChild_parent hne
  have hd := h.node (s.closed hp p.parent_contains)
  have hother : (t.node (slot p.parent)).child (!p.bit p.parent.len) ≠ some (slot p) := by
    intro he
    obtain ⟨c, hc, hpc, hcp⟩ := hd.child.mp he
    obtain rfl := h.slot_inj hc hp hcp
    exact Bool.not_ne_self _ (hpc.bit_eq.symm.trans hchild.bit_eq)
  unfold Trie.detach
  rw [hparent]
  simp only [Node.side?_eq (hd.child_eq_some hp hchild) hother]

/-- To drop a leaf is to drop its prefix. -/
theorem detach (h : Represents t slot s) (hp : p ∈ s.nodes) (hne : p ≠ Prefix.root)
    (hleaf : ∀ q ∈ s.nodes, ¬ p.Above q) :
    Represents (t.detach (slot p)).1 slot (s.without p hne hleaf) := by
  have hkept : ∀ {q}, q ∈ (s.without p hne hleaf).nodes → q ≠ p ∧ q ∈ s.nodes := fun hq =>
    Finset.mem_erase.mp hq
  have hpar := s.closed hp p.parent_contains
  have hchild := Prefix.isChild_parent hne
  have hcard : s.nodes.card = (s.nodes.erase p).card + 1 :=
    (Finset.card_erase_add_one hp).symm
  rw [h.detach_eq hp hne]
  exact
    { slot_root := h.slot_root
      slot_inj := fun hq hr he => h.slot_inj (hkept hq).2 (hkept hr).2 he
      index_lt := by
        intro q hq
        rw [Trie.size_release, Trie.size_update]
        exact h.index_lt (hkept hq).2
      node := by
        intro q hq
        obtain ⟨hqp, hqs⟩ := hkept hq
        have hd := h.node hqs
        have hmark : q ∈ (s.without p hne hleaf).marks ↔ q ∈ s.marks :=
          Finset.mem_erase.trans (and_iff_right hqp)
        rw [Trie.node_release_of_notMem (by simpa using h.slot_ne hqs hp hqp)]
        by_cases hq' : q = p.parent
        · subst hq'
          rw [Trie.node_update_self _ (h.index_lt hpar)]
          refine ⟨by rw [Node.block_link, hd.block], by rw [Node.parent_link, hd.parent], ?_, ?_⟩
          · intro a j
            rw [Node.child_link]
            by_cases hab : a = p.bit p.parent.len
            · subst hab
              rw [if_pos rfl]
              refine ⟨fun hj => absurd hj (by simp), ?_⟩
              rintro ⟨c, hc, hpc, -⟩
              exact absurd (hpc.unique hchild) (hkept hc).1
            · rw [if_neg hab, hd.child]
              constructor
              · rintro ⟨c, hc, hpc, rfl⟩
                refine ⟨c, Finset.mem_erase.mpr ⟨?_, hc⟩, hpc, rfl⟩
                rintro rfl
                exact hab (hpc.bit_eq.symm.trans hchild.bit_eq)
              · rintro ⟨c, hc, hpc, rfl⟩
                exact ⟨c, (hkept hc).2, hpc, rfl⟩
          · rw [Node.terminal_link, hd.marked, hmark]
        · rw [Trie.node_update_of_ne _ (h.slot_ne hqs hpar hq')]
          refine hd.congr rfl (fun {b c} hqc => ⟨?_, fun _ => rfl⟩) hmark
          refine Finset.mem_erase.trans (and_iff_right ?_)
          rintro rfl
          exact hq' hqc.parent_eq.symm
      free_lt := by
        intro i hi
        rw [Trie.size_release, Trie.size_update]
        rcases List.mem_cons.mp hi with rfl | hi
        · exact h.index_lt hp
        · exact h.free_lt i hi
      free_nodup := List.nodup_cons.mpr ⟨h.slot_notMem_free hp, h.free_nodup⟩
      slot_notMem_free := by
        intro q hq hfree
        rcases List.mem_cons.mp hfree with he | hfree
        · exact (hkept hq).1 (h.slot_inj (hkept hq).2 hp he)
        · exact h.slot_notMem_free (hkept hq).2 hfree
      live_eq := by
        rw [Trie.live_release, Trie.live_update, h.live_eq, hcard]
        rfl
      balance := by
        have := h.balance
        have := h.live_eq
        rw [Trie.live_release, Trie.free_release, Trie.size_release, Trie.size_update,
          Trie.live_update, List.length_append, List.length_reverse, Trie.free_update,
          List.length_singleton]
        omega }

end CidrCover.Represents
