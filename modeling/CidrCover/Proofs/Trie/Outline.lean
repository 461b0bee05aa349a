import CidrCover.Proofs.Prefix.Order
import CidrCover.Proofs.Trie.Arena

/-!
# Tries as sets of prefixes

An `Outline` says which prefixes have nodes in a trie and which of these are marked; the nodes are
closed under containment from above, as the nodes of a tree are. `Represents t slot s` says that the
arena of `t` is laid out as `s` says, with the node of `p` in the slot `slot p`: no slot serves two
prefixes, links lead to the slots of parents and children and nowhere else, the free slots are not
in use and listed once, and the slots in use and the free ones add up to the array.

The outline is what a trie means; the slots are an accident of its history and are never compared.
-/

namespace CidrCover

/-! ### Leading parts -/

/-- The prefixes that contain a prefix. -/
def Prefix.ancestors (p : Prefix) : Finset Prefix :=
  (Finset.range (p.len + 1)).image p.take

/-- The leading parts of a prefix are those that contain it. -/
theorem Prefix.mem_ancestors {p q : Prefix} : q ∈ p.ancestors ↔ q.contains p := by
  unfold ancestors
  rw [Finset.mem_image]
  constructor
  · rintro ⟨n, -, rfl⟩
    exact take_contains p n
  · intro h
    refine ⟨q.len, Finset.mem_range.mpr ?_, contains_iff_take.mp h⟩
    exact Nat.lt_succ_of_le (len_le_of_contains h)

/-! ### Outlines -/

/-- The prefixes that have nodes, and the marked ones among them. -/
structure Outline where
  nodes : Finset Prefix
  marks : Finset Prefix
  root_mem : Prefix.root ∈ nodes
  closed : ∀ {p q}, p ∈ nodes → q.contains p → q ∈ nodes
  marks_subset : marks ⊆ nodes

namespace Outline

variable {s : Outline} {p q r c : Prefix} {b : Bool}

/-- Outlines with the same nodes and the same marks are the same. -/
@[ext] theorem ext {s u : Outline} (hn : s.nodes = u.nodes) (hm : s.marks = u.marks) : s = u := by
  cases s
  cases u
  subst hn hm
  rfl

/-- An unmarked root alone. -/
def empty : Outline where
  nodes := {Prefix.root}
  marks := ∅
  root_mem := Finset.mem_singleton_self _
  closed {p q} hp hqp := by
    rw [Finset.mem_singleton] at hp ⊢
    exact Prefix.eq_root_of_contains_root (hp ▸ hqp)
  marks_subset := Finset.empty_subset _

/-- One more node, the child of one that is there. -/
def withNode (s : Outline) (c : Prefix) (h : c.parent ∈ s.nodes) : Outline where
  nodes := insert c s.nodes
  marks := s.marks
  root_mem := Finset.mem_insert_of_mem s.root_mem
  closed {p q} hp hqp := by
    rw [Finset.mem_insert] at hp ⊢
    rcases hp with rfl | hp
    · by_cases hqc : q = p
      · exact Or.inl hqc
      · exact Or.inr (s.closed h (Prefix.contains_parent hqp hqc))
    · exact Or.inr (s.closed hp hqp)
  marks_subset := s.marks_subset.trans (Finset.subset_insert _ _)

/-- One more mark. -/
def mark (s : Outline) (p : Prefix) (h : p ∈ s.nodes) : Outline where
  nodes := s.nodes
  marks := insert p s.marks
  root_mem := s.root_mem
  closed := s.closed
  marks_subset := Finset.insert_subset h s.marks_subset

/-- Nothing strictly below a prefix. -/
def prune (s : Outline) (p : Prefix) : Outline where
  nodes := s.nodes.filter fun q => ¬ p.Above q
  marks := s.marks.filter fun q => ¬ p.Above q
  root_mem := Finset.mem_filter.mpr ⟨s.root_mem, p.not_above_root⟩
  closed {q r} hq hrq := by
    rw [Finset.mem_filter] at hq ⊢
    exact ⟨s.closed hq.1 hrq, fun hpr => hq.2 (hpr.of_contains hrq)⟩
  marks_subset := Finset.filter_subset_filter _ s.marks_subset

/-- One node less, which has none below. -/
def without (s : Outline) (p : Prefix) (hne : p ≠ Prefix.root) (h : ∀ q ∈ s.nodes, ¬ p.Above q) :
    Outline where
  nodes := s.nodes.erase p
  marks := s.marks.erase p
  root_mem := Finset.mem_erase.mpr ⟨hne.symm, s.root_mem⟩
  closed {q r} hq hrq := by
    rw [Finset.mem_erase] at hq ⊢
    refine ⟨?_, s.closed hq.2 hrq⟩
    rintro rfl
    exact h q hq.2 ⟨hrq, hq.1.symm⟩
  marks_subset := Finset.erase_subset_erase _ s.marks_subset

/-- A marked prefix with the path to it and nothing strictly below it. -/
def insert (s : Outline) (p : Prefix) : Outline where
  nodes := (s.nodes ∪ p.ancestors).filter fun q => ¬ p.Above q
  marks := Insert.insert p (s.marks.filter fun q => ¬ p.Above q)
  root_mem := by
    rw [Finset.mem_filter, Finset.mem_union]
    exact ⟨Or.inl s.root_mem, p.not_above_root⟩
  closed {q r} hq hrq := by
    rw [Finset.mem_filter, Finset.mem_union, Prefix.mem_ancestors] at hq ⊢
    obtain ⟨hq, hpq⟩ := hq
    refine ⟨?_, fun hpr => hpq (hpr.of_contains hrq)⟩
    exact hq.imp (fun h => s.closed h hrq) (Prefix.contains_trans hrq)
  marks_subset := by
    refine Finset.insert_subset ?_ fun q hq => ?_
    · rw [Finset.mem_filter, Finset.mem_union, Prefix.mem_ancestors]
      exact ⟨Or.inr p.contains_refl, p.not_above_self⟩
    · rw [Finset.mem_filter] at hq ⊢
      exact ⟨Finset.mem_union_left _ (s.marks_subset hq.1), hq.2⟩

/-- One node more. -/
@[simp] theorem nodes_withNode {h : c.parent ∈ s.nodes} :
    (s.withNode c h).nodes = Insert.insert c s.nodes := rfl

/-- A new node is not marked. -/
@[simp] theorem marks_withNode {h : c.parent ∈ s.nodes} : (s.withNode c h).marks = s.marks := rfl

/-- To mark a node makes no node. -/
@[simp] theorem nodes_mark {h : p ∈ s.nodes} : (s.mark p h).nodes = s.nodes := rfl

/-- One mark more. -/
@[simp] theorem marks_mark {h : p ∈ s.nodes} :
    (s.mark p h).marks = Insert.insert p s.marks := rfl

/-- The nodes that are left are those that do not lie strictly below. -/
theorem mem_nodes_prune : q ∈ (s.prune p).nodes ↔ q ∈ s.nodes ∧ ¬ p.Above q :=
  Finset.mem_filter

/-- The marks that are left are those that do not lie strictly below. -/
theorem mem_marks_prune : q ∈ (s.prune p).marks ↔ q ∈ s.marks ∧ ¬ p.Above q :=
  Finset.mem_filter

/-- All nodes but the one that was dropped are left. -/
theorem mem_nodes_without {hne : p ≠ Prefix.root} {h : ∀ q ∈ s.nodes, ¬ p.Above q} :
    q ∈ (s.without p hne h).nodes ↔ q ≠ p ∧ q ∈ s.nodes :=
  Finset.mem_erase

/-- Its mark, if it had one, is gone with it. -/
theorem mem_marks_without {hne : p ≠ Prefix.root} {h : ∀ q ∈ s.nodes, ¬ p.Above q} :
    q ∈ (s.without p hne h).marks ↔ q ≠ p ∧ q ∈ s.marks :=
  Finset.mem_erase

/-- After an insertion the nodes are those that there were and those of the path, without what is
strictly below its end. -/
theorem mem_nodes_insert :
    q ∈ (s.insert p).nodes ↔ (q ∈ s.nodes ∨ q.contains p) ∧ ¬ p.Above q := by
  unfold insert
  rw [Finset.mem_filter, Finset.mem_union, Prefix.mem_ancestors]

/-- After an insertion the marks are the new one and those that do not lie strictly below it. -/
theorem mem_marks_insert : q ∈ (s.insert p).marks ↔ q = p ∨ q ∈ s.marks ∧ ¬ p.Above q := by
  unfold insert
  rw [Finset.mem_insert, Finset.mem_filter]

/-- On a node that is there, an insertion marks it and prunes below. -/
theorem prune_mark (h : p ∈ s.nodes) : (s.mark p h).prune p = s.insert p := by
  ext q
  · rw [mem_nodes_prune, mem_nodes_insert, nodes_mark]
    exact and_congr_left fun _ => (or_iff_left_of_imp fun hqp => s.closed h hqp).symm
  · rw [mem_marks_prune, mem_marks_insert, marks_mark, Finset.mem_insert, or_and_right]
    refine or_congr_left (and_iff_left_of_imp ?_)
    rintro rfl
    exact q.not_above_self

/-- Nodes on the way to a prefix are made by its insertion anyway. -/
theorem insert_withNode (h : c.parent ∈ s.nodes) (hcp : c.contains p) :
    (s.withNode c h).insert p = s.insert p := by
  ext q
  · rw [mem_nodes_insert, mem_nodes_insert, nodes_withNode, Finset.mem_insert, or_assoc]
    refine and_congr_left fun _ => or_iff_right_of_imp ?_
    rintro rfl
    exact Or.inr hcp
  · rw [mem_marks_insert, mem_marks_insert, marks_withNode]

/-- Nodes below a prefix are dropped by its insertion anyway. -/
theorem insert_without {hne : p ≠ Prefix.root} {h : ∀ q ∈ s.nodes, ¬ p.Above q} (hrp : r.Above p) :
    (s.without p hne h).insert r = s.insert r := by
  have hdrop : ∀ {q}, ¬ r.Above q → q ≠ p := by
    rintro q hq rfl
    exact hq hrp
  ext q
  · rw [mem_nodes_insert, mem_nodes_insert, mem_nodes_without]
    exact and_congr_left fun hq => or_congr_left (and_iff_right (hdrop hq))
  · rw [mem_marks_insert, mem_marks_insert, mem_marks_without]
    exact or_congr_right (and_congr_left fun hq => and_iff_right (hdrop hq))

/-- A child that is not there has nothing below it. -/
theorem notMem_of_contains (h : c ∉ s.nodes) (hcq : c.contains q) : q ∉ s.nodes := fun hq =>
  h (s.closed hq hcq)

end Outline

/-! ### Representation -/

/-- A node as an outline wants it for a prefix. -/
structure Describes (slot : Prefix → NodeId) (s : Outline) (p : Prefix) (n : Node) : Prop where
  block : n.block = p
  parent : n.parent = p.parent?.map slot
  child : ∀ {b i}, n.child b = some i ↔ ∃ c ∈ s.nodes, p.IsChild b c ∧ slot c = i
  marked : n.terminal = true ↔ p ∈ s.marks

/-- The trie has the nodes and marks of the outline, that of `p` in the slot `slot p`. -/
structure Represents (t : Trie) (slot : Prefix → NodeId) (s : Outline) : Prop where
  slot_root : slot Prefix.root = Trie.rootId
  slot_inj : ∀ {p q}, p ∈ s.nodes → q ∈ s.nodes → slot p = slot q → p = q
  index_lt : ∀ {p}, p ∈ s.nodes → (slot p).index < t.nodes.size
  node : ∀ {p}, p ∈ s.nodes → Describes slot s p (t.node (slot p))
  free_lt : ∀ i ∈ t.free, i.index < t.nodes.size
  free_nodup : t.free.Nodup
  slot_notMem_free : ∀ {p}, p ∈ s.nodes → slot p ∉ t.free
  live_eq : t.live = s.nodes.card
  balance : t.live + t.free.length = t.nodes.size

/-- The empty trie represents the root without a mark. -/
theorem represents_empty : Represents Trie.empty (fun _ => Trie.rootId) Outline.empty where
  slot_root := rfl
  slot_inj hp hq _ := (Finset.mem_singleton.mp hp).trans (Finset.mem_singleton.mp hq).symm
  index_lt _ := Nat.one_pos
  node {p} hp := by
    obtain rfl := Finset.mem_singleton.mp hp
    refine ⟨rfl, rfl, ?_, ?_⟩
    · intro b i
      constructor
      · intro h
        cases b <;> cases h
      · rintro ⟨c, hc, hchild, -⟩
        exact absurd (Finset.mem_singleton.mp hc) hchild.ne_root
    · exact ⟨fun h => absurd h Bool.false_ne_true, fun h => absurd h (Finset.notMem_empty _)⟩
  free_lt i hi := absurd hi List.not_mem_nil
  free_nodup := List.nodup_nil
  slot_notMem_free _ := List.not_mem_nil
  live_eq := rfl
  balance := rfl

namespace Describes

variable {slot slot' : Prefix → NodeId} {s s' : Outline} {p q c : Prefix} {b : Bool} {n : Node}

/-- What a node is to be depends on the slots next to it, the children and the mark alone. -/
theorem congr (h : Describes slot s p n) (hparent : slot' p.parent = slot p.parent)
    (hchild : ∀ {b c}, p.IsChild b c →
      (c ∈ s'.nodes ↔ c ∈ s.nodes) ∧ (c ∈ s.nodes → slot' c = slot c))
    (hmark : p ∈ s'.marks ↔ p ∈ s.marks) : Describes slot' s' p n where
  block := h.block
  parent := by
    rw [h.parent]
    by_cases hp : p = Prefix.root
    · subst hp; rfl
    · rw [Prefix.parent?_eq_some hp, Option.map_some, Option.map_some, hparent]
  child {b i} := by
    rw [h.child]
    constructor
    · rintro ⟨c, hc, hpc, rfl⟩
      exact ⟨c, (hchild hpc).1.mpr hc, hpc, (hchild hpc).2 hc⟩
    · rintro ⟨c, hc, hpc, rfl⟩
      have hcs := (hchild hpc).1.mp hc
      exact ⟨c, hcs, hpc, ((hchild hpc).2 hcs).symm⟩
  marked := h.marked.trans hmark.symm

/-- The link to a child that has a node. -/
theorem child_eq_some (h : Describes slot s p n) (hc : c ∈ s.nodes) (hpc : p.IsChild b c) :
    n.child b = some (slot c) :=
  h.child.mpr ⟨c, hc, hpc, rfl⟩

/-- There is no link to a child that has no node. -/
theorem child_eq_none (h : Describes slot s p n) (hc : c ∉ s.nodes) (hpc : p.IsChild b c) :
    n.child b = none := by
  rw [Option.eq_none_iff_forall_ne_some]
  intro i hi
  obtain ⟨d, hd, hpd, -⟩ := h.child.mp hi
  exact hc (hpc.unique hpd ▸ hd)

end Describes

namespace Represents

variable {t : Trie} {slot : Prefix → NodeId} {s : Outline} {p q : Prefix}

/-- Different nodes have different slots. -/
theorem slot_ne (h : Represents t slot s) (hp : p ∈ s.nodes) (hq : q ∈ s.nodes) (hne : p ≠ q) :
    slot p ≠ slot q := fun he => hne (h.slot_inj hp hq he)

/-- The node in the slot of a prefix knows that prefix. -/
theorem block_slot (h : Represents t slot s) (hp : p ∈ s.nodes) : t.block (slot p) = p :=
  (h.node hp).block

/-- The node in the slot of a prefix is marked if the prefix is. -/
theorem isMarked_slot (h : Represents t slot s) (hp : p ∈ s.nodes) :
    t.isMarked (slot p) = true ↔ p ∈ s.marks :=
  (h.node hp).marked

end Represents

end CidrCover
