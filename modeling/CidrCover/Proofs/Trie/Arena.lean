import CidrCover.Trie.Basic

/-!
# What changes in an arena

One lemma for each change of an arena: what it does to the node in its own slot, and that it leaves
the others alone. `Allocated` is all that a caller has to know of a slot that has been taken; it
holds of `allocate` as long as the free slots are slots of the array and none of them is listed
twice (`allocated_allocate`).
-/

namespace CidrCover

/-! ### Nodes -/

namespace Node

/-- A fresh node has no children. -/
@[simp] theorem child_fresh (p : Prefix) (i : Option NodeId) (b : Bool) :
    (fresh p i).child b = none := by
  cases b <;> rfl

/-- A node has no children once they have been taken away. -/
@[simp] theorem child_childless (n : Node) (b : Bool) : n.childless.child b = none := by
  cases b <;> rfl

/-- To link a child along one bit leaves the child along the other bit. -/
theorem child_link (n : Node) (a b : Bool) (c : Option NodeId) :
    (n.link b c).child a = if a = b then c else n.child a := by
  cases a <;> cases b <;> rfl

/-- To link a child keeps the prefix. -/
@[simp] theorem block_link (n : Node) (b : Bool) (c : Option NodeId) :
    (n.link b c).block = n.block := by
  cases b <;> rfl

/-- To link a child keeps the parent. -/
@[simp] theorem parent_link (n : Node) (b : Bool) (c : Option NodeId) :
    (n.link b c).parent = n.parent := by
  cases b <;> rfl

/-- To link a child keeps the mark. -/
@[simp] theorem terminal_link (n : Node) (b : Bool) (c : Option NodeId) :
    (n.link b c).terminal = n.terminal := by
  cases b <;> rfl

/-- The children are those along the two bits. -/
theorem mem_children {n : Node} {i : NodeId} : i ∈ n.children ↔ ∃ b, n.child b = some i := by
  simp only [children, List.mem_append, Option.mem_toList, Bool.exists_bool, child,
    Bool.false_eq_true, if_false, if_true]

/-- The side of a child that is not a child along the other bit as well. -/
theorem side?_eq {n : Node} {b : Bool} {i : NodeId} (h : n.child b = some i)
    (hother : n.child (!b) ≠ some i) : n.side? i = some b := by
  cases b with
  | false => exact if_pos h
  | true => exact (if_neg hother).trans (if_pos h)

end Node

namespace Trie

variable {t u : Trie} {i j : NodeId}

/-! ### Changing one node -/

/-- To change a node keeps the length of the array. -/
@[simp] theorem size_update (t : Trie) (i : NodeId) (f : Node → Node) :
    (t.update i f).nodes.size = t.nodes.size :=
  Array.size_modify

/-- To change a node keeps the free slots. -/
@[simp] theorem free_update (t : Trie) (i : NodeId) (f : Node → Node) :
    (t.update i f).free = t.free := rfl

/-- To change a node keeps the number of nodes. -/
@[simp] theorem live_update (t : Trie) (i : NodeId) (f : Node → Node) :
    (t.update i f).live = t.live := rfl

/-- A node is the entry of the array, or the default where there is none. -/
theorem node_eq_getElem? (t : Trie) (i : NodeId) : t.node i = t.nodes[i.index]?.getD default := by
  rw [node, Array.getD_eq_getD_getElem?]

/-- Different slots have different numbers. -/
theorem index_ne (h : j ≠ i) : i.index ≠ j.index := by
  intro he
  cases i
  cases j
  exact h (congrArg NodeId.mk he.symm)

/-- A node that is changed is the changed one. -/
theorem node_update_self (f : Node → Node) (h : i.index < t.nodes.size) :
    (t.update i f).node i = f (t.node i) := by
  simp only [node_eq_getElem?, update, Array.getElem?_modify, if_true,
    Array.getElem?_eq_getElem h, Option.map_some, Option.getD_some]

/-- The nodes in all other slots stay the same. -/
theorem node_update_of_ne (f : Node → Node) (h : j ≠ i) : (t.update i f).node j = t.node j := by
  simp only [node_eq_getElem?, update, Array.getElem?_modify, if_neg (index_ne h)]

/-! ### Taking a slot -/

/-- `u` is `t` with the node `n` in a slot `i` that was not in use. -/
structure Allocated (t : Trie) (n : Node) (u : Trie) (i : NodeId) : Prop where
  node_self : u.node i = n
  node_of_ne : ∀ {j}, j ≠ i → u.node j = t.node j
  unused : i ∈ t.free ∨ t.nodes.size ≤ i.index
  index_lt : i.index < u.nodes.size
  size_le : t.nodes.size ≤ u.nodes.size
  free_subset : ∀ {j}, j ∈ u.free → j ∈ t.free ∧ j ≠ i
  free_nodup : u.free.Nodup
  live_eq : u.live = t.live + 1
  balance : u.nodes.size + t.free.length = t.nodes.size + u.free.length + 1

/-- A slot is free or new when it is taken, and all other slots stay as they were. -/
theorem allocated_allocate (hlt : ∀ j ∈ t.free, j.index < t.nodes.size) (hnd : t.free.Nodup)
    (p : Prefix) (q : NodeId) :
    Allocated t (Node.fresh p (some q)) (t.allocate p q).1 (t.allocate p q).2 := by
  obtain ⟨nodes, free, live⟩ := t
  cases free with
  | nil =>
    exact
      { node_self := by simp [allocate, node_eq_getElem?]
        node_of_ne := by
          intro j hj
          have hne : j.index ≠ nodes.size := fun he => index_ne hj he.symm
          simp [allocate, node_eq_getElem?, Array.getElem?_push, hne]
        unused := Or.inr (Nat.le_refl _)
        index_lt := by simp [allocate]
        size_le := by simp [allocate]
        free_subset := fun hj => absurd hj List.not_mem_nil
        free_nodup := List.nodup_nil
        live_eq := rfl
        balance := by simp [allocate] }
  | cons i free =>
    have hi : i.index < nodes.size := hlt i List.mem_cons_self
    rw [List.nodup_cons] at hnd
    exact
      { node_self := by simp [allocate, node_eq_getElem?, hi]
        node_of_ne := by
          intro j hj
          have hne : i.index ≠ j.index := index_ne hj
          simp [allocate, node_eq_getElem?, hne]
        unused := Or.inl List.mem_cons_self
        index_lt := by simpa [allocate] using hi
        size_le := by simp [allocate]
        free_subset := by
          intro j hj
          refine ⟨List.mem_cons_of_mem i hj, ?_⟩
          rintro rfl
          exact hnd.1 hj
        free_nodup := hnd.2
        live_eq := rfl
        balance := by simp [allocate, Nat.add_assoc] }

/-! ### Giving up slots -/

/-- The slots that are given up last are in front. -/
@[simp] theorem free_release (t : Trie) (ids : List NodeId) :
    (t.release ids).free = ids.reverse ++ t.free := rfl

/-- Every slot that is given up is one node less. -/
@[simp] theorem live_release (t : Trie) (ids : List NodeId) :
    (t.release ids).live = t.live - ids.length := rfl

/-- To give up several slots is to give up the first one and then the others. -/
theorem nodes_release_cons (t : Trie) (i : NodeId) (ids : List NodeId) :
    (t.release (i :: ids)).nodes = ((t.update i Node.released).release ids).nodes := rfl

/-- To give up slots keeps the length of the array. -/
@[simp] theorem size_release (t : Trie) (ids : List NodeId) :
    (t.release ids).nodes.size = t.nodes.size := by
  induction ids generalizing t with
  | nil => rfl
  | cons i ids ih => rw [nodes_release_cons, ih, size_update]

/-- A slot that is not given up keeps its node. -/
theorem node_release_of_notMem {ids : List NodeId} (h : j ∉ ids) :
    (t.release ids).node j = t.node j := by
  induction ids generalizing t with
  | nil => rfl
  | cons i ids ih =>
    rw [List.mem_cons, not_or] at h
    rw [node, nodes_release_cons, ← node, ih h.2, node_update_of_ne _ h.1]

end Trie

end CidrCover
