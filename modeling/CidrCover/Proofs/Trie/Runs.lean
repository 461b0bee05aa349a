import CidrCover.Proofs.Antichain.Listing
import CidrCover.Proofs.Trie.Contents

/-!
# Runs of a trie

Four commands change a trie: to insert a prefix, to mark a node, to drop what is below one, and to
drop one without children. The last three are addressed to the node of a prefix. The same commands
can be given to an `Outline`, where each is a line or two about finite sets; a node that is not
there and a node that still has children are refused alike by both.

* **A trie is its outline** (`Trie.trace_eq_trace_outline`): along every run, in any order and with
  marks anywhere, also below each other, the arena with its links, its free slots and its counter
  shows the same answers, nodes and marks as the two sets.
* `Represents.find?_perform`: a node keeps its slot as long as it lives, so a slot number that a
  caller keeps goes on to name the same prefix.
-/

namespace CidrCover

namespace Trie

/-- What can be done to a trie. -/
inductive Command where
  | insert (p : Prefix)
  | mark (p : Prefix)
  | prune (p : Prefix)
  | detach (p : Prefix)

/-- How a command ended. Nodes are told by their prefixes, and slots without a node by nothing. -/
inductive Answer where
  /-- The prefix is now marked in this node, and the marked prefixes below it are gone. -/
  | inserted (node : Option Prefix) (superseded : List Prefix)
  /-- This node was marked already. -/
  | duplicate (node : Option Prefix)
  /-- A shorter marked prefix holds it. -/
  | covered (cover : Prefix)
  /-- The node is marked. -/
  | marked
  /-- The nodes below are gone, and with them these marked prefixes. -/
  | pruned (dropped : List Prefix)
  /-- The node is gone from below this one. -/
  | detached (parent : Option Prefix)
  /-- The root stays. -/
  | kept
  /-- There is no node of the prefix. -/
  | noNode
  /-- There are nodes below the node. -/
  | hasChildren
  deriving DecidableEq

/-- What can be seen of a node. -/
structure NodeView where
  block : Prefix
  marked : Bool
  parent : Option Prefix
  deriving DecidableEq

/-- What can be seen after a command. -/
structure Observation where
  answer : Answer
  /-- The prefixes of the nodes. -/
  nodes : Finset Prefix
  nodeCount : Nat
  /-- The marked prefixes in ascending order. -/
  marked : List Prefix
  /-- The node of each prefix. -/
  node? : Prefix → Option NodeView

end Trie

/-! ### Runs of an outline -/

namespace Outline

variable {s : Outline} {p q : Prefix}

/-- The marked prefixes strictly above a prefix. -/
def covers (s : Outline) (p : Prefix) : Finset Prefix :=
  s.marks.filter fun q => q.Above p

/-- The marked prefixes strictly below a prefix, in ascending order. -/
def nested (s : Outline) (p : Prefix) : List Prefix :=
  Prefix.ascending (s.marks.filter fun q => p.Above q)

/-- Carries out a command. The least cover is the shortest one. -/
def perform (s : Outline) : Trie.Command → Outline × Trie.Answer
  | .insert p =>
    if h : (s.covers p).Nonempty then (s, .covered ((s.covers p).min' h))
    else if p ∈ s.marks then (s, .duplicate (some p))
    else (s.insert p, .inserted (some p) (s.nested p))
  | .mark p =>
    if h : p ∈ s.nodes then (s.mark p h, .marked) else (s, .noNode)
  | .prune p =>
    if p ∈ s.nodes then (s.prune p, .pruned (s.nested p)) else (s, .noNode)
  | .detach p =>
    if p ∉ s.nodes then (s, .noNode)
    else if hne : p = Prefix.root then (s, .kept)
    else if hleaf : ∀ q ∈ s.nodes, ¬ p.Above q then
      (s.without p hne hleaf, .detached p.parent?)
    else (s, .hasChildren)

/-- What can be seen of the node of a prefix. -/
def view? (s : Outline) (p : Prefix) : Option Trie.NodeView :=
  if p ∈ s.nodes then some ⟨p, decide (p ∈ s.marks), p.parent?⟩ else none

/-- What can be seen of an outline. -/
def observe (s : Outline) (answer : Trie.Answer) : Trie.Observation where
  answer := answer
  nodes := s.nodes
  nodeCount := s.nodes.card
  marked := Prefix.ascending s.marks
  node? := s.view?

/-- What can be seen after each of some commands. -/
def trace (s : Outline) : List Trie.Command → List Trie.Observation
  | [] => []
  | c :: cmds => (s.perform c).1.observe (s.perform c).2 :: (s.perform c).1.trace cmds

/-- All covers lie on the path of the prefix, so the least one contains the others. -/
theorem min'_covers_contains (h : (s.covers p).Nonempty) (hq : q ∈ s.covers p) :
    ((s.covers p).min' h).contains q := by
  have hmin := (Finset.mem_filter.mp ((s.covers p).min'_mem h)).2
  have hle := Prefix.len_le_of_le ((s.covers p).min'_le q hq)
  exact Prefix.contains_of_len_le hmin.1 (Finset.mem_filter.mp hq).2.1 hle

end Outline

/-! ### Runs of a trie -/

namespace Trie

/-- Carries out a command. -/
def perform (t : Trie) : Command → Trie × Answer
  | .insert p =>
    match t.insert p with
    | (t, .inserted i superseded) => (t, .inserted (t.prefixOf? i) superseded)
    | (t, .duplicate i) => (t, .duplicate (t.prefixOf? i))
    | (t, .covered cover) => (t, .covered cover)
  | .mark p =>
    match t.find? p with
    | none => (t, .noNode)
    | some i => (t.mark i, .marked)
  | .prune p =>
    match t.find? p with
    | none => (t, .noNode)
    | some i => ((t.prune i).1, .pruned (t.prune i).2)
  | .detach p =>
    match t.find? p with
    | none => (t, .noNode)
    | some i =>
      if (t.parent? i).isSome && !t.isChildless i then (t, .hasChildren)
      else
        match t.detach i with
        | (t, none) => (t, .kept)
        | (t, some parent) => (t, .detached (t.prefixOf? parent))

/-- An insertion is answered by its outcome, with the prefix of the node in place of its slot. -/
theorem perform_insert_inserted {t u : Trie} {p : Prefix} {i : NodeId} {ps : List Prefix}
    (h : t.insert p = (u, .inserted i ps)) :
    t.perform (.insert p) = (u, .inserted (u.prefixOf? i) ps) := by
  simp only [perform, h]

/-- To drop a leaf is answered by the prefix of the parent. -/
theorem perform_detach_some {t u : Trie} {p : Prefix} {i parent : NodeId}
    (hfind : t.find? p = some i) (hleaf : t.isChildless i = true)
    (h : t.detach i = (u, some parent)) :
    t.perform (.detach p) = (u, .detached (u.prefixOf? parent)) := by
  simp [perform, hfind, hleaf, h]

/-- What can be seen of the node of a prefix. -/
def view? (t : Trie) (p : Prefix) : Option NodeView :=
  (t.find? p).map fun i => ⟨t.block i, t.isMarked i, (t.parent? i).bind t.prefixOf?⟩

/-- What can be seen of a trie. -/
def observe (t : Trie) (answer : Answer) : Observation where
  answer := answer
  nodes := t.nodePrefixes
  nodeCount := t.nodeCount
  marked := t.marked
  node? := t.view?

/-- What can be seen after each of some commands. -/
def trace (t : Trie) : List Command → List Observation
  | [] => []
  | c :: cmds => (t.perform c).1.observe (t.perform c).2 :: (t.perform c).1.trace cmds

end Trie

/-! ### One command -/

/-- A command carried out by a trie is the one carried out by its outline, and no node is moved. -/
def Performs (t : Trie) (slot : Prefix → NodeId) (s : Outline) (c : Trie.Command) : Prop :=
  ∃ slot', Represents (t.perform c).1 slot' (s.perform c).1 ∧
    (t.perform c).2 = (s.perform c).2 ∧ ∀ q ∈ s.nodes, slot' q = slot q

/-- If both answers are the same and the tries correspond then the command is carried out. -/
theorem Performs.of_eq {t u : Trie} {slot slot' : Prefix → NodeId} {s v : Outline}
    {c : Trie.Command} {a : Trie.Answer} (ht : t.perform c = (u, a)) (hs : s.perform c = (v, a))
    (hrep : Represents u slot' v) (hold : ∀ q ∈ s.nodes, slot' q = slot q) :
    Performs t slot s c := by
  unfold Performs
  rw [ht, hs]
  exact ⟨slot', hrep, rfl, hold⟩

namespace Represents

variable {t : Trie} {slot : Prefix → NodeId} {s : Outline} {p : Prefix}

/-- A command that both refuse, or that finds nothing to do. -/
theorem performs_unchanged (h : Represents t slot s) {c : Trie.Command} {a : Trie.Answer}
    (ht : t.perform c = (t, a)) (hs : s.perform c = (s, a)) : Performs t slot s c :=
  .of_eq ht hs h fun _ _ => rfl

/-- The walk ends at the shortest mark above a prefix. -/
theorem insert_of_covers (h : Represents t slot s) (hcovers : (s.covers p).Nonempty) :
    t.insert p = (t, .covered ((s.covers p).min' hcovers)) := by
  have hmin := Finset.mem_filter.mp ((s.covers p).min'_mem hcovers)
  apply h.insert_covered hmin.1 hmin.2
  intro q hq hqp
  exact Outline.min'_covers_contains hcovers (Finset.mem_filter.mpr ⟨hq, hqp⟩)

/-- If there is none, it ends at the prefix itself. -/
theorem insert_of_mem_marks (h : Represents t slot s) (hcovers : ¬ (s.covers p).Nonempty)
    (hp : p ∈ s.marks) : t.insert p = (t, .duplicate (slot p)) := by
  apply h.insert_duplicate hp
  intro q hq hqp
  exact hcovers ⟨q, Finset.mem_filter.mpr ⟨hq, hqp⟩⟩

/-- A prefix that a mark contains leaves the trie as it is. -/
theorem insert_of_contains (h : Represents t slot s) {q : Prefix} (hq : q ∈ s.marks)
    (hqp : q.contains p) : (t.insert p).1 = t := by
  by_cases hcovers : (s.covers p).Nonempty
  · rw [h.insert_of_covers hcovers]
  · have hqp' : q = p := by
      by_contra hne
      exact hcovers ⟨q, Finset.mem_filter.mpr ⟨hq, hqp, hne⟩⟩
    rw [h.insert_of_mem_marks hcovers (hqp' ▸ hq)]

/-- An insertion is carried out on the trie as on the outline. -/
theorem performs_insert (h : Represents t slot s) (p : Prefix) :
    Performs t slot s (.insert p) := by
  by_cases hcovers : (s.covers p).Nonempty
  · apply h.performs_unchanged (a := .covered ((s.covers p).min' hcovers))
    · simp only [Trie.perform, h.insert_of_covers hcovers]
    · simp only [Outline.perform, dif_pos hcovers]
  · by_cases hp : p ∈ s.marks
    · apply h.performs_unchanged (a := .duplicate (some p))
      · simp only [Trie.perform, h.insert_of_mem_marks hcovers hp,
          h.prefixOf?_slot (s.marks_subset hp)]
      · simp only [Outline.perform, dif_neg hcovers, if_pos hp]
    · have hnot : ∀ q ∈ s.marks, ¬ q.contains p := by
        intro q hq hqp
        exact hcovers ⟨q, Finset.mem_filter.mpr ⟨hq, hqp, fun he => hp (he ▸ hq)⟩⟩
      obtain ⟨slot', hrep, hout, hold⟩ := h.insert_inserted hnot
      have hnode : p ∈ (s.insert p).nodes :=
        (s.insert p).marks_subset (Outline.mem_marks_insert.mpr (Or.inl rfl))
      apply Performs.of_eq (a := .inserted (some p) (s.nested p)) ?_ ?_ hrep hold
      · rw [Trie.perform_insert_inserted (Prod.ext rfl hout), hrep.prefixOf?_slot hnode]
        rfl
      · simp only [Outline.perform, dif_neg hcovers, if_neg hp]

/-- So is marking. -/
theorem performs_mark (h : Represents t slot s) (p : Prefix) : Performs t slot s (.mark p) := by
  by_cases hp : p ∈ s.nodes
  · refine Performs.of_eq (a := .marked) ?_ ?_ (h.mark hp) fun _ _ => rfl
    · simp only [Trie.perform, h.find?_eq_some hp]
    · simp only [Outline.perform, dif_pos hp]
  · apply h.performs_unchanged (a := .noNode)
    · simp only [Trie.perform, h.find?_eq_none hp]
    · simp only [Outline.perform, dif_neg hp]

/-- So is dropping what is below a prefix. -/
theorem performs_prune (h : Represents t slot s) (p : Prefix) :
    Performs t slot s (.prune p) := by
  by_cases hp : p ∈ s.nodes
  · refine Performs.of_eq (a := .pruned (s.nested p)) ?_ ?_ (h.prune hp) fun _ _ => rfl
    · simp only [Trie.perform, h.find?_eq_some hp, h.prune_snd hp]
      rfl
    · simp only [Outline.perform, if_pos hp]
  · apply h.performs_unchanged (a := .noNode)
    · simp only [Trie.perform, h.find?_eq_none hp]
    · simp only [Outline.perform, if_neg hp]

/-- The parent that a node has in the arena. -/
theorem parent?_slot (h : Represents t slot s) (hp : p ∈ s.nodes) :
    t.parent? (slot p) = p.parent?.map slot :=
  (h.node hp).parent

/-- The root is not dropped from either. -/
theorem performs_detach_root (h : Represents t slot s) :
    Performs t slot s (.detach Prefix.root) := by
  have hroot := s.root_mem
  have hparent := h.parent?_slot hroot
  rw [Prefix.parent?_root, Option.map_none] at hparent
  apply h.performs_unchanged (a := .kept)
  · simp [Trie.perform, h.find?_eq_some hroot, hparent, h.detach_root]
  · simp [Outline.perform, hroot]

/-- Dropping a prefix is carried out on the trie as on the outline. -/
theorem performs_detach (h : Represents t slot s) (p : Prefix) :
    Performs t slot s (.detach p) := by
  by_cases hp : p ∈ s.nodes
  · by_cases hne : p = Prefix.root
    · subst hne
      exact h.performs_detach_root
    · have hparent := h.parent?_slot hp
      rw [Prefix.parent?_eq_some hne, Option.map_some] at hparent
      by_cases hleaf : ∀ q ∈ s.nodes, ¬ p.Above q
      · have hrep := h.detach hp hne hleaf
        have hanswer : (t.detach (slot p)).2 = some (slot p.parent) := by
          rw [h.detach_eq hp hne]
        have hpar : p.parent ∈ (s.without p hne hleaf).nodes :=
          Outline.mem_nodes_without.mpr ⟨Prefix.parent_ne hne, s.closed hp p.parent_contains⟩
        refine Performs.of_eq (a := .detached (some p.parent)) ?_ ?_ hrep fun _ _ => rfl
        · rw [Trie.perform_detach_some (h.find?_eq_some hp) ((h.isChildless_iff hp).mpr hleaf)
            (Prod.ext rfl hanswer), hrep.prefixOf?_slot hpar]
        · simp only [Outline.perform, if_neg (not_not.mpr hp), dif_neg hne, dif_pos hleaf,
            Prefix.parent?_eq_some hne]
      · have hchildless : t.isChildless (slot p) = false := by
          rw [← Bool.not_eq_true, h.isChildless_iff hp]
          exact hleaf
        apply h.performs_unchanged (a := .hasChildren)
        · simp [Trie.perform, h.find?_eq_some hp, hparent, hchildless]
        · simp only [Outline.perform, if_neg (not_not.mpr hp), dif_neg hne, dif_neg hleaf]
  · apply h.performs_unchanged (a := .noNode)
    · simp only [Trie.perform, h.find?_eq_none hp]
    · simp only [Outline.perform, if_pos hp]

/-- **Every command is carried out** on the trie as on the outline. -/
theorem performs (h : Represents t slot s) (c : Trie.Command) : Performs t slot s c := by
  cases c with
  | insert p => exact h.performs_insert p
  | mark p => exact h.performs_mark p
  | prune p => exact h.performs_prune p
  | detach p => exact h.performs_detach p

/-- A node keeps its slot as long as it lives. -/
theorem find?_perform (h : Represents t slot s) (c : Trie.Command) {i j : NodeId}
    (hi : t.find? p = some i) (hj : (t.perform c).1.find? p = some j) : j = i := by
  obtain ⟨slot', hrep, -, hold⟩ := h.performs c
  rw [h.find?_eq] at hi
  rw [hrep.find?_eq] at hj
  split_ifs at hi hj with hp
  cases hi
  cases hj
  exact hold p hp

/-! ### What is seen -/

/-- A prefix looks the same in the trie and in the outline. -/
theorem view?_eq (h : Represents t slot s) (p : Prefix) : t.view? p = s.view? p := by
  unfold Trie.view? Outline.view?
  by_cases hp : p ∈ s.nodes
  · have hparent := h.parent?_slot hp
    have hmarked : t.isMarked (slot p) = decide (p ∈ s.marks) := by
      rw [Bool.eq_iff_iff, decide_eq_true_eq]
      exact h.isMarked_slot hp
    rw [h.find?_eq_some hp, if_pos hp, Option.map_some, h.block_slot hp, hmarked, hparent]
    by_cases hne : p = Prefix.root
    · subst hne
      rfl
    · rw [Prefix.parent?_eq_some hne, Option.map_some, Option.bind_some,
        h.prefixOf?_slot (s.closed hp p.parent_contains)]
  · rw [h.find?_eq_none hp, if_neg hp]
    rfl

/-- After an answer the trie and the outline look the same. -/
theorem observe_eq (h : Represents t slot s) (answer : Trie.Answer) :
    t.observe answer = s.observe answer := by
  unfold Trie.observe Outline.observe Prefix.ascending
  rw [h.nodePrefixes_eq, h.nodeCount_eq, h.marked_eq, funext h.view?_eq]

/-! ### All runs -/

/-- So they do after each command of a run. -/
theorem trace_eq_trace (h : Represents t slot s) (cmds : List Trie.Command) :
    t.trace cmds = s.trace cmds := by
  induction cmds generalizing t slot s with
  | nil => rfl
  | cons c cmds ih =>
    obtain ⟨slot', hrep, hanswer, -⟩ := h.performs c
    simp only [Trie.trace, Outline.trace]
    rw [hanswer, hrep.observe_eq, ih hrep]

end Represents

namespace Trie

/-- **A trie is its outline**: along every run the two show the same. -/
theorem trace_eq_trace_outline (cmds : List Command) :
    empty.trace cmds = Outline.empty.trace cmds :=
  represents_empty.trace_eq_trace cmds

-- a mark above another one covers what comes in later, and what lies below it can still be dropped
example :
    (empty.trace [.insert (.host 10), .mark (Prefix.host 10).parent, .insert (.host 11),
        .detach (Prefix.host 10).parent, .prune (Prefix.host 10).parent]).map (·.answer) =
      [.inserted (some (.host 10)) [], .marked, .covered (Prefix.host 10).parent, .hasChildren,
        .pruned [.host 10]] := by
  decide +kernel

end Trie

end CidrCover
