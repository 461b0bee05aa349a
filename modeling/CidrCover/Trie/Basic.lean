import CidrCover.Trie.Arena

/-!
# Prefix tries

A trie holds a set of marked prefixes; the path to each is a chain of nodes, one for every leading
part of it. `insert` keeps the marked prefixes free of nesting: a prefix below a marked one is
refused, and a prefix above marked ones takes their place. `mark`, `prune` and `detach` are the
single changes of which insertions and folds are made. `marked` lists the marked prefixes in
ascending order, and `nodeCount` is the number of nodes, the root included.
-/

namespace CidrCover

/-- How an insertion ended. -/
inductive Insertion where
  /-- The prefix is now marked; the marked prefixes below it are gone. -/
  | inserted (node : NodeId) (superseded : List Prefix)
  /-- The prefix was marked already. -/
  | duplicate (node : NodeId)
  /-- A shorter marked prefix holds it. -/
  | covered (cover : Prefix)

namespace Trie

/-- The number of nodes, the root included. -/
def nodeCount (t : Trie) : Nat :=
  t.live

/-- The prefix of a node. -/
def block (t : Trie) (id : NodeId) : Prefix :=
  (t.node id).block

/-- The parent of a node. -/
def parent? (t : Trie) (id : NodeId) : Option NodeId :=
  (t.node id).parent

/-- The node is marked. -/
def isMarked (t : Trie) (id : NodeId) : Bool :=
  (t.node id).terminal

/-- The node has no children. -/
def isChildless (t : Trie) (id : NodeId) : Bool :=
  (t.node id).children.isEmpty

/-- Marks a node. -/
def mark (t : Trie) (id : NodeId) : Trie :=
  t.update id fun n => { n with terminal := true }

/-- The marked prefixes among some nodes, in ascending order. -/
def markedAmong (t : Trie) (ids : List NodeId) : List Prefix :=
  Prefix.sort ((ids.filter t.isMarked).map t.block)

/-- The marked prefixes in ascending order. -/
def marked (t : Trie) : List Prefix :=
  t.markedAmong t.reachable

/-- Drops all nodes below one, and lists the marked prefixes among them in ascending order. -/
def prune (t : Trie) (id : NodeId) : Trie × List Prefix :=
  let ids := t.below id
  let dropped := t.markedAmong ids
  ((t.update id Node.childless).release ids, dropped)

/-- Drops a node without children and gives its parent. The root stays where it is. -/
def detach (t : Trie) (id : NodeId) : Trie × Option NodeId :=
  match (t.node id).parent with
  | none => (t, none)
  | some parent =>
    match (t.node parent).side? id with
    | none => (t, none)
    | some b => ((t.update parent (·.link b none)).release [id], some parent)

/-- Follows the last `n` bits of a prefix downwards from a node. -/
def descend? (t : Trie) (p : Prefix) : Nat → NodeId → Option NodeId
  | 0, id => some id
  | n + 1, id => (t.node id).child (p.bit (p.len - (n + 1))) >>= t.descend? p n

/-- The node of a prefix. -/
def find? (t : Trie) (p : Prefix) : Option NodeId :=
  t.descend? p p.len rootId

/-- Inserts a prefix whose last `n` bits lead downwards from a node. A node that is made on the way
stands for the prefix of its parent and one bit more. -/
def insertBelow (p : Prefix) : Nat → Trie → NodeId → Trie × Insertion
  | 0, t, id =>
    if t.isMarked id then (t, .duplicate id)
    else
      let (t, superseded) := (t.mark id).prune id
      (t, .inserted id superseded)
  | n + 1, t, id =>
    if t.isMarked id then
      let cover := t.block id
      (t, .covered cover)
    else
      let b := p.bit (p.len - (n + 1))
      match (t.node id).child b with
      | some next => insertBelow p n t next
      | none =>
        let (t, next) := t.allocate ((t.block id).extend b) id
        insertBelow p n (t.update id (·.link b (some next))) next

/-- Inserts a prefix. -/
def insert (t : Trie) (p : Prefix) : Trie × Insertion :=
  insertBelow p p.len t rootId

end Trie

end CidrCover
