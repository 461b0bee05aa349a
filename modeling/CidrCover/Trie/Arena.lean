import CidrCover.Prefix.Basic

/-!
# The arena of a prefix trie

A trie keeps its nodes in the slots of an array and links them by slot number. A slot that is
given up goes on a list of free slots, and `allocate` takes from that list before it makes the
array longer. `live` counts the slots in use.

Every node knows the prefix that it stands for and its parent. The nodes at and below one are
listed by `subtree`, which follows the child links for a given number of levels; a node of a
prefix trie stands for at most 32 bits, so 33 levels from the root reach all of them.
-/

namespace CidrCover

/-- The number of a slot. -/
structure NodeId where
  index : Nat
  deriving DecidableEq, Repr

/-- A node: its prefix, its links, and whether it is marked as a block of the set. -/
structure Node where
  block : Prefix
  parent : Option NodeId
  zero : Option NodeId
  one : Option NodeId
  terminal : Bool

namespace Node

/-- An unmarked node without children. -/
def fresh (block : Prefix) (parent : Option NodeId) : Node where
  block := block
  parent := parent
  zero := none
  one := none
  terminal := false

instance : Inhabited Node := ⟨fresh Prefix.root none⟩

/-- The child along a bit. -/
def child (n : Node) (b : Bool) : Option NodeId :=
  if b then n.one else n.zero

/-- The children, along zero first. -/
def children (n : Node) : List NodeId :=
  n.zero.toList ++ n.one.toList

/-- The node with another child along a bit. -/
def link (n : Node) (b : Bool) (c : Option NodeId) : Node :=
  if b then { n with one := c } else { n with zero := c }

/-- The bit along which a node is a child. -/
def side? (n : Node) (id : NodeId) : Option Bool :=
  if n.zero = some id then some false
  else if n.one = some id then some true
  else none

/-- The node without its children. -/
def childless (n : Node) : Node :=
  { n with zero := none, one := none }

/-- What stays in a slot that is given up. -/
def released (n : Node) : Node :=
  fresh n.block none

end Node

/-- Nodes in slots, the free slots, and the number of slots in use. -/
structure Trie where
  nodes : Array Node
  free : List NodeId
  live : Nat

namespace Trie

/-- The slot of the root. -/
def rootId : NodeId := ⟨0⟩

/-- The trie that holds an unmarked root. -/
def empty : Trie where
  nodes := #[Node.fresh Prefix.root none]
  free := []
  live := 1

instance : Inhabited Trie := ⟨empty⟩

/-- The node in a slot. -/
def node (t : Trie) (id : NodeId) : Node :=
  t.nodes.getD id.index default

/-- Changes the node in a slot. -/
def update (t : Trie) (id : NodeId) (f : Node → Node) : Trie :=
  { t with nodes := t.nodes.modify id.index f }

/-- Takes a slot for a new node. -/
def allocate (t : Trie) (block : Prefix) (parent : NodeId) : Trie × NodeId :=
  match t with
  | ⟨nodes, [], live⟩ =>
    let id : NodeId := ⟨nodes.size⟩
    (⟨nodes.push (Node.fresh block (some parent)), [], live + 1⟩, id)
  | ⟨nodes, id :: free, live⟩ =>
    (⟨nodes.setIfInBounds id.index (Node.fresh block (some parent)), free, live + 1⟩, id)

/-- Gives up slots. -/
def release (t : Trie) (ids : List NodeId) : Trie :=
  match t with
  | ⟨nodes, free, live⟩ =>
    ⟨ids.foldl (fun ns id => ns.modify id.index Node.released) nodes, ids.reverse ++ free,
      live - ids.length⟩

/-- The node and those below it, as far as a number of levels. -/
def subtree (t : Trie) : Nat → NodeId → List NodeId
  | 0, _ => []
  | levels + 1, id => id :: (t.node id).children.flatMap (t.subtree levels)

/-- The nodes strictly below one. -/
def below (t : Trie) (id : NodeId) : List NodeId :=
  (t.node id).children.flatMap (t.subtree 32)

/-- All nodes that the links reach from the root. -/
def reachable (t : Trie) : List NodeId :=
  t.subtree 33 rootId

end Trie

end CidrCover
