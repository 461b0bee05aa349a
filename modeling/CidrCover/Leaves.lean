import CidrCover.Trie.Arena

/-!
# The table of leaves

A table from prefixes to the nodes that hold them, in descending order of the prefixes, so that the
longest prefix, and of the longest ones that with the greatest value, stands first. An entry is
never replaced: inserting a prefix that the table has changes nothing.
-/

namespace CidrCover

/-- Prefixes with their nodes, the greatest first. -/
structure Leaves where
  entries : List (Prefix × NodeId)

namespace Leaves

/-- The table without entries. -/
def empty : Leaves := ⟨[]⟩

/-- The number of entries. -/
def size (l : Leaves) : Nat :=
  l.entries.length

/-- There are no entries. -/
def isEmpty (l : Leaves) : Bool :=
  l.entries.isEmpty

/-- The prefixes in ascending order. -/
def prefixes (l : Leaves) : List Prefix :=
  (l.entries.map Prod.fst).reverse

/-- The node of a prefix. -/
def find? (l : Leaves) (p : Prefix) : Option NodeId :=
  l.entries.lookup p

/-- Puts an entry in its place in a descending list, unless the list has one for its prefix. -/
def place (p : Prefix) (id : NodeId) : List (Prefix × NodeId) → List (Prefix × NodeId)
  | [] => [(p, id)]
  | e :: rest =>
    if e.1 < p then (p, id) :: e :: rest
    else if e.1 = p then e :: rest
    else e :: place p id rest

/-- Adds an entry unless the table has one for the prefix. -/
def insert (l : Leaves) (p : Prefix) (id : NodeId) : Leaves :=
  ⟨place p id l.entries⟩

/-- Removes the entry of a prefix, if there is one. -/
def erase (l : Leaves) (p : Prefix) : Leaves :=
  ⟨l.entries.eraseP (·.1 == p)⟩

/-- Adds an entry, and tells whether the table had none for the prefix. -/
def tryInsert (l : Leaves) (p : Prefix) (id : NodeId) : Leaves × Bool :=
  (l.insert p id, (l.find? p).isNone)

/-- Removes the entry of a prefix, and gives the node that it had. -/
def remove (l : Leaves) (p : Prefix) : Leaves × Option NodeId :=
  (l.erase p, l.find? p)

/-- Removes the entries of some prefixes. -/
def eraseAll (l : Leaves) (ps : List Prefix) : Leaves :=
  ps.foldl erase l

/-- Takes out the entry with the greatest prefix. -/
def popMax? (l : Leaves) : Option ((Prefix × NodeId) × Leaves) :=
  match l.entries with
  | [] => none
  | e :: rest => some (e, ⟨rest⟩)

end Leaves

end CidrCover
