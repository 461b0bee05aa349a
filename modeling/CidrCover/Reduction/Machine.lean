import CidrCover.Leaves
import CidrCover.Trie.Basic

/-!
# Reducing a set of prefixes

A `Reduction` holds a set of prefixes none of which lies in another, as the marked nodes of a trie
and, for quick access to the greatest of them, as a table of leaves. `add` puts a prefix in. `step`
takes the greatest leaf when there are more leaves than a budget allows, and folds it into its
parent, which takes in whatever else lies below it. `reduce` folds until the budget is met or only
the root is left; each fold gives up at least one node of the trie, so the number of nodes bounds
the number of folds.

Folding only ever widens a block, so what was covered stays covered.
-/

namespace CidrCover

/-- One fold: the leaf, the block that it went into, and the number of leaves afterwards. -/
structure Fold where
  leaf : Prefix
  into : Prefix
  left : Nat

/-- A set of prefixes under reduction, with the number of folds so far. -/
structure Reduction where
  trie : Trie
  leaves : Leaves
  folds : Nat

namespace Reduction

/-- The empty set. -/
def empty : Reduction := ⟨Trie.empty, Leaves.empty, 0⟩

/-- The number of leaves. -/
def leafCount (r : Reduction) : Nat :=
  r.leaves.size

/-- The leaves in ascending order. -/
def blocks (r : Reduction) : List Prefix :=
  r.leaves.prefixes

/-- Adds a prefix to the set. -/
def add (r : Reduction) (p : Prefix) : Reduction × Insertion :=
  match r with
  | ⟨trie, leaves, folds⟩ =>
    match trie.insert p with
    | (trie, .inserted node superseded) =>
      (⟨trie, (leaves.eraseAll superseded).insert p node, folds⟩, .inserted node superseded)
    | (trie, .duplicate node) => (⟨trie, leaves, folds⟩, .duplicate node)
    | (trie, .covered cover) => (⟨trie, leaves, folds⟩, .covered cover)

/-- Adds prefixes in turn, and tells how each insertion ended. -/
def addAll (r : Reduction) : List Prefix → Reduction × List (Prefix × Insertion)
  | [] => (r, [])
  | p :: rest =>
    let (r, outcome) := r.add p
    let (r, outcomes) := addAll r rest
    (r, (p, outcome) :: outcomes)

/-- The set of the given prefixes, less those that lie in another. -/
def ofPrefixes (ps : List Prefix) : Reduction :=
  (addAll empty ps).1

/-- Folds the greatest leaf into its parent if there are more than `n` leaves. -/
def step (n : Nat) (r : Reduction) : Reduction × Option Fold :=
  match r with
  | ⟨trie, leaves, folds⟩ =>
    if leaves.size ≤ n then (⟨trie, leaves, folds⟩, none)
    else
      match leaves.popMax? with
      | none => (⟨trie, leaves, folds⟩, none)
      | some ((leaf, node), rest) =>
        match trie.detach node with
        | (trie, none) => (⟨trie, leaves, folds⟩, none)
        | (trie, some parent) =>
          let into := trie.block parent
          let rest := if trie.isMarked parent then rest else rest.insert into parent
          let (trie, swept) := (trie.mark parent).prune parent
          let rest := rest.eraseAll swept
          (⟨trie, rest, folds + 1⟩, some ⟨leaf, into, rest.size⟩)

/-- Folds at most `fuel` times, while there are more than `n` leaves. -/
def reduceWith (n : Nat) : Nat → Reduction → Reduction × List Fold
  | 0, r => (r, [])
  | fuel + 1, r =>
    match r.step n with
    | (r, none) => (r, [])
    | (r, some f) =>
      let (r, fs) := reduceWith n fuel r
      (r, f :: fs)

/-- Folds until there are at most `n` leaves or only the root is left. -/
def reduce (n : Nat) (r : Reduction) : Reduction × List Fold :=
  let fuel := r.trie.nodeCount
  reduceWith n fuel r

end Reduction

end CidrCover
