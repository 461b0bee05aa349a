import CidrCover.Config.Basic
import CidrCover.Entry.Basic
import CidrCover.Prefix.Network
import CidrCover.Run

/-!
# Aggregation

`aggregatePrefixes` reduces prefixes to at most a given number of blocks that cover them, and
counts what it did. A budget of zero is refused. `aggregateEntries` does the same for entries: it
looks at the budget first and at the entries after that.

`countAddresses` adds up the sizes of blocks and stops at the greatest 64-bit number; it counts an
address once for every block that holds it. `covers` compares blocks by their first and last
addresses, other than a reduction does, so that it can serve as a check of the result of one.
-/

namespace CidrCover

/-! ### Counting addresses -/

/-- The greatest count. -/
def maxCount : Nat := Nat.pow 2 64 - 1

/-- The number of addresses of the blocks together, no more than `maxCount`. -/
def countAddresses (ps : List Prefix) : Nat :=
  ps.foldl (fun n p => min (n + p.size) maxCount) 0

/-- The addresses of the output that were not asked for. -/
def extraAddresses (input output : Nat) : Nat :=
  output - input

/-- The extra addresses in percent of the input addresses; nothing if there is no input. -/
def overreachPercent (input output : Nat) : Binary64 :=
  if input = 0 then .zero
  else
    ((Binary64.ofNat (extraAddresses input output)).div (.ofNat input)).mul (.ofNat 100)

/-- Every input lies in one of the blocks. -/
def covers (blocks inputs : List Prefix) : Bool :=
  inputs.all fun p => blocks.any fun b => b.toNetwork.contains p.toNetwork

/-! ### Aggregations -/

/-- What an aggregation did. -/
structure Stats where
  /-- The number of prefixes given. -/
  inputCount : Nat
  /-- The number of leaves without repetitions and nested prefixes. -/
  distinctCount : Nat
  /-- The number of blocks. -/
  outputCount : Nat
  /-- The number of folds. -/
  folds : Nat
  /-- The number of addresses of the leaves. -/
  inputAddresses : Nat
  /-- The number of addresses of the blocks. -/
  outputAddresses : Nat
  deriving DecidableEq, Repr

namespace Stats

/-- The number of addresses that are covered without having been asked for. -/
def extra (s : Stats) : Nat :=
  extraAddresses s.inputAddresses s.outputAddresses

/-- The same in percent of the addresses that were asked for. -/
def extraPercent (s : Stats) : Binary64 :=
  overreachPercent s.inputAddresses s.outputAddresses

end Stats

/-- Blocks that cover what was given, and how they came about. -/
structure Aggregation where
  /-- The blocks in ascending order. -/
  blocks : List Prefix
  stats : Stats

/-- The blocks as texts. -/
def Aggregation.texts (a : Aggregation) : List String :=
  a.blocks.map Prefix.text

namespace Reduction

/-- What the insertion of a prefix is worth noting. -/
def insertionEvents : Prefix × Insertion → List Event
  | (p, .inserted _ superseded) => superseded.map (.superseded · p)
  | (p, .duplicate _) => [.duplicate p]
  | (p, .covered cover) => [.covered p cover]

end Reduction

/-- The reduction of prefixes to at most `n` blocks, whatever `n` is. -/
def reducePrefixes (ps : List Prefix) (n : Nat) : Run Aggregation :=
  let (start, insertions) := Reduction.empty.addAll ps
  let distinct := start.blocks
  let nodes := start.trie.nodeCount
  let (final, folds) := start.reduce n
  let stats : Stats :=
    { inputCount := ps.length
      distinctCount := distinct.length
      outputCount := final.blocks.length
      folds := final.folds
      inputAddresses := countAddresses distinct
      outputAddresses := countAddresses final.blocks }
  do
    Run.noteAll (insertions.flatMap Reduction.insertionEvents)
    Run.note (.built nodes distinct.length)
    Run.noteAll (folds.map .folded)
    Run.note (.aggregated stats.inputCount stats.distinctCount stats.outputCount stats.folds)
    return ⟨final.blocks, stats⟩

/-- Reduces prefixes to at most `n` blocks. -/
def aggregatePrefixes (ps : List Prefix) (n : Nat) : Run Aggregation := do
  Run.ofFault (checkMaxBlocks n)
  reducePrefixes ps n

/-- Reduces entries to at most `n` blocks. -/
def aggregateEntries (entries : List String) (n : Nat) : Run (List String) := do
  Run.ofFault (checkMaxBlocks n)
  let ps ← Run.ofFault (Entry.parseAll entries)
  let a ← aggregatePrefixes ps n
  return a.texts

end CidrCover
