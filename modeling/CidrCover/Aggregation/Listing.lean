import CidrCover.Aggregation.Basic

/-!
# Aggregating a list

`AggregateRequest.aggregate` reads entries, from its arguments or else from the bytes of an input,
and prints the list of blocks. There are two formats for that: one block a line, or a JSON array of
strings.
-/

namespace CidrCover

/-! ### Formats -/

/-- How a list of blocks is written. -/
inductive OutputFormat where
  | text
  | json
  deriving DecidableEq, Repr

namespace OutputFormat

/-- The name of a format. -/
def name : OutputFormat → String
  | .text => "text"
  | .json => "json"

/-- The format of a name. -/
def ofName? (s : String) : Option OutputFormat :=
  [.text, .json].find? (·.name == s)

/-- A list of blocks in a format. -/
def chars (blocks : List Prefix) : OutputFormat → List Char
  | .text => blocks.flatMap fun p => p.chars ++ ['\n']
  | .json => Json.writeLines (blocks.map Prefix.text) ++ ['\n']

/-- A list of blocks in a format, as a string. -/
def write (format : OutputFormat) (blocks : List Prefix) : String :=
  String.ofList (chars blocks format)

end OutputFormat

/-! ### Requests -/

/-- Which entries are to be aggregated, to how many blocks, in which format. -/
structure AggregateRequest where
  entries : List String
  budget : Nat
  format : OutputFormat

namespace AggregateRequest

/-- The entries, which the input holds if there are none of its own. -/
def allEntries (q : AggregateRequest) (input : ByteArray) : Except Failure (List String) :=
  if q.entries.isEmpty then Entry.readLines input else .ok q.entries

/-- Aggregates the entries and prints the blocks. -/
def aggregate (q : AggregateRequest) (input : ByteArray) : Run Unit := do
  let entries ← Run.ofFailure (q.allEntries input)
  let ps ← Run.ofFault (Entry.parseAll entries)
  let a ← aggregatePrefixes ps q.budget
  Run.note (.listed a.stats.inputCount a.stats.outputCount a.stats.extra)
  Run.print (q.format.write a.blocks)

end AggregateRequest

end CidrCover
