import CidrCover.Aggregation.Basic
import CidrCover.Config.Files

/-!
# Building and generating the file of a configuration

The entries of the enabled sources go through the shape filter, which passes over those that are no
IPv4 blocks. The others are read and aggregated, and the blocks are checked by a test of their own
to cover everything before they are written (`Config.build`).

`GenerateRequest.generate` loads a configuration, builds its file and puts that in its place, or
prints it in a dry run. All that can be wrong with the configuration and its entries comes to light
before anything is written or printed.
-/

namespace CidrCover

/-! ### Building -/

/-- The blocks have to cover the prefixes. -/
def checkCover (blocks ps : List Prefix) : Except Fault Unit :=
  if covers blocks ps then .ok () else .error .uncovered

/-- Parts entries by their shape, and notes those that have not the shape of IPv4 blocks. -/
def siftEntries (entries : List String) : Run Entry.Sifted := do
  let sifted := Entry.sift entries
  Run.noteAll (sifted.rejected.map .skipped)
  return sifted

/-- Aggregates the enabled sources to at most `n` blocks, and writes the file. -/
def Config.build (c : Config) (n : Nat) : Run (Aggregation × String) := do
  let sifted ← siftEntries c.enabledCidrs
  Run.noteIf (!sifted.rejected.isEmpty) (.skippedTotal sifted.rejected.length)
  let ps ← Run.ofFault (Entry.parseAll sifted.accepted)
  let a ← aggregatePrefixes ps n
  Run.ofFault (checkCover a.blocks ps)
  let content ←
    Run.ofFault (Terraform.renderLocals a.texts c.variableName Terraform.generatorName)
  return (a, content)

/-! ### Generating -/

/-- What is to be generated. -/
structure GenerateRequest where
  /-- The path of the configuration. -/
  config : String
  /-- The budget, if it is not that of the configuration. -/
  budget : Option Nat
  /-- The file to write, if it is not that of the configuration. -/
  outputFile : Option String
  /-- Write nothing. -/
  dryRun : Bool

/-- A file that is ready to be written. -/
structure GeneratedFile where
  path : String
  content : String

namespace GenerateRequest

/-- Sums up an aggregation. -/
def summary (s : Stats) : Run Unit := do
  Run.noteIf (s.outputCount == 0) .nothingConfigured
  Run.note (.ranges s.inputCount s.outputCount s.folds)
  Run.note (.addresses s.inputAddresses s.outputAddresses s.extraPercent)

/-- Builds the file. -/
def plan (q : GenerateRequest) (t : FileTree) : Run GeneratedFile := do
  let config ← (Config.loadOrBuiltIn t q.config).within (.loadConfig q.config)
  let budget := q.budget.getD config.maxBlocks
  Run.note (.aggregating config.enabledSources budget)
  let (aggregation, content) ← config.build budget
  summary aggregation.stats
  return ⟨q.outputFile.getD config.outputFile, content⟩

/-- Puts a file in its place. -/
def deliver (t : FileTree) (file : GeneratedFile) : FileTree × Run Unit :=
  let (t, written) := t.replaceFile file.path file.content
  (t, do
    Run.ofFailure written
    Run.note (.wrote file.path))

/-- Builds the file, and writes it or prints its content. -/
def generate (q : GenerateRequest) (t : FileTree) : FileTree × Run Unit :=
  let planned := q.plan t
  match planned.outcome with
  | .error _ => (t, planned.bind fun _ => Run.ok ())
  | .ok file =>
    if q.dryRun then (t, planned.bind fun file => Run.print file.content)
    else
      let (t, delivered) := deliver t file
      (t, planned.bind fun _ => delivered)

end GenerateRequest

end CidrCover
