import CidrCover.CommandLine.Outcome

/-!
# The program

`main` looks up what the files are that an invocation is about, runs it on a tree of these files
alone, and then writes back what has changed.
-/

namespace CidrCover.Program

/-- What stands at a path on disk. -/
def observe (path : String) : IO (Option Item) := do
  try
    return some (.file (← IO.FS.readBinFile path))
  catch
    | .inappropriateType .. => return some .directory
    | _ => return none

/-- Adds to a tree what stands at the names of a path, one after another. -/
def observeNames (t : FileTree) (spot : Place) : List String → IO FileTree
  | [] => return t
  | name :: rest => do
    let spot :=
      if name == "." then spot else if name == ".." then spot.dropLast else spot ++ [name]
    match ← observe ("/" ++ "/".intercalate spot) with
    | none => return t
    | some i => observeNames (if spot.isEmpty then t else t.put spot i) spot rest

/-- Adds to a tree what a path leads through. -/
def observePath (t : FileTree) (path : String) : IO FileTree :=
  let p := Path.ofString path
  observeNames t (if p.isAbsolute then [] else t.workingDirectory) p.names

/-- The tree with nothing but the working directory. -/
def bareTree : IO FileTree := do
  let names := ((← IO.currentDir).toString.splitOn "/").filter (!·.isEmpty)
  let spots := (List.range names.length).map fun n => names.take (n + 1)
  return ⟨spots.map fun spot => (spot, .directory), names⟩

/-- The tree of the files that an invocation is about. -/
def relevantTree (i : CommandLine.Invocation) : IO FileTree := do
  let t ← observePath (← bareTree) i.config
  match i.command with
  | .generate _ outputFile _ =>
    match outputFile, (Config.loadOrBuiltIn t i.config).outcome with
    | some path, _ => observePath t path
    | none, .ok c => observePath t c.outputFile
    | none, .error _ => return t
  | _ => return t

/-- Writes the files of a tree that are not the same in another one. -/
def writeBack (before after : FileTree) : IO Unit := do
  for (spot, bytes) in after.files do
    if before.contents? spot != some bytes then
      let target := "/" ++ "/".intercalate spot
      let scratch := target ++ ".tmp"
      IO.FS.createDirAll ("/" ++ "/".intercalate spot.dropLast)
      IO.FS.writeBinFile scratch bytes
      IO.FS.rename scratch target

/-- Reads a stream to its end. -/
partial def readAll (stream : IO.FS.Stream) (bytes : ByteArray) : IO ByteArray := do
  let more ← stream.read 65536
  if more.isEmpty then return bytes else readAll stream (bytes ++ more)

/-- Reads the input if an invocation asks for it. -/
def readInput (i : CommandLine.Invocation) : IO ByteArray := do
  match i.command with
  | .aggregate [] _ _ => readAll (← IO.getStdin) ByteArray.empty
  | _ => return ByteArray.empty

/-- Runs the program. -/
def run (arguments : List String) : IO UInt32 := do
  let (before, input) ←
    match CommandLine.Invocation.parse arguments with
    | .error _ => pure (FileTree.empty, ByteArray.empty)
    | .ok i => do pure (← relevantTree i, ← readInput i)
  let outcome := CommandLine.execute arguments input before
  writeBack before outcome.tree
  IO.eprint outcome.log
  IO.print outcome.output
  return UInt32.ofNat outcome.status

end CidrCover.Program

/-- Runs the program on the arguments after its name. -/
def main (arguments : List String) : IO UInt32 :=
  CidrCover.Program.run arguments
