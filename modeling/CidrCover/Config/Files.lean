import CidrCover.Config.Reading
import CidrCover.FileTree.Atomic
import CidrCover.Run
import CidrCover.Yaml.Written

/-!
# Configuration files

`Config.document` is the text of a configuration file: a header of comments that explains the
fields, and then a YAML document with one line for a field and one for an entry, as far as the
texts allow it.

Where there is no file the built-in configuration applies, and `install` writes that one out, over
what may be there already only if it is told to.
-/

namespace CidrCover

/-! ### Documents -/

open Text (numeral)

/-- The comments at the head of a configuration file. -/
def configHeader : String :=
  "# cidrcap configuration\n#\n"
    ++ "# max_blocks:  rule budget of the security group; the generated list never\n"
    ++ "#              holds more blocks than this (minimum 1)\n"
    ++ "# output_file: generated Terraform file\n"
    ++ "# variable:    name of the generated local value\n"
    ++ "# sources:     named CIDR groups; entries that are not IPv4 CIDRs are skipped\n"

/-- The entries of a sequence whose hyphens are indented by `indent` spaces, below their key. -/
def writeEntries {α : Type} (indent : Nat) (write : α → List Char) (items : List α) :
    List Char :=
  if items.isEmpty then " []\n".toList
  else '\n' :: items.flatMap fun item => Yaml.spaces indent ++ '-' :: write item

namespace Source

/-- A source after its hyphen. -/
def chars (s : Source) : List Char :=
  " name:".toList ++ Yaml.write 4 s.name.toList
    ++ "  enabled: ".toList ++ (if s.enabled then "true\n" else "false\n").toList
    ++ "  cidrs:".toList ++ writeEntries 2 (Yaml.write 4) (s.cidrs.map String.toList)

end Source

namespace Config

/-- The YAML document of a configuration. -/
def chars (c : Config) : List Char :=
  "max_blocks: ".toList ++ numeral c.maxBlocks
    ++ "\noutput_file:".toList ++ Yaml.write 2 c.outputFile.toList
    ++ "variable:".toList ++ Yaml.write 2 c.variableName.toList
    ++ "sources:".toList ++ writeEntries 0 Source.chars c.sources

/-- The text of a configuration file. -/
def document (c : Config) : String :=
  configHeader ++ String.ofList c.chars

end Config

/-! ### Files -/

namespace Config

/-- The configuration of a file. -/
def load (t : FileTree) (path : String) : Except Failure Config :=
  match t.readText path with
  | .error f => .error ⟨[.readConfig path], f⟩
  | .ok text => (Config.parse text).mapError (·.within (.loadConfigFile path))

/-- The configuration of a file, or the built-in one if the path leads nowhere. -/
def loadOrBuiltIn (t : FileTree) (path : String) : Run Config :=
  if t.exists? (Path.ofString path) then Run.ofFailure (load t path)
  else do
    Run.note (.noConfig path)
    return builtIn

/-- Writes a configuration to a file. -/
def save (c : Config) (t : FileTree) (path : String) : FileTree × Except Failure Unit :=
  t.replaceFile path c.document

/-- Writes the built-in configuration to a file, over another one only if `force` is set. -/
def install (t : FileTree) (path : String) (force : Bool) : FileTree × Run Unit :=
  if t.exists? (Path.ofString path) && !force then (t, Run.fail (Fault.configExists path))
  else
    let (t, written) := builtIn.save t path
    (t, do
      Run.ofFailure written
      Run.note (.wroteConfig path))

end Config

end CidrCover
