import CidrCover.Prefix.Dotted
import CidrCover.Text.Quoting
import CidrCover.Yaml.Fault

/-!
# Faults and failures

A `Fault` is what went wrong, the refusals of a file system with their names and numbers among them.
A `Failure` is a fault together with what was being done, outermost first. `Failure.messages` is the
chain of messages that tells the whole story.
-/

namespace CidrCover

/-- Why a file system refuses an operation. -/
inductive SystemFault where
  /-- A name leads nowhere. -/
  | notFound
  /-- The place is in use. -/
  | busy
  /-- Something of that name is there already. -/
  | alreadyThere
  /-- A regular file stands where a directory is needed. -/
  | notDirectory
  /-- A directory stands where a regular file is needed. -/
  | isDirectory
  /-- A name is longer than 255 bytes. -/
  | nameTooLong
  /-- A name holds a NUL character. -/
  | nulInName
  deriving DecidableEq, Repr

/-- The wording of a refusal. -/
def SystemFault.message : SystemFault → String
  | .notFound => "No such file or directory (os error 2)"
  | .busy => "Device or resource busy (os error 16)"
  | .alreadyThere => "File exists (os error 17)"
  | .notDirectory => "Not a directory (os error 20)"
  | .isDirectory => "Is a directory (os error 21)"
  | .nameTooLong => "File name too long (os error 36)"
  | .nulInName => "file name contained an unexpected NUL byte"

/-- What went wrong. -/
inductive Fault where
  /-- An entry denotes no prefix. -/
  | malformed (entry : String) (flaw : Malformation)
  /-- The budget is zero. -/
  | zeroTarget
  /-- The variable is no identifier. -/
  | variableName (name : String)
  /-- The name of the generator goes over several lines. -/
  | multilineGenerator
  /-- The name of a source is blank. -/
  | blankSourceName
  /-- Two sources have one name. -/
  | duplicateSourceName (name : String)
  /-- The blocks do not cover the input. -/
  | uncovered
  /-- There is a configuration already. -/
  | configExists (path : String)
  /-- A document cannot be read. -/
  | yaml (cause : Yaml.Fault)
  /-- Bytes are no UTF-8 text. -/
  | notUtf8
  /-- The file system refuses. -/
  | system (cause : SystemFault)
  /-- The file system refuses to put a file in its place. -/
  | replacement (cause : SystemFault)
  deriving DecidableEq, Repr

namespace Fault

/-- The messages of a fault, outermost first. -/
def messages : Fault → List String
  | .malformed entry flaw => ["Malformed CIDR: " ++ entry ++ ": " ++ flaw.message]
  | .zeroTarget => ["Invalid target block count 0: must be at least 1"]
  | .variableName name =>
    ["Configuration error: Invalid variable name '" ++ name
      ++ "'. Use letters, digits, '_' or '-', not starting with a digit"]
  | .multilineGenerator => ["Render error: generator name must be a single line"]
  | .blankSourceName => ["Source names cannot be empty"]
  | .duplicateSourceName name => ["Duplicate source name '" ++ name ++ "'"]
  | .uncovered => ["Aggregated blocks do not cover the input ranges"]
  | .configExists path =>
    ["Config file " ++ Text.quoted path ++ " already exists (use --force to overwrite)"]
  | .yaml cause => [cause.message]
  | .notUtf8 => ["stream did not contain valid UTF-8"]
  | .system cause => [cause.message]
  | .replacement cause =>
    ["failed to persist temporary file: " ++ cause.message, cause.message]

end Fault

/-- What was being done when something went wrong. -/
inductive Context where
  | parseYaml
  | readConfig (path : String)
  | loadConfigFile (path : String)
  | loadConfig (path : String)
  | readInput
  | createDirectory (path : String)
  | createTemporary (directory : String)
  | replaceFile (path : String)
  deriving DecidableEq, Repr

/-- The wording of what was being done. -/
def Context.message : Context → String
  | .parseYaml => "Failed to parse configuration YAML"
  | .readConfig path => "Failed to read config file: " ++ Text.quoted path
  | .loadConfigFile path => "Failed to load config file: " ++ Text.quoted path
  | .loadConfig path => "Failed to load config from " ++ Text.quoted path
  | .readInput => "Failed to read input"
  | .createDirectory path => "Failed to create directory: " ++ Text.quoted path
  | .createTemporary directory =>
    "Failed to create temporary file in " ++ Text.quoted directory
  | .replaceFile path => "Failed to persist file: " ++ Text.quoted path

/-- A fault and what was being done, outermost first. -/
structure Failure where
  contexts : List Context
  fault : Fault
  deriving DecidableEq, Repr

namespace Failure

instance : Coe Fault Failure := ⟨fun f => ⟨[], f⟩⟩

/-- The failure as seen from outside of a further activity. -/
def within (c : Context) (f : Failure) : Failure :=
  { f with contexts := c :: f.contexts }

/-- The messages of what was being done. -/
def contextMessages (f : Failure) : List String :=
  f.contexts.map Context.message

/-- All messages, outermost first. -/
def messages (f : Failure) : List String :=
  f.contextMessages ++ f.fault.messages

end Failure

end CidrCover
