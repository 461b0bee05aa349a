import CidrCover.Aggregation.Listing
import CidrCover.Text.Basic

/-!
# Options of the command line

Which options there are at the top level and for each command, by which names they go, and which
values they take. Three of them are understood everywhere: the path of the configuration and the two
that choose how much is logged.
-/

namespace CidrCover.CommandLine

/-- A command. -/
inductive Verb where
  | generate
  | aggregate
  | initConfig
  | version
  deriving DecidableEq, Repr

namespace Verb

/-- The name of a command. -/
def name : Verb → String
  | generate => "generate"
  | aggregate => "aggregate"
  | initConfig => "init-config"
  | version => "version"

/-- The command of a name. -/
def ofName? (s : String) : Option Verb :=
  [generate, aggregate, initConfig, version].find? (·.name == s)

end Verb

/-- Why a command line asks for nothing that can be done. -/
inductive UsageError where
  /-- The help is asked for. -/
  | helpRequested
  /-- The version is asked for, of the program or of a command. -/
  | versionRequested (verb : Option Verb)
  /-- There are no arguments. -/
  | noArguments
  /-- There is no command. -/
  | noCommand
  /-- There is no such command. -/
  | unknownCommand
  /-- There is no such option, or an argument too many. -/
  | unknownArgument
  /-- A value is missing or none of those allowed. -/
  | invalidValue
  /-- A value cannot be read. -/
  | unreadableValue
  /-- An option is given twice. -/
  | repeatedOption
  /-- A value is given to an option that takes none. -/
  | unexpectedValue
  deriving DecidableEq, Repr

/-- What an option sets. -/
inductive Setting where
  | config
  | quiet
  | verbose
  | budget
  | outputFile
  | dryRun
  | format
  | force
  deriving DecidableEq, Repr

/-- The values that an option may take. -/
inductive ValueKind where
  | number
  | path
  | format
  deriving DecidableEq, Repr

/-- A value of an option. -/
inductive Value where
  | number (n : Nat)
  | path (s : String)
  | format (f : OutputFormat)
  deriving DecidableEq, Repr

/-- The greatest number that an option takes. -/
def maxNumber : Nat := Nat.pow 2 64 - 1

/-- Reads a number: digits with or without a plus sign before them. -/
def readNumber (cs : List Char) : Except UsageError Nat :=
  let digits := match cs with
    | '+' :: rest => rest
    | _ => cs
  if Text.isNumeral digits && Text.value digits ≤ maxNumber then .ok (Text.value digits)
  else .error .unreadableValue

/-- Reads a value. -/
def ValueKind.read (s : String) : ValueKind → Except UsageError Value
  | number => (readNumber s.toList).map .number
  | path => if s.isEmpty then .error .invalidValue else .ok (.path s)
  | format =>
    match OutputFormat.ofName? s with
    | none => .error .invalidValue
    | some f => .ok (.format f)

/-- What an option does. -/
inductive Effect where
  /-- It turns a setting on. -/
  | switch (s : Setting)
  /-- It gives a setting the value that follows. -/
  | assign (s : Setting) (kind : ValueKind)
  /-- It asks for the help. -/
  | help
  /-- It asks for the version. -/
  | version
  deriving DecidableEq, Repr

/-- An option with its names. -/
structure Flag where
  longNames : List String
  shortName : Option Char
  effect : Effect

/-- What may stand on the command line, at the top level or after a command. -/
structure Grammar where
  flags : List Flag
  /-- The command after which the arguments stand. -/
  verb : Option Verb
  deriving Inhabited

namespace Grammar

/-- The options that are understood everywhere. -/
def commonFlags : List Flag :=
  [⟨["config"], 'c', .assign .config .path⟩,
   ⟨["quiet"], 'q', .switch .quiet⟩,
   ⟨["verbose"], 'v', .switch .verbose⟩,
   ⟨["help"], 'h', .help⟩,
   ⟨["version"], 'V', .version⟩]

/-- The options of a command of its own. -/
def ownFlags : Verb → List Flag
  | .generate =>
    [⟨["max-blocks", "rules-per-sg"], none, .assign .budget .number⟩,
     ⟨["output-file"], none, .assign .outputFile .path⟩,
     ⟨["dry-run"], none, .switch .dryRun⟩]
  | .aggregate =>
    [⟨["max-blocks"], 'n', .assign .budget .number⟩,
     ⟨["format"], 'f', .assign .format .format⟩]
  | .initConfig => [⟨["force"], none, .switch .force⟩]
  | .version => []

/-- The top level. -/
def top : Grammar := ⟨commonFlags, none⟩

/-- The arguments of a command. -/
def ofVerb (v : Verb) : Grammar := ⟨ownFlags v ++ commonFlags, some v⟩

/-- The option of a long name. -/
def long? (g : Grammar) (name : String) : Option Effect :=
  (g.flags.find? (·.longNames.contains name)).map Flag.effect

/-- The option of a letter. -/
def short? (g : Grammar) (c : Char) : Option Effect :=
  (g.flags.find? (·.shortName == some c)).map Flag.effect

/-- Commands are understood here. -/
def hasVerbs (g : Grammar) : Bool :=
  g.verb.isNone

/-- Entries are understood here. -/
def hasEntries (g : Grammar) : Bool :=
  g.verb == some .aggregate

end Grammar

end CidrCover.CommandLine
