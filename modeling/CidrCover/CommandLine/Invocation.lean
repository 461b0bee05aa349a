import CidrCover.CommandLine.Scan

/-!
# Invocations

`Invocation.parse` reads a command line: options of the top level, a command, and its arguments.
An option that is understood everywhere counts where it stands last, and what is not given has its
default.

Arguments are texts. Left out are arguments of other bytes than UTF-8, and with them the paths that
can be given by such bytes alone; so is the environment, of which no option takes its value.
-/

namespace CidrCover.CommandLine

/-- A command with its arguments. -/
inductive Command where
  | generate (budget : Option Nat) (outputFile : Option String) (dryRun : Bool)
  | aggregate (entries : List String) (budget : Nat) (format : OutputFormat)
  | initConfig (force : Bool)
  | version
  deriving DecidableEq, Repr

/-- A command, where its configuration is, and how much is logged. -/
structure Invocation where
  command : Command
  config : String
  quiet : Bool
  verbose : Bool
  deriving DecidableEq, Repr

/-- The path of the configuration, unless another one is given. -/
def defaultConfig : String := "cidrcap.yaml"

/-- The budget for a list, unless another one is given. -/
def defaultBudget : Nat := 60

namespace Matches

/-- The number that a setting has. -/
def number? (m : Matches) (s : Setting) : Option Nat :=
  match m.value? s with
  | some (.number n) => some n
  | _ => none

/-- The path that a setting has. -/
def path? (m : Matches) (s : Setting) : Option String :=
  match m.value? s with
  | some (.path p) => some p
  | _ => none

/-- The format that a setting has. -/
def format? (m : Matches) (s : Setting) : Option OutputFormat :=
  match m.value? s with
  | some (.format f) => some f
  | _ => none

/-- The command with the arguments that were found. -/
def command (m : Matches) : Verb → Command
  | .generate => .generate (m.number? .budget) (m.path? .outputFile) (m.isOn .dryRun)
  | .aggregate =>
    .aggregate m.entries ((m.number? .budget).getD defaultBudget) ((m.format? .format).getD .text)
  | .initConfig => .initConfig (m.isOn .force)
  | .version => .version

end Matches

namespace Invocation

/-- The invocation of a command, from what was found before it and after it. -/
def ofMatches (verb : Verb) (outer inner : Matches) : Invocation where
  command := inner.command verb
  config := ((inner.path? .config).orElse fun _ => outer.path? .config).getD defaultConfig
  quiet := outer.isOn .quiet || inner.isOn .quiet
  verbose := outer.isOn .verbose || inner.isOn .verbose

/-- Reads a command line without the name of the program. -/
def parse (arguments : List String) : Except UsageError Invocation := do
  match ← scan .top .start arguments with
  | .finished found => throw (if found.isGiven then .noCommand else .noArguments)
  | .reached verb outer rest =>
    match ← scan (.ofVerb verb) .start rest with
    | .finished inner => return ofMatches verb (← outer.settle) inner
    | .reached .. => throw .unknownArgument

end Invocation

end CidrCover.CommandLine
