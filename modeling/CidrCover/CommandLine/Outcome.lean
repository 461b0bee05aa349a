import CidrCover.Aggregation.Build
import CidrCover.Aggregation.Listing
import CidrCover.CommandLine.Invocation

/-!
# Outcomes of the program

`Invocation.execute` is what the program does: from its arguments, its input and the files to its
exit status, its output, its log and the files afterwards. A failure is reported after the log, with
its causes below it. The output is what the run has printed, whether or not it failed after that;
that output and log may be closed on the other side is left out.
-/

namespace CidrCover

/-- The further lines of a text, indented. -/
def hangLines (indent : Nat) (s : String) : String :=
  String.ofList (s.toList.flatMap fun c =>
    if c = '\n' then '\n' :: List.replicate indent ' ' else [c])

/-- The causes of a failure, one below the other; several ones are numbered. -/
def causeLines : List String → List String
  | [] => []
  | [cause] => ["    " ++ hangLines 4 cause]
  | causes =>
    causes.mapIdx fun i cause =>
      let number := Text.numeral i
      String.ofList (List.replicate (5 - number.length) ' ' ++ number) ++ ": " ++ hangLines 7 cause

/-- The report of a failure. -/
def Failure.report (f : Failure) : String :=
  match f.messages with
  | [] => ""
  | message :: causes =>
    Text.closeLines (("Error: " ++ message)
      :: (if causes.isEmpty then [] else "" :: "Caused by:" :: causeLines causes))

namespace CommandLine

/-- The name of the program. -/
def programName : String := "cidrcap"

/-- The version of the program. -/
def programVersion : String := "0.1.0"

/-- The name of the program or of a command of it, with the version. -/
def versionLine (verb : Option Verb) : String :=
  let suffix := match verb with
    | none => ""
    | some v => "-" ++ v.name
  programName ++ suffix ++ " " ++ programVersion

/-- How the program is used. -/
def usage : String :=
  "Usage: cidrcap [OPTIONS] <COMMAND>\n\nCommands:\n"
    ++ "  generate     Aggregate the configured sources and write the Terraform file\n"
    ++ "  aggregate    Aggregate CIDRs given as arguments (or one per line on stdin)\n"
    ++ "  init-config  Write a default configuration file\n"
    ++ "  version      Show version\n"
    ++ "  help         Print this message\n\nOptions:\n"
    ++ "  -c, --config <CONFIG>  Config file path [default: cidrcap.yaml]\n"
    ++ "  -q, --quiet            Quiet mode (errors only)\n"
    ++ "  -v, --verbose          Verbose mode (debug output)\n"
    ++ "  -h, --help             Print help\n"
    ++ "  -V, --version          Print version"

/-- The wording of a usage error. -/
def UsageError.message : UsageError → String
  | helpRequested => usage
  | versionRequested verb => versionLine verb
  | noArguments => usage
  | noCommand => "error: a subcommand is required"
  | unknownCommand => "error: unrecognized subcommand"
  | unknownArgument => "error: unexpected argument"
  | invalidValue => "error: a value is missing or not allowed"
  | unreadableValue => "error: a value cannot be read"
  | repeatedOption => "error: an argument cannot be used multiple times"
  | unexpectedValue => "error: an option takes no value"

/-- The exit status of a usage error: zero if the program was asked about itself. -/
def UsageError.status : UsageError → Nat
  | helpRequested | versionRequested _ => 0
  | _ => 2

/-- What the program leaves behind. -/
structure Outcome where
  status : Nat
  output : String
  log : String
  tree : FileTree

/-- The level at which an invocation is logged. -/
def Invocation.logLevel (i : Invocation) : Level :=
  if i.verbose then .debug else if i.quiet then .error else .info

/-- Does what an invocation asks for. -/
def Invocation.perform (i : Invocation) (input : ByteArray) (t : FileTree) :
    FileTree × Run Unit :=
  match i.command with
  | .generate budget outputFile dryRun =>
    GenerateRequest.generate ⟨i.config, budget, outputFile, dryRun⟩ t
  | .aggregate entries budget format =>
    (t, AggregateRequest.aggregate ⟨entries, budget, format⟩ input)
  | .initConfig force => Config.install t i.config force
  | .version => (t, Run.print (versionLine none ++ "\n"))

/-- The outcome of a run at a level of logging. -/
def Outcome.ofRun (log : Level) (t : FileTree) (run : Run Unit) : Outcome :=
  let log := Event.log log run.events
  match run.outcome with
  | .ok () => ⟨0, run.output, log, t⟩
  | .error f => ⟨1, run.output, log ++ f.report, t⟩

/-- The outcome of a command line that asks for nothing that can be done. -/
def Outcome.ofUsageError (t : FileTree) (e : UsageError) : Outcome :=
  let text := e.message ++ "\n"
  if e.status = 0 then ⟨0, text, "", t⟩ else ⟨e.status, "", text, t⟩

/-- Runs the program with the arguments after its name. -/
def execute (arguments : List String) (input : ByteArray) (t : FileTree) : Outcome :=
  match Invocation.parse arguments with
  | .error e => Outcome.ofUsageError t e
  | .ok i =>
    let (t, run) := i.perform input t
    Outcome.ofRun i.logLevel t run

end CommandLine

end CidrCover
