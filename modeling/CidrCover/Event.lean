import CidrCover.Number.Binary64
import CidrCover.Prefix.Dotted
import CidrCover.Reduction.Machine
import CidrCover.Text.Basic
import CidrCover.Text.Quoting

/-!
# Events

What happens in a run that is worth a line in a log. Each event has a level, and a log is kept at
a level: it shows the events of that level and of the graver ones. `Event.line` is the line of an
event, its level in a column of five characters, and `Event.log` is a log as it is shown.
-/

namespace CidrCover

/-- How grave an event is, from the gravest. -/
inductive Level where
  | error
  | warning
  | info
  | debug
  | trace
  deriving DecidableEq, Repr

namespace Level

/-- The number of graver levels. -/
def rank : Level → Nat
  | .error => 0
  | .warning => 1
  | .info => 2
  | .debug => 3
  | .trace => 4

/-- The name of a level, in five columns. -/
def column : Level → String
  | .error => "ERROR"
  | .warning => " WARN"
  | .info => " INFO"
  | .debug => "DEBUG"
  | .trace => "TRACE"

/-- A log at the first level shows events of the second. -/
def shows (log event : Level) : Bool :=
  event.rank ≤ log.rank

end Level

/-- Something that happens in a run. -/
inductive Event where
  /-- A marked prefix gave way to a shorter one that holds it. -/
  | superseded (nested cover : Prefix)
  /-- A prefix was there already. -/
  | duplicate (p : Prefix)
  /-- A prefix lies in one that is there already. -/
  | covered (p cover : Prefix)
  /-- A leaf went into its parent. -/
  | folded (fold : Fold)
  /-- All prefixes are in the trie. -/
  | built (nodes leaves : Nat)
  /-- A reduction has ended. -/
  | aggregated (inputs distinct blocks folds : Nat)
  /-- An entry is passed over. -/
  | skipped (entry : String)
  /-- So many entries were passed over. -/
  | skippedTotal (count : Nat)
  /-- There is no configuration at a path. -/
  | noConfig (path : String)
  /-- A configuration is about to be aggregated. -/
  | aggregating (sources : List String) (budget : Nat)
  /-- There was nothing to aggregate. -/
  | nothingConfigured
  /-- How many ranges became how many blocks. -/
  | ranges (inputs blocks folds : Nat)
  /-- How many addresses are covered. -/
  | addresses (inputs blocks : Nat) (percent : Binary64)
  /-- A file is in its place. -/
  | wrote (path : String)
  /-- The built-in configuration is in its place. -/
  | wroteConfig (path : String)
  /-- A list of entries was aggregated. -/
  | listed (inputs blocks extra : Nat)

namespace Event

/-- The level of an event. -/
def level : Event → Level
  | superseded .. | duplicate .. | covered .. | folded .. => .trace
  | built .. | aggregated .. | skipped .. | noConfig .. => .debug
  | skippedTotal .. | aggregating .. | ranges .. | addresses .. | wrote .. | wroteConfig ..
  | listed .. => .info
  | nothingConfigured => .warning

/-- A prefix with its bits. -/
def withBits (p : Prefix) : String :=
  p.text ++ " [" ++ p.bitString ++ "]"

/-- The wording of an event. -/
def message : Event → String
  | superseded nested cover => nested.text ++ " superseded by " ++ cover.text
  | duplicate p => "Duplicate prefix " ++ p.text
  | covered p cover => p.text ++ " already covered by " ++ cover.text
  | folded f =>
    "Collapsed " ++ withBits f.leaf ++ " into " ++ withBits f.into
      ++ " (" ++ toString f.left ++ " leaves left)"
  | built nodes leaves =>
    "Built trie with " ++ toString nodes ++ " nodes for " ++ toString leaves ++ " leaves"
  | aggregated inputs distinct blocks folds =>
    "Aggregated " ++ toString inputs ++ " prefixes (" ++ toString distinct ++ " distinct) into "
      ++ toString blocks ++ " blocks after " ++ toString folds ++ " collapses"
  | skipped entry => "Skipping non-IPv4 CIDR entry: " ++ entry
  | skippedTotal count => "Skipped " ++ toString count ++ " entries that are not IPv4 CIDRs"
  | noConfig path => "No config at " ++ Text.quoted path ++ ", using built-in defaults"
  | aggregating sources budget =>
    "Aggregating sources [" ++ ", ".intercalate sources ++ "] into at most " ++ toString budget
      ++ " blocks..."
  | nothingConfigured => "No IPv4 ranges configured, generated list is empty"
  | ranges inputs blocks folds =>
    toString inputs ++ " ranges -> " ++ toString blocks ++ " blocks (" ++ toString folds
      ++ " collapses)"
  | addresses inputs blocks percent =>
    "Covered addresses: " ++ Text.groupedText inputs ++ " -> " ++ Text.groupedText blocks
      ++ " (+" ++ String.ofList percent.twoPlaces ++ "%)"
  | wrote path => "Wrote " ++ Text.quoted path
  | wroteConfig path => "Wrote default configuration to " ++ Text.quoted path
  | listed inputs blocks extra =>
    toString inputs ++ " -> " ++ toString blocks ++ " blocks, " ++ Text.groupedText extra
      ++ " extra addresses"

/-- The line of an event in a log. -/
def line (e : Event) : String :=
  e.level.column ++ " " ++ Text.disarmed e.message

/-- The log at a level. -/
def log (kept : Level) (es : List Event) : String :=
  Text.closeLines ((es.filter fun e => kept.shows e.level).map line)

/-- The lines of a log at a level; a message with line ends in it takes several. -/
def logLines (kept : Level) (es : List Event) : List String :=
  Text.lines (log kept es)

end Event

end CidrCover
