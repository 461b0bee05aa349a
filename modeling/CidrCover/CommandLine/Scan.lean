import CidrCover.CommandLine.Options

/-!
# Scanning arguments

`scan` goes through the arguments from the left. An option that takes a value may have it attached,
after an equals sign or as the rest of a cluster of letters; otherwise it waits for the next
argument, and is settled as late as possible: when another option or an entry turns up, or at the
end, which at the top level is after the arguments of the command. So an unknown argument is reported
before a bad value that stands just before it. After two hyphens all arguments are entries.
-/

namespace CidrCover.CommandLine

/-- What has been found on a command line. -/
structure Matches where
  switched : List Setting
  values : List (Setting × Value)
  entries : List String

namespace Matches

/-- Nothing. -/
def empty : Matches := ⟨[], [], []⟩

/-- A setting is turned on. -/
def isOn (m : Matches) (s : Setting) : Bool :=
  m.switched.contains s

/-- The value of a setting. -/
def value? (m : Matches) (s : Setting) : Option Value :=
  m.values.lookup s

/-- Something has been found. -/
def isGiven (m : Matches) : Bool :=
  !(m.switched.isEmpty && m.values.isEmpty && m.entries.isEmpty)

/-- Turns a setting on, which may be done once. -/
def turnOn (m : Matches) (s : Setting) : Except UsageError Matches :=
  if m.isOn s then .error .repeatedOption else .ok { m with switched := s :: m.switched }

/-- Gives a setting a value, which may be done once. -/
def assign (m : Matches) (s : Setting) (kind : ValueKind) (text : String) :
    Except UsageError Matches := do
  if (m.value? s).isSome then throw .repeatedOption
  let v ← kind.read text
  return { m with values := (s, v) :: m.values }

end Matches

/-- An option that is not settled yet. -/
inductive Pending where
  | nothing
  /-- The option waits for its value. -/
  | awaiting (s : Setting) (kind : ValueKind)
  /-- The option has its value. -/
  | given (s : Setting) (kind : ValueKind) (text : String)

/-- The state between two arguments. -/
structure Scan where
  found : Matches
  pending : Pending

namespace Scan

/-- The state before the first argument. -/
def start : Scan := ⟨.empty, .nothing⟩

/-- Settles the option that is pending. -/
def settle (s : Scan) : Except UsageError Matches :=
  match s.pending with
  | .nothing => .ok s.found
  | .awaiting .. => .error .invalidValue
  | .given setting kind text => s.found.assign setting kind text

/-- The pending option waits for a value. -/
def isAwaiting (s : Scan) : Bool :=
  match s.pending with
  | .awaiting .. => true
  | _ => false

/-- Turns on what an option without a value stands for. -/
def switch (g : Grammar) (s : Scan) (e : Effect) : Except UsageError Scan := do
  let found ← s.settle
  match e with
  | .switch setting => return ⟨← found.turnOn setting, .nothing⟩
  | .assign setting kind => return ⟨found, .awaiting setting kind⟩
  | .help => throw .helpRequested
  | .version => throw (.versionRequested g.verb)

/-- Gives an option the value that is attached to it. -/
def attach (s : Scan) (setting : Setting) (kind : ValueKind) (text : String) :
    Except UsageError Scan := do
  let found ← s.settle
  return ⟨← found.assign setting kind text, .nothing⟩

/-- Takes a long option, with or without a value attached. -/
def long (g : Grammar) (s : Scan) (name : String) (value : Option String) :
    Except UsageError Scan :=
  match g.long? name, value with
  | none, _ => .error .unknownArgument
  | some (.assign setting kind), some text => s.attach setting kind text
  | some _, some _ => .error .unexpectedValue
  | some e, none => s.switch g e

/-- Takes a cluster of letters, the last of which may have its value attached. -/
def cluster (g : Grammar) (s : Scan) : List Char → Except UsageError Scan
  | [] => .ok s
  | c :: rest =>
    match g.short? c with
    | none => .error .unknownArgument
    | some (.assign setting kind) =>
      match rest with
      | [] => s.switch g (.assign setting kind)
      | '=' :: text => s.attach setting kind (String.ofList text)
      | text => s.attach setting kind (String.ofList text)
    | some e => do cluster g (← s.switch g e) rest

/-- Takes an argument that is no option. -/
def plain (g : Grammar) (s : Scan) (trailing : Bool) (text : String) : Except UsageError Scan :=
  if g.hasEntries then do
    let found ← s.settle
    return ⟨{ found with entries := found.entries ++ [text] }, .nothing⟩
  else if g.hasVerbs && !(trailing && (text == "help" || (Verb.ofName? text).isSome)) then
    .error .unknownCommand
  else .error .unknownArgument

/-- Takes an argument before any double hyphen. -/
def argument (g : Grammar) (s : Scan) (text : String) : Except UsageError Scan :=
  match text.toList with
  | '-' :: '-' :: option =>
    match option.span (· != '=') with
    | (name, []) => s.long g (String.ofList name) none
    | (name, _ :: value) => s.long g (String.ofList name) (some (String.ofList value))
  | '-' :: c :: rest => s.cluster g (c :: rest)
  | _ =>
    match s.pending with
    | .awaiting setting kind => .ok ⟨s.found, .given setting kind text⟩
    | _ => s.plain g false text

end Scan

/-- Where a scan ends. -/
inductive ScanEnd where
  /-- At the end of the arguments. -/
  | finished (found : Matches)
  /-- At a command, before its arguments; an option may still be pending. -/
  | reached (verb : Verb) (state : Scan) (rest : List String)

/-- The help on a command, which the arguments name: nothing, a command, or the help itself. -/
def helpOn : List String → UsageError
  | [] => .helpRequested
  | [name] =>
    if name == "help" || (Verb.ofName? name).isSome then .helpRequested else .unknownCommand
  | _ => .unknownCommand

/-- Scans the arguments after a double hyphen. -/
def scanTrailing (g : Grammar) (s : Scan) : List String → Except UsageError Matches
  | [] => s.settle
  | text :: rest => do scanTrailing g (← s.plain g true text) rest

/-- Scans arguments up to their end or to a command. -/
def scan (g : Grammar) (s : Scan) : List String → Except UsageError ScanEnd
  | [] => s.settle.map .finished
  | text :: rest =>
    if g.hasVerbs && !s.isAwaiting && text == "help" then .error (helpOn rest)
    else
      match if g.hasVerbs && !s.isAwaiting then Verb.ofName? text else none with
      | some verb => .ok (.reached verb s rest)
      | none =>
        if text == "--" then (scanTrailing g s rest).map .finished
        else do scan g (← s.argument g text) rest

end CidrCover.CommandLine
