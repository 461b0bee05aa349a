import CidrCover.Yaml.Token
import CidrCover.Yaml.Token.Block
import CidrCover.Yaml.Token.Quoted
import CidrCover.Yaml.Token.Tag

/-!
# From glyphs to tokens

`tokens?` reads a text into its tokens. A `Scan` is the state between two tokens. Indentation is a
stack of margins: a margin is one more than the column of a block collection, so 0 stands for the
outside of all of them.

A key on one line need not be announced, so whatever can begin a key is noted as a `KeyMark`; when
a colon follows, the key token, and the beginning of a mapping if there is none at its column, go in
before what was noted. A mark is good for one line and 1024 bytes. A mark at the column of the
surrounding block mapping has to become a key.
-/

namespace CidrCover.Yaml

/-- A place where a key may have begun. -/
structure KeyMark where
  /-- It has to turn out to be a key. -/
  required : Bool
  /-- The number of tokens before it. -/
  before : Nat
  line : Nat
  column : Nat
  index : Nat

/-- The state between two tokens. -/
structure Scan where
  /-- The margins of the open block collections, the innermost first. -/
  margins : List Nat
  /-- A key may begin here. -/
  keyAllowed : Bool
  /-- The mark of the surrounding block level or open bracket. -/
  mark : Option KeyMark
  /-- The marks outside of the open brackets, the innermost first. -/
  outerMarks : List (Option KeyMark)
  /-- The tokens so far, in reverse. -/
  tokens : List Token
  /-- Their number. -/
  count : Nat

namespace Scan

/-- The state at the beginning. -/
def start : Scan := ⟨[], true, none, [], [], 0⟩

/-- The place is within brackets. -/
def inFlow (s : Scan) : Bool :=
  !s.outerMarks.isEmpty

/-- The innermost margin. -/
def margin (s : Scan) : Nat :=
  s.margins.headD 0

/-- Adds a token. -/
def emit (s : Scan) (t : Token) : Scan :=
  { s with tokens := t :: s.tokens, count := s.count + 1 }

/-- Puts tokens, given in reverse, before all but the first `n`. -/
def insertAt (s : Scan) (n : Nat) (ts : List Token) : Scan :=
  { s with
    tokens := s.tokens.take (s.count - n) ++ ts ++ s.tokens.drop (s.count - n)
    count := s.count + ts.length }

/-! ### Key marks -/

/-- Drops a mark that is out of reach. -/
def expire (g : Glyph) : Option KeyMark → Except Fault (Option KeyMark)
  | none => .ok none
  | some k =>
    if k.line < g.line || k.index + 1024 < g.index then
      if k.required then .error .keyWithoutColon else .ok none
    else .ok (some k)

/-- Drops the marks that are out of reach. -/
def expireMarks (s : Scan) (g : Glyph) : Except Fault Scan := do
  let mark ← expire g s.mark
  let outerMarks ← s.outerMarks.mapM (expire g)
  .ok { s with mark, outerMarks }

/-- Drops the mark of this level. -/
def dropMark (s : Scan) : Except Fault Scan :=
  match s.mark with
  | some ⟨true, _, _, _, _⟩ => .error .keyWithoutColon
  | _ => .ok { s with mark := none }

/-- Notes that a key may begin here. -/
def saveMark (s : Scan) (g : Glyph) : Except Fault Scan :=
  if s.keyAllowed then do
    let s ← s.dropMark
    let required := !s.inFlow && s.margin == g.column + 1
    .ok { s with mark := some ⟨required, s.count, g.line, g.column, g.index⟩ }
  else .ok s

/-! ### Indentation -/

/-- Ends the block collections that are indented farther than `margin`. -/
def unroll (s : Scan) (margin : Nat) : Scan :=
  if s.inFlow then s
  else
    let ended := s.margins.takeWhile (margin < ·)
    { s with
      margins := s.margins.dropWhile (margin < ·)
      tokens := ended.map (fun _ => Token.blockEnd) ++ s.tokens
      count := s.count + ended.length }

/-- Begins a block collection at a column, unless there is one. -/
def roll (s : Scan) (column : Nat) (t : Token) : Scan :=
  if !s.inFlow && s.margin ≤ column then
    { s with margins := (column + 1) :: s.margins }.emit t
  else s

/-! ### Single tokens -/

/-- A mark of a document, three characters long. -/
def document (s : Scan) (t : Token) (gs : List Glyph) : Except Fault (Scan × List Glyph) := do
  let s ← (s.unroll 0).dropMark
  .ok ({ s with keyAllowed := false }.emit t, gs.drop 3)

/-- The directive that the glyphs begin with. -/
def directive (s : Scan) (gs : List Glyph) : Except Fault (Scan × List Glyph) := do
  let s ← (s.unroll 0).dropMark
  let (t, gs) ← scanDirective gs
  .ok ({ s with keyAllowed := false }.emit t, gs)

/-- An opening bracket. -/
def flowStart (s : Scan) (g : Glyph) (t : Token) (gs : List Glyph) :
    Except Fault (Scan × List Glyph) := do
  let s ← s.saveMark g
  .ok ({ s with keyAllowed := true, mark := none, outerMarks := s.mark :: s.outerMarks }.emit t, gs)

/-- A closing bracket. -/
def flowEnd (s : Scan) (t : Token) (gs : List Glyph) : Except Fault (Scan × List Glyph) := do
  let s ← s.dropMark
  let s := match s.outerMarks with
    | [] => s
    | mark :: outer => { s with mark := mark, outerMarks := outer }
  .ok ({ s with keyAllowed := false }.emit t, gs)

/-- A comma between brackets. -/
def flowEntry (s : Scan) (gs : List Glyph) : Except Fault (Scan × List Glyph) := do
  let s ← s.dropMark
  .ok ({ s with keyAllowed := true }.emit .flowEntry, gs)

/-- The hyphen of a sequence entry. -/
def blockEntry (s : Scan) (g : Glyph) (gs : List Glyph) : Except Fault (Scan × List Glyph) :=
  if !s.inFlow && !s.keyAllowed then .error .entryPlace
  else do
    let s ← (s.roll g.column .blockSequenceStart).dropMark
    .ok ({ s with keyAllowed := true }.emit .blockEntry, gs)

/-- The question mark of an announced key. -/
def key (s : Scan) (g : Glyph) (gs : List Glyph) : Except Fault (Scan × List Glyph) :=
  if !s.inFlow && !s.keyAllowed then .error .keyPlace
  else do
    let s ← (s.roll g.column .blockMappingStart).dropMark
    .ok ({ s with keyAllowed := !s.inFlow }.emit .key, gs)

/-- The colon before a value. -/
def value (s : Scan) (g : Glyph) (gs : List Glyph) : Except Fault (Scan × List Glyph) :=
  match s.mark with
  | some k =>
    let opens := !s.inFlow && s.margin ≤ k.column
    let margins := if opens then (k.column + 1) :: s.margins else s.margins
    let ts := if opens then [.key, .blockMappingStart] else [.key]
    let s := { s with margins, mark := none, keyAllowed := false }
    .ok ((s.insertAt k.before ts).emit .value, gs)
  | none =>
    if !s.inFlow && !s.keyAllowed then .error .colonPlace
    else
      let s := s.roll g.column .blockMappingStart
      .ok ({ s with keyAllowed := !s.inFlow }.emit .value, gs)

/-- A token of a node that may begin a key: an anchor, an alias, a tag or a quoted text. -/
def nodePart (s : Scan) (g : Glyph) (scanned : Except Fault (Token × List Glyph)) :
    Except Fault (Scan × List Glyph) := do
  let s ← s.saveMark g
  let (t, gs) ← scanned
  .ok ({ s with keyAllowed := false }.emit t, gs)

/-- A block text. -/
def block (s : Scan) (literal : Bool) (gs : List Glyph) : Except Fault (Scan × List Glyph) := do
  let s ← s.dropMark
  let (content, gs) ← scanBlock literal s.margin gs
  let style := if literal then Style.literal else .folded
  .ok ({ s with keyAllowed := true }.emit (.text style content), gs)

/-- A plain text. -/
def plain (s : Scan) (g : Glyph) (gs : List Glyph) : Except Fault (Scan × List Glyph) := do
  let s ← s.saveMark g
  let (content, broken, gs) ← scanPlain s.inFlow s.margin .none [] gs
  .ok ({ s with keyAllowed := broken }.emit (.text .plain content), gs)

end Scan

/-- The character may begin a plain text: it is no gap and no indicator, or it is one of three
indicators that lose their meaning before certain characters. -/
def startsPlain (flow : Bool) (c next : Char) : Bool :=
  !(isGap c || "-?:,[]\x7b\x7d#&*!|>'\"%@`".toList.contains c)
    || (c == '-' && !isBlank next)
    || (!flow && (c == '?' || c == ':') && !isGap next)

/-- Passes blanks, comments and line ends, and tells whether a key may begin after them. -/
def skipToToken (flow : Bool) (keyAllowed comment : Bool) : List Glyph → Bool × List Glyph
  | [] => (keyAllowed, [])
  | g :: rest =>
    let c := g.char
    if isBreak c then skipToToken flow (keyAllowed || !flow) false rest
    else if comment && !isEnd c then skipToToken flow keyAllowed true rest
    else if c == ' ' || (c == '\t' && (flow || !keyAllowed)) || (c == '\ufeff' && g.column == 0) then
      skipToToken flow keyAllowed false rest
    else if c == '#' then skipToToken flow keyAllowed true rest
    else (keyAllowed, g :: rest)

/-- Reads the token that begins with the first of the glyphs. -/
def scanToken (s : Scan) (g : Glyph) (rest : List Glyph) : Except Fault (Scan × List Glyph) :=
  let c := g.char
  let gs := g :: rest
  let next := peek rest
  if g.column == 0 && c == '%' then s.directive gs
  else if isDocumentMark '-' gs then s.document .documentStart gs
  else if isDocumentMark '.' gs then s.document .documentEnd gs
  else if c == '[' then s.flowStart g .flowSequenceStart rest
  else if c == '\x7b' then s.flowStart g .flowMappingStart rest
  else if c == ']' then s.flowEnd .flowSequenceEnd rest
  else if c == '\x7d' then s.flowEnd .flowMappingEnd rest
  else if c == ',' then s.flowEntry rest
  else if c == '-' && isGap next then s.blockEntry g rest
  else if c == '?' && (s.inFlow || isGap next) then s.key g rest
  else if c == ':' && (s.inFlow || isGap next) then s.value g rest
  else if c == '*' then s.nodePart g ((scanName rest).map fun (n, gs) => (.alias n, gs))
  else if c == '&' then s.nodePart g ((scanName rest).map fun (n, gs) => (.anchor n, gs))
  else if c == '!' then s.nodePart g (scanTag s.inFlow gs)
  else if c == '|' && !s.inFlow then s.block true rest
  else if c == '>' && !s.inFlow then s.block false rest
  else if c == '\'' then
    s.nodePart g ((scanQuoted '\'' .open .none [] rest).map fun (t, gs) => (.text .singleQuoted t, gs))
  else if c == '"' then
    s.nodePart g ((scanQuoted '"' .open .none [] rest).map fun (t, gs) => (.text .doubleQuoted t, gs))
  else if startsPlain s.inFlow c next then s.plain g gs
  else .error .tokenStart

/-- Reads tokens up to the end of the text. Each takes at least one glyph, so their number bounds
the number of tokens. -/
def scanTokens : Nat → Scan → List Glyph → Except Fault (List Token)
  | 0, _, _ => .error .tokenStart
  | fuel + 1, s, gs => do
    let (keyAllowed, gs) := skipToToken s.inFlow s.keyAllowed false gs
    let s := { s with keyAllowed }
    match gs with
    | [] => .ok (s.unroll 0).tokens.reverse
    | g :: rest =>
      let s ← s.expireMarks g
      if isEnd g.char then
        let s ← (s.unroll 0).dropMark
        .ok s.tokens.reverse
      else
        let (s, gs) ← scanToken (s.unroll (g.column + 1)) g rest
        scanTokens fuel s gs

/-- The tokens of a text. -/
def tokens? (cs : List Char) : Except Fault (List Token) :=
  match layout cs with
  | none => .error .character
  | some gs => scanTokens (gs.length + 1) .start gs

end CidrCover.Yaml
