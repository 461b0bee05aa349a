import CidrCover.Yaml.Fault
import CidrCover.Yaml.Token

/-!
# Texts on one or more lines

A plain or quoted text may go over several lines. What stands between two words of it is a `Gap`:
on one line the blanks are kept; over line ends a single line feed becomes a space, and of several
line ends the first is dropped if it is a line feed. `scanQuoted` reads a quoted text after its
opening quote, `scanPlain` a text without quotes.
-/

namespace CidrCover.Yaml

/-! ### Gaps -/

/-- The blanks and line ends since the last word; the lists are in reverse. -/
structure Gap where
  /-- The blanks, as long as there is no line end. -/
  blanks : List Char
  /-- There has been a line end. -/
  broken : Bool
  /-- The first line end, unless it was escaped. -/
  first : Option Char
  /-- The other line ends. -/
  others : List Char

namespace Gap

/-- No gap. -/
def none : Gap := ⟨[], false, .none, []⟩

/-- The gap after an escaped line end. -/
def escaped : Gap := ⟨[], true, .none, []⟩

/-- There is something in the gap. -/
def isOpen (g : Gap) : Bool :=
  g.broken || !g.blanks.isEmpty

/-- The gap with one more blank or line end. -/
def push (g : Gap) (c : Char) : Gap :=
  if isBreak c then
    if g.broken then { g with others := c :: g.others } else ⟨[], true, some c, []⟩
  else if g.broken then g
  else { g with blanks := c :: g.blanks }

/-- What the gap stands for, in reverse. -/
def content (g : Gap) : List Char :=
  if !g.broken then g.blanks
  else
    match g.first with
    | .none => g.others
    | some '\n' => if g.others.isEmpty then [' '] else g.others
    | some c => g.others ++ [c]

end Gap

/-! ### Plain texts -/

/-- A bracket, a brace, a comma or a question mark. -/
def isFlowMark (c : Char) : Bool :=
  c == ',' || c == '?' || c == '[' || c == ']' || c == '{' || c == '}'

/-- The glyphs end a plain text within a line. -/
def endsPlain (flow : Bool) (gs : List Glyph) : Bool :=
  let c := peek gs
  (c == ':' && isGap (peek gs.tail)) || (flow && c != '?' && isFlowMark c)

/-- A plain text, whether a line end follows it, and the glyphs after it. Outside of brackets the
text ends before a line that is not indented as far as `margin`. -/
def scanPlain (flow : Bool) (margin : Nat) (gap : Gap) (taken : List Char) :
    List Glyph → Except Fault (List Char × Bool × List Glyph)
  | [] => .ok (taken.reverse, gap.broken, [])
  | g :: rest =>
    let c := g.char
    if isBlank c || isBreak c then
      if c == '\t' && gap.broken && g.column < margin then .error .tabIndentation
      else scanPlain flow margin (gap.push c) taken rest
    else if isEnd c
        || (gap.isOpen && ((!flow && g.column < margin) || atDocumentMark (g :: rest) || c == '#'))
        then .ok (taken.reverse, gap.broken, g :: rest)
    else if flow && c == ':' && isFlowMark (peek rest) then .error .colonPlace
    else if endsPlain flow (g :: rest) then .ok (taken.reverse, gap.broken, g :: rest)
    else scanPlain flow margin .none (c :: (gap.content ++ taken)) rest

/-! ### Quoted texts -/

/-- Where a reader of a quoted text stands. -/
inductive QuoteState where
  /-- Between characters. -/
  | open
  /-- After a single quote, which ends the text unless another one follows. -/
  | quote
  /-- After a backslash. -/
  | escape
  /-- In an escape that wants more hexadecimal digits. -/
  | hex (missing code : Nat)

/-- The character that a one-letter escape stands for. -/
def escapeChar? (c : Char) : Option Char :=
  match c with
  | '0' => some '\x00'
  | 'a' => some '\x07'
  | 'b' => some '\x08'
  | 't' | '\t' => some '\t'
  | 'n' => some '\n'
  | 'v' => some '\x0b'
  | 'f' => some '\x0c'
  | 'r' => some '\r'
  | 'e' => some '\x1b'
  | ' ' => some ' '
  | '"' => some '"'
  | '/' => some '/'
  | '\\' => some '\\'
  | 'N' => some '\u0085'
  | '_' => some '\u00a0'
  | 'L' => some '\u2028'
  | 'P' => some '\u2029'
  | _ => none

/-- The number of digits of an escape by code. -/
def escapeWidth? (c : Char) : Option Nat :=
  match c with
  | 'x' => some 2
  | 'u' => some 4
  | 'U' => some 8
  | _ => none

/-- The value of a hexadecimal digit. -/
def hexValue? (c : Char) : Option Nat :=
  if '0' ≤ c && c ≤ '9' then some (c.toNat - 48)
  else if 'a' ≤ c && c ≤ 'f' then some (c.toNat - 87)
  else if 'A' ≤ c && c ≤ 'F' then some (c.toNat - 55)
  else none

/-- A quoted text and the glyphs after its closing quote. -/
def scanQuoted (quote : Char) (state : QuoteState) (gap : Gap) (taken : List Char) :
    List Glyph → Except Fault (List Char × List Glyph)
  | [] =>
    match state with
    | .quote => .ok (taken.reverse, [])
    | _ => .error .unclosedQuote
  | g :: rest =>
    let c := g.char
    match state with
    | .quote =>
      if c == '\'' then scanQuoted quote .open .none ('\'' :: taken) rest
      else .ok (taken.reverse, g :: rest)
    | .hex missing code =>
      match hexValue? c with
      | none => .error .escape
      | some d =>
        let code := code * 16 + d
        match missing with
        | m + 2 => scanQuoted quote (.hex (m + 1) code) .none taken rest
        | _ =>
          if code.isValidChar then
            scanQuoted quote .open .none (Char.ofNat code :: taken) rest
          else .error .escape
    | .escape =>
      if isBreak c then scanQuoted quote .open .escaped taken rest
      else
        match escapeChar? c, escapeWidth? c with
        | some d, _ => scanQuoted quote .open .none (d :: taken) rest
        | none, some width => scanQuoted quote (.hex width 0) .none taken rest
        | none, none => .error .escape
    | .open =>
      if isBlank c || isBreak c then scanQuoted quote .open (gap.push c) taken rest
      else if isEnd c then .error .unclosedQuote
      else if gap.broken && atDocumentMark (g :: rest) then .error .markInQuote
      else
        let taken := gap.content ++ taken
        if c == quote then
          if quote == '\'' then scanQuoted quote .quote .none taken rest
          else .ok (taken.reverse, rest)
        else if quote == '"' && c == '\\' then scanQuoted quote .escape .none taken rest
        else scanQuoted quote .open .none (c :: taken) rest

end CidrCover.Yaml
