import CidrCover.Yaml.Fault
import CidrCover.Yaml.Token

/-!
# Block texts

A block text stands on the lines below its header, indented. The header may give the
indentation and say what becomes of the line ends at the end of the text: they are dropped, reduced
to one, or kept. In a literal text line ends stand for themselves; in a folded one a single
line feed between two lines that do not begin with a blank becomes a space.
-/

namespace CidrCover.Yaml

/-- What becomes of the line ends at the end of a block text. -/
inductive Chomp where
  | strip
  | clip
  | keep
  deriving DecidableEq, Repr

/-- The header of a block text: chomping and, if given, the indentation beyond the surrounding. -/
structure BlockHeader where
  chomp : Chomp
  indent : Option Nat

/-- The chomping that a character asks for. -/
def chomp? (c : Char) : Option Chomp :=
  if c == '-' then some .strip else if c == '+' then some .keep else none

/-- The indicators of a header, and the glyphs after them. -/
def scanIndicators (gs : List Glyph) : Except Fault (BlockHeader × List Glyph) :=
  let digit? (c : Char) : Option Nat := if c.isDigit then some (c.toNat - 48) else none
  let afterDigit (d : Nat) (chomp : Chomp) (rest : List Glyph) :=
    if d = 0 then .error .blockHeader else .ok (⟨chomp, some d⟩, rest)
  match chomp? (peek gs), digit? (peek gs) with
  | some chomp, _ =>
    match digit? (peek gs.tail) with
    | some d => afterDigit d chomp gs.tail.tail
    | none => .ok (⟨chomp, none⟩, gs.tail)
  | none, some d =>
    match chomp? (peek gs.tail) with
    | some chomp => afterDigit d chomp gs.tail.tail
    | none => afterDigit d .clip gs.tail
  | none, none => .ok (⟨.clip, none⟩, gs)

/-- Passes blanks, a comment and a line end. -/
def scanLineEnd (fault : Fault) (gs : List Glyph) : Except Fault (List Glyph) :=
  let gs := dropChars isBlank gs
  let gs := if peek gs == '#' then dropChars (!isBreakOrEnd ·) gs else gs
  if isBreak (peek gs) then .ok gs.tail
  else if isEnd (peek gs) then .ok gs
  else .error fault

/-- A block text that is being read; the lists are in reverse. -/
structure BlockText where
  /-- The column of the text, once it is known. -/
  indent : Option Nat
  /-- The farthest column of the blank lines before the indentation is known. -/
  farthest : Nat
  taken : List Char
  /-- The end of the last line. -/
  lineEnd : List Char
  /-- The blank lines after it. -/
  blankLines : List Char
  /-- The last line began with a blank. -/
  ledByBlank : Bool

/-- The text with the line ends before its next line. -/
def BlockText.join (literal : Bool) (t : BlockText) (blank : Bool) : BlockText :=
  let between :=
    if !literal && t.lineEnd == ['\n'] && !t.ledByBlank && !blank then
      if t.blankLines.isEmpty then [' '] else t.blankLines
    else t.blankLines ++ t.lineEnd
  { t with
    taken := between ++ t.taken
    lineEnd := []
    blankLines := []
    ledByBlank := blank }

/-- The text with the line ends at its end. -/
def BlockText.finish (chomp : Chomp) (t : BlockText) : List Char :=
  match chomp with
  | .strip => t.taken.reverse
  | .clip => (t.lineEnd ++ t.taken).reverse
  | .keep => (t.blankLines ++ t.lineEnd ++ t.taken).reverse

/-- Reads the lines of a block text: `inLine` says whether the reader is within a line or in the
indentation of one. -/
def scanBlockLines (literal : Bool) (chomp : Chomp) (margin : Nat) (inLine : Bool)
    (t : BlockText) : List Glyph → Except Fault (List Char × List Glyph)
  | [] => .ok (t.finish chomp, [])
  | g :: rest =>
    let c := g.char
    if inLine then
      if isBreak c then
        scanBlockLines literal chomp margin false { t with lineEnd := [c] } rest
      else if isEnd c then .ok (t.finish chomp, g :: rest)
      else scanBlockLines literal chomp margin true { t with taken := c :: t.taken } rest
    else
      let short := match t.indent with
        | none => true
        | some n => decide (g.column < n)
      if short && c == ' ' then scanBlockLines literal chomp margin false t rest
      else if short && c == '\t' then .error .tabIndentation
      else
        let t := { t with farthest := max t.farthest g.column }
        if isBreak c then
          scanBlockLines literal chomp margin false { t with blankLines := c :: t.blankLines } rest
        else
          let indent := match t.indent with
            | none => max (max t.farthest margin) 1
            | some n => n
          if isEnd c || g.column != indent then .ok (t.finish chomp, g :: rest)
          else
            let t := { t.join literal (isBlank c) with indent := some indent }
            scanBlockLines literal chomp margin true { t with taken := c :: t.taken } rest

/-- A block text after the character that announces it. The indentation of what surrounds it is
less than `margin`. -/
def scanBlock (literal : Bool) (margin : Nat) (gs : List Glyph) :
    Except Fault (List Char × List Glyph) := do
  let (header, gs) ← scanIndicators gs
  let gs ← scanLineEnd .blockHeader gs
  let indent := header.indent.map fun n => if margin = 0 then n else margin - 1 + n
  scanBlockLines literal header.chomp margin false ⟨indent, 0, [], [], [], false⟩ gs

end CidrCover.Yaml
