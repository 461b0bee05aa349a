/-!
# Placed characters and tokens

A text is read as a list of glyphs: characters with their line, their column and the number of
bytes before them. The list ends with a NUL, which no text may hold, so that every reader
finds a glyph to stop at. All ways to end a line but the two Unicode separators become a line feed.
`layout` refuses a text that holds a character which may not stand in a document.

What a scanner makes of the glyphs is a list of tokens. Besides the marks that stand in the text
there are three that the indentation implies: the beginnings of block sequences and block mappings,
and their end.
-/

namespace CidrCover.Yaml

/-! ### Glyphs -/

/-- A character and its place. -/
structure Glyph where
  char : Char
  line : Nat
  column : Nat
  index : Nat

/-- The character may stand in a document. -/
def isAllowed (c : Char) : Bool :=
  let n := c.toNat
  n == 0x9 || n == 0xA || n == 0xD || (0x20 ≤ n && n ≤ 0x7E) || n == 0x85
    || (0xA0 ≤ n && n ≤ 0xD7FF) || (0xE000 ≤ n && n ≤ 0xFFFD) || 0x10000 ≤ n

/-- The character ends a line once line ends are laid out. -/
def isBreak (c : Char) : Bool :=
  c == '\n' || c == '\u2028' || c == '\u2029'

/-- A space or a tab. -/
def isBlank (c : Char) : Bool :=
  c == ' ' || c == '\t'

/-- The mark after the last character. -/
def isEnd (c : Char) : Bool :=
  c == '\x00'

/-- A line end or the end of the text. -/
def isBreakOrEnd (c : Char) : Bool :=
  isBreak c || isEnd c

/-- A space, a tab, a line end or the end of the text. -/
def isGap (c : Char) : Bool :=
  isBlank c || isBreakOrEnd c

/-- A character of names: an ASCII letter or digit, an underscore or a hyphen. -/
def isNameChar (c : Char) : Bool :=
  c.isAlphanum || c == '_' || c == '-'

/-- Places the characters of a text from a given place on. -/
def place (line column index : Nat) : List Char → List Glyph
  | [] => [⟨'\x00', line, column, index⟩]
  | '\r' :: '\n' :: rest => ⟨'\n', line, column, index⟩ :: place (line + 1) 0 (index + 2) rest
  | c :: rest =>
    if c = '\r' ∨ c = '\u0085' then
      ⟨'\n', line, column, index⟩ :: place (line + 1) 0 (index + c.utf8Size) rest
    else if isBreak c then ⟨c, line, column, index⟩ :: place (line + 1) 0 (index + c.utf8Size) rest
    else ⟨c, line, column, index⟩ :: place line (column + 1) (index + c.utf8Size) rest

/-- The glyphs of a text, if all its characters are allowed. -/
def layout (cs : List Char) : Option (List Glyph) :=
  if cs.all isAllowed then some (place 0 0 0 cs) else none

/-- The character of the first glyph. -/
def peek (gs : List Glyph) : Char :=
  match gs with
  | [] => '\x00'
  | g :: _ => g.char

/-- The characters of the glyphs up to the first that fails a test, and the glyphs from there. -/
def takeChars (test : Char → Bool) (gs : List Glyph) : List Char × List Glyph :=
  let (taken, rest) := gs.span fun g => test g.char
  (taken.map Glyph.char, rest)

/-- The glyphs from the first one that fails a test. -/
def dropChars (test : Char → Bool) (gs : List Glyph) : List Glyph :=
  gs.dropWhile fun g => test g.char

/-- The glyphs begin a line that starts with three hyphens or three dots before a gap. -/
def isDocumentMark (c : Char) (gs : List Glyph) : Bool :=
  match gs with
  | g :: h :: i :: rest =>
    g.column == 0 && g.char == c && h.char == c && i.char == c && isGap (peek rest)
  | _ => false

/-- The glyphs begin a line that starts or ends a document. -/
def atDocumentMark (gs : List Glyph) : Bool :=
  isDocumentMark '-' gs || isDocumentMark '.' gs

/-! ### Tokens -/

/-- How a text is written. -/
inductive Style where
  | plain
  | singleQuoted
  | doubleQuoted
  | literal
  | folded
  deriving DecidableEq, Repr

/-- A token. -/
inductive Token where
  | versionDirective (major minor : Nat)
  | tagDirective (handle : List Char) (lead : List UInt8)
  | documentStart
  | documentEnd
  | blockSequenceStart
  | blockMappingStart
  | blockEnd
  | flowSequenceStart
  | flowSequenceEnd
  | flowMappingStart
  | flowMappingEnd
  | blockEntry
  | flowEntry
  | key
  | value
  | alias (name : List Char)
  | anchor (name : List Char)
  | tag (handle : List Char) (suffix : List UInt8)
  | text (style : Style) (content : List Char)
  deriving DecidableEq, Repr

end CidrCover.Yaml
