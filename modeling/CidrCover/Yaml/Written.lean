import CidrCover.Yaml.Plain
import CidrCover.Yaml.Token

/-!
# Writing texts

`write indent cs` is a text as it stands after the colon of a key or the hyphen of an entry in a
block collection, where the lines after the first are indented by `indent` spaces.

A text of several lines becomes a literal block. Any other text stays without quotes if a reader
takes it for what it is, and gets single quotes otherwise. Where neither form can hold the text, or
it has characters that do not print, double quotes with escapes are used. `Traits` is what the
choice depends on.
-/

namespace CidrCover.Yaml

/-! ### Traits of texts -/

/-- A character that ends a line in a text, as it is before line ends are laid out. -/
def isRawBreak (c : Char) : Bool :=
  c == '\r' || c == '\u0085' || isBreak c

/-- A space, a tab, a character that ends a line, or a NUL. -/
def isRawGap (c : Char) : Bool :=
  isBlank c || isRawBreak c || isEnd c

/-- The character may stand in a text that is not escaped. -/
def isPrintable (c : Char) : Bool :=
  let n := c.toNat
  n == 0xA || (0x20 ≤ n && n ≤ 0x7E) || (0xA0 ≤ n && n ≤ 0xD7FF)
    || (0xE000 ≤ n && n ≤ 0xFFFD && n != 0xFEFF) || 0x10000 ≤ n

/-- An indicator that a plain text must not begin with. -/
def isLeadingIndicator (c : Char) : Bool :=
  "#,[]\x7b\x7d&*!|>'\"%@`".toList.contains c

/-- The text holds a colon before a gap or its end, or a number sign after a gap. -/
def hasInnerIndicator (before : Char) : List Char → Bool
  | [] => false
  | c :: rest =>
    (c == ':' && rest.head?.all isRawGap) || (c == '#' && isRawGap before)
      || hasInnerIndicator c rest

/-- An indicator makes the text something else than a plain text. -/
def hasIndicator (cs : List Char) : Bool :=
  match cs with
  | [] => false
  | c :: rest =>
    "---".toList.isPrefixOf cs || "...".toList.isPrefixOf cs || isLeadingIndicator c
      || ((c == '?' || c == ':' || c == '-') && rest.head?.all isRawGap)
      || hasInnerIndicator c rest

/-- Two characters in a row pass two tests. -/
def hasPair (first second : Char → Bool) : List Char → Bool
  | a :: b :: rest => (first a && second b) || hasPair first second (b :: rest)
  | _ => false

/-- What the form of a text depends on. -/
structure Traits where
  /-- It ends a line somewhere. -/
  multiline : Bool
  /-- It has a character that does not print. -/
  special : Bool
  /-- It would be taken for something else than a plain text. -/
  indicator : Bool
  /-- It begins or ends with a space or a line end. -/
  loose : Bool
  /-- It ends with a space. -/
  trailingSpace : Bool
  /-- A line begins with a space. -/
  breakSpace : Bool
  /-- A line ends with a space. -/
  spaceBreak : Bool

/-- The traits of a text. -/
def traits (cs : List Char) : Traits where
  multiline := cs.any isRawBreak
  special := !cs.all isPrintable
  indicator := hasIndicator cs
  loose := (cs.head?.any fun c => c == ' ' || isRawBreak c)
    || cs.getLast?.any fun c => c == ' ' || isRawBreak c
  trailingSpace := cs.getLast? == some ' '
  breakSpace := hasPair isRawBreak (· == ' ') cs
  spaceBreak := hasPair (· == ' ') isRawBreak cs

namespace Traits

/-- The text can do without quotes. -/
def plainAllowed (t : Traits) : Bool :=
  !(t.multiline || t.special || t.indicator || t.loose || t.breakSpace || t.spaceBreak)

/-- The text can stand in single quotes. -/
def singleAllowed (t : Traits) : Bool :=
  !(t.special || t.breakSpace || t.spaceBreak)

/-- The text can stand in a literal block. -/
def literalAllowed (t : Traits) : Bool :=
  !(t.special || t.trailingSpace || t.spaceBreak)

end Traits

/-- The style in which a text is written. -/
def styleOf (cs : List Char) : Style :=
  let t := traits cs
  if cs.contains '\n' then
    if t.literalAllowed then .literal else .doubleQuoted
  else if !isAmbiguous cs && t.plainAllowed then .plain
  else if cs.isEmpty || t.singleAllowed then .singleQuoted
  else .doubleQuoted

/-! ### The styles -/

/-- The spaces at the beginning of a line. -/
def spaces (indent : Nat) : List Char :=
  List.replicate indent ' '

/-- A text in single quotes, which are doubled inside; a line that goes on is indented. -/
def singleBody (indent : Nat) (afterBreak : Bool) : List Char → List Char
  | [] => if afterBreak then spaces indent else []
  | c :: rest =>
    if isBreak c then c :: singleBody indent true rest
    else if c == ' ' then c :: singleBody indent afterBreak rest
    else
      let lead := if afterBreak then spaces indent else []
      let body := if c == '\'' then ['\'', '\''] else [c]
      lead ++ body ++ singleBody indent false rest

/-- The letter of an escape. -/
def escapeLetter? (c : Char) : Option Char :=
  match c with
  | '\x00' => some '0'
  | '\x07' => some 'a'
  | '\x08' => some 'b'
  | '\t' => some 't'
  | '\n' => some 'n'
  | '\x0b' => some 'v'
  | '\x0c' => some 'f'
  | '\r' => some 'r'
  | '\x1b' => some 'e'
  | '"' => some '"'
  | '\\' => some '\\'
  | '\u0085' => some 'N'
  | '\u2028' => some 'L'
  | '\u2029' => some 'P'
  | _ => none

/-- The upper-case hexadecimal digit of a number below 16. -/
def upperHexDigit (n : Nat) : Char :=
  if n < 10 then Char.ofNat (48 + n) else Char.ofNat (55 + n)

/-- The last `width` hexadecimal digits of a number. -/
def hexDigits (n : Nat) : (width : Nat) → List Char
  | 0 => []
  | w + 1 => upperHexDigit (n / Nat.pow 16 w % 16) :: hexDigits n w

/-- A character in double quotes. -/
def doubleChar (c : Char) : List Char :=
  match escapeLetter? c with
  | some l => ['\\', l]
  | none =>
    if isPrintable c then [c]
    else
      let n := c.toNat
      if n ≤ 0xFF then '\\' :: 'x' :: hexDigits n 2 else '\\' :: 'u' :: hexDigits n 4

/-- The lines of a literal block; the character before decides whether a line begins. -/
def literalBody (indent : Nat) (afterBreak : Bool) : List Char → List Char
  | [] => []
  | c :: rest =>
    if isBreak c then c :: literalBody indent true rest
    else (if afterBreak then spaces indent else []) ++ c :: literalBody indent false rest

/-- The header of a literal block. The indentation is given where the text begins with a space or
a line end. The line end at the end is dropped if the text has none, and more than one are kept. -/
def literalHeader (cs : List Char) : List Char :=
  let hint := if cs.head?.any fun c => c == ' ' || isBreak c then ['2'] else []
  let chomp := match cs.reverse with
    | [] => ['-']
    | [c] => if isBreak c then ['+'] else ['-']
    | c :: d :: _ => if !isBreak c then ['-'] else if isBreak d then ['+'] else []
  '|' :: (hint ++ chomp)

/-- A text after a key or a hyphen, up to the end of its last line. -/
def write (indent : Nat) (cs : List Char) : List Char :=
  match styleOf cs with
  | .plain => ' ' :: cs ++ ['\n']
  | .doubleQuoted => ' ' :: '"' :: cs.flatMap doubleChar ++ ['"', '\n']
  | .literal | .folded =>
    let body := literalBody indent true cs
    let closing := if cs.getLast?.any isBreak then [] else ['\n']
    ' ' :: literalHeader cs ++ '\n' :: (body ++ closing)
  | .singleQuoted => ' ' :: '\'' :: singleBody indent false cs ++ ['\'', '\n']

end CidrCover.Yaml
