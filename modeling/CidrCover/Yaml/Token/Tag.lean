import CidrCover.Yaml.Token
import CidrCover.Yaml.Token.Block
import CidrCover.Yaml.Token.Quoted

/-!
# Names, tags and directives

Anchors and aliases carry a name. A tag is given as a whole between angle brackets, or as a handle
and a suffix, and is a sequence of bytes, which may be given by their codes. A directive gives the
version of the language or defines a handle.
-/

namespace CidrCover.Yaml

/-! ### Anchors and aliases -/

/-- The character may follow the name of an anchor or alias. -/
def endsName (c : Char) : Bool :=
  isGap c || c == '?' || c == ':' || c == ',' || c == ']' || c == '}' || c == '%' || c == '@'
    || c == '`'

/-- The name of an anchor or alias and the glyphs after it. -/
def scanName (gs : List Glyph) : Except Fault (List Char × List Glyph) :=
  let (name, rest) := takeChars isNameChar gs
  if name.isEmpty || !endsName (peek rest) then .error .anchorName else .ok (name, rest)

/-! ### Tags -/

/-- A character of a tag; between angle brackets there are a few more. -/
def isTagChar (whole : Bool) (c : Char) : Bool :=
  isNameChar c || ";/?:@&=+$.%!~*'()".toList.contains c || (whole && ",[]".toList.contains c)

/-- The number of bytes that follow in the UTF-8 code of a character that begins with a byte. -/
def followers? (b : Nat) : Option Nat :=
  if b < 0x80 then some 0
  else if 0xC0 ≤ b && b < 0xE0 then some 1
  else if 0xE0 ≤ b && b < 0xF0 then some 2
  else if 0xF0 ≤ b && b < 0xF8 then some 3
  else none

/-- The bytes of a tag with the codes in it replaced: `missing` bytes of the character that has
begun are still to come. Whether the bytes make a character is not looked at. -/
def decodeTag (missing : Nat) : List Char → Option (List UInt8)
  | '%' :: h :: l :: rest => do
    let b := (← hexValue? h) * 16 + (← hexValue? l)
    let missing ←
      match missing with
      | 0 => followers? b
      | m + 1 => if b / 64 = 2 then some m else none
    (decodeTag missing rest).map (UInt8.ofNat b :: ·)
  | [] => if missing = 0 then some [] else none
  | c :: rest =>
    if c == '%' || missing != 0 then none
    else (decodeTag 0 rest).map (UInt8.ofNat c.toNat :: ·)

/-- A tag ends at a zero byte. -/
def cutTag (tag : List UInt8) : List UInt8 :=
  tag.takeWhile (· != 0)

/-- The bytes of a tag, and the glyphs after them. -/
def scanTagBytes (whole : Bool) (gs : List Glyph) : Except Fault (List UInt8 × List Glyph) :=
  let (raw, rest) := takeChars (isTagChar whole) gs
  match decodeTag 0 raw with
  | some tag => .ok (cutTag tag, rest)
  | none => .error .tag

/-- A handle: an exclamation mark, a name, and another exclamation mark if there is one. -/
def scanHandle (gs : List Glyph) : List Char × List Glyph :=
  let (name, rest) := takeChars isNameChar gs.tail
  if peek rest == '!' then ('!' :: name ++ ['!'], rest.tail) else ('!' :: name, rest)

/-- The handle is closed by an exclamation mark of its own. -/
def isClosedHandle (handle : List Char) : Bool :=
  1 < handle.length && handle.getLast? == some '!'

/-- The bytes of a text in ASCII. -/
def asciiBytes (cs : List Char) : List UInt8 :=
  cs.map fun c => UInt8.ofNat c.toNat

/-- A tag and the glyphs after it. -/
def scanTag (flow : Bool) (gs : List Glyph) : Except Fault (Token × List Glyph) := do
  let (token, rest) ←
    if peek gs.tail == '<' then
      let gs := gs.tail.tail
      if !isTagChar true (peek gs) then .error .tag
      else do
        let (suffix, rest) ← scanTagBytes true gs
        if peek rest != '>' then .error .tag else .ok (Token.tag [] suffix, rest.tail)
    else
      let (handle, rest) := scanHandle gs
      if isClosedHandle handle then
        if !isTagChar false (peek rest) then .error .tag
        else do
          let (suffix, rest) ← scanTagBytes false rest
          .ok (Token.tag handle suffix, rest)
      else do
        let (more, rest) ← scanTagBytes false rest
        let suffix := asciiBytes handle.tail ++ more
        if suffix.isEmpty then .ok (Token.tag [] (asciiBytes ['!']), rest)
        else .ok (Token.tag ['!'] suffix, rest)
  if isGap (peek rest) || (flow && peek rest == ',') then .ok (token, rest) else .error .tag

/-! ### Directives -/

/-- A number of one to nine digits, and the glyphs after it. -/
def scanVersionNumber (gs : List Glyph) : Except Fault (Nat × List Glyph) :=
  let (digits, rest) := takeChars Char.isDigit gs
  if digits.isEmpty || 9 < digits.length then .error .directive
  else .ok (Nat.ofDigitChars 10 digits 0, rest)

/-- A directive with the rest of its line, and the glyphs after it. -/
def scanDirective (gs : List Glyph) : Except Fault (Token × List Glyph) := do
  let (name, rest) := takeChars isNameChar gs.tail
  if !isGap (peek rest) then .error .directive
  else
    let rest := dropChars isBlank rest
    let (token, rest) ←
      if name == "YAML".toList then do
        let (major, rest) ← scanVersionNumber rest
        if peek rest != '.' then .error .directive
        else
          let (minor, rest) ← scanVersionNumber rest.tail
          .ok (Token.versionDirective major minor, rest)
      else if name == "TAG".toList && peek rest == '!' then do
        let (handle, rest) := scanHandle rest
        if !(isClosedHandle handle || handle == ['!']) then .error .tag
        else if !isBlank (peek rest) then .error .directive
        else
          let rest := dropChars isBlank rest
          if !isTagChar true (peek rest) then .error .directive
          else
            let (lead, rest) ← scanTagBytes true rest
            if !isGap (peek rest) then .error .directive
            else .ok (Token.tagDirective handle lead, rest)
      else .error .directive
    let rest ← scanLineEnd .directive rest
    .ok (token, rest)

end CidrCover.Yaml
