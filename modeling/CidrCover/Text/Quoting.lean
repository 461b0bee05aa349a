import CidrCover.Text.Shapeless

/-!
# Texts in messages, on terminals and in JSON

Characters that would be taken for something else are written by names or codes.

* `Text.quoted` writes a text between double quotes so that a reader of a message sees where it
  begins and ends. Double quotes, the backslash and the usual control characters get a backslash;
  other characters that have no shape of their own are written by their codes.
* A terminal takes some control characters for the beginning of a command. `Text.disarmed` writes
  these by their codes and leaves all other characters as they are, line ends and tabs among them, so
  a text from elsewhere can be shown without moving the cursor or changing a colour.
* `Json.writeString` writes a string between double quotes; the quote, the backslash and the control
  characters below the space are escaped, and all else stands for itself. A list of strings is
  written on one line or with one item a line.
-/

namespace CidrCover

namespace Text

/-! ### Quotes in messages -/

/-- The lower-case hexadecimal numeral of a number. -/
def hexNumeral (n : Nat) : List Char :=
  Nat.toDigits 16 n

/-- A character by its code, in braces. -/
def bracedCode (c : Char) : List Char :=
  "\\u\x7b".toList ++ hexNumeral c.toNat ++ ['}']

/-- A character as it stands between the quotes. -/
def debugChar (c : Char) : List Char :=
  if c = '"' then ['\\', '"']
  else if c = '\\' then ['\\', '\\']
  else if c = '\n' then ['\\', 'n']
  else if c = '\r' then ['\\', 'r']
  else if c = '\t' then ['\\', 't']
  else if c = '\x00' then ['\\', '0']
  else if isShapeless c then bracedCode c
  else [c]

/-- The text between double quotes. -/
def quoted (s : String) : String :=
  String.ofList ('"' :: s.toList.flatMap debugChar ++ ['"'])

/-! ### Terminals -/

/-- A code in two hexadecimal digits. -/
def shortCode (c : Char) : List Char :=
  "\\x".toList ++ (if c.toNat < 0x10 then ['0'] else []) ++ hexNumeral c.toNat

/-- A character as it is shown. The bell, the backspace, the form feed, the escape character and
the delete character begin commands, and so do the control characters after ASCII. -/
def disarmChar (c : Char) : List Char :=
  if c = '\x07' ∨ c = '\x08' ∨ c = '\x0c' ∨ c = '\x1b' ∨ c = '\x7f' then shortCode c
  else if 0x80 ≤ c.toNat ∧ c.toNat ≤ 0x9F then bracedCode c
  else [c]

/-- The text as it is shown. -/
def disarmed (s : String) : String :=
  String.ofList (s.toList.flatMap disarmChar)

end Text

namespace Json

/-! ### JSON -/

/-- A hexadecimal digit in lower case. -/
def hexDigit (n : Nat) : Char :=
  Nat.digitChar n

/-- A character within a string. -/
def escape (c : Char) : List Char :=
  if c = '"' then ['\\', '"']
  else if c = '\\' then ['\\', '\\']
  else if c = '\x08' then ['\\', 'b']
  else if c = '\x0c' then ['\\', 'f']
  else if c = '\n' then ['\\', 'n']
  else if c = '\r' then ['\\', 'r']
  else if c = '\t' then ['\\', 't']
  else if c.toNat < 0x20 then
    ['\\', 'u', '0', '0', hexDigit (c.toNat / 16), hexDigit (c.toNat % 16)]
  else [c]

/-- A string. -/
def writeString (cs : List Char) : List Char :=
  '"' :: cs.flatMap escape ++ ['"']

/-- A list of strings on one line. -/
def writeInline (items : List String) : List Char :=
  '[' :: [',', ' '].intercalate (items.map fun s => writeString s.toList) ++ [']']

/-- A list of strings with one item a line, indented by two spaces. -/
def writeLines (items : List String) : List Char :=
  if items.isEmpty then ['[', ']']
  else
    ['[', '\n'] ++ [',', '\n'].intercalate (items.map fun s => ' ' :: ' ' :: writeString s.toList)
      ++ ['\n', ']']

end Json

end CidrCover
