/-!
# Texts

What the other modules need of texts: blanks at their ends, decimal numerals, lines and bytes.

* `isBlank` is membership in Unicode's White_Space class, the 25 characters that the standard lists.
  `trim` removes them from both ends of a text and keeps what lies between, blanks included.
* `numeral n` writes `n` in ASCII digits without leading zeros, `value` reads a run of digits of any
  length, leading zeros included, and `isNumeral` says which texts are such runs. Reading what was
  written gives the number back (`value_numeral`), and what was written is a run
  (`isNumeral_numeral`). `grouped n` has a comma before every third digit from the right, the first
  digit apart: 999, 1,000, 4,294,967,296.
* A line ends with a line feed, and a carriage return before that belongs to the end. `closeLines`
  puts lines together into a text, and `lines` takes a text apart. A line that holds a line feed
  itself comes back as several ones.
* The bytes of a text are its UTF-8 encoding. `decodeUtf8?` gives the text back, and nothing for
  bytes that encode none.
-/

namespace CidrCover.Text

/-! ### White space -/

/-- The character is in Unicode's White_Space class. -/
def isBlank (c : Char) : Bool :=
  let n := c.toNat
  (9 ≤ n && n ≤ 13) || n == 0x20 || n == 0x85 || n == 0xA0 || n == 0x1680
    || (0x2000 ≤ n && n ≤ 0x200A) || n == 0x2028 || n == 0x2029 || n == 0x202F
    || n == 0x205F || n == 0x3000

/-- The text without the blanks at its end. -/
def trimEnd (cs : List Char) : List Char :=
  (cs.reverse.dropWhile isBlank).reverse

/-- The text without the blanks at either end. -/
def trim (cs : List Char) : List Char :=
  trimEnd (cs.dropWhile isBlank)

/-- The string without the blanks at either end. -/
def trimmed (s : String) : String :=
  String.ofList (trim s.toList)

/-! ### Decimal numerals -/

/-- The decimal numeral of a number, without leading zeros. -/
def numeral (n : Nat) : List Char :=
  Nat.toDigits 10 n

/-- A non-empty run of ASCII digits. -/
def isNumeral (cs : List Char) : Bool :=
  !cs.isEmpty && cs.all Char.isDigit

/-- The number that a run of ASCII digits stands for. -/
def value (cs : List Char) : Nat :=
  Nat.ofDigitChars 10 cs 0

/-- A numeral is read as its number. -/
@[simp] theorem value_numeral (n : Nat) : value (numeral n) = n :=
  Nat.ofDigitChars_toDigits (by decide) (by decide)

/-- The characters of a numeral are digits. -/
theorem isDigit_of_mem_numeral {n : Nat} {c : Char} (h : c ∈ numeral n) : c.isDigit = true :=
  Nat.isDigit_of_mem_toDigits (by decide) (by decide) h

/-- A numeral has at least one digit. -/
theorem numeral_ne_nil (n : Nat) : numeral n ≠ [] :=
  Nat.toDigits_ne_nil

/-- A numeral is a run of digits. -/
@[simp] theorem isNumeral_numeral (n : Nat) : isNumeral (numeral n) = true := by
  simp only [isNumeral, Bool.and_eq_true, Bool.not_eq_true', List.isEmpty_eq_false_iff,
    List.all_eq_true]
  exact ⟨numeral_ne_nil n, fun _ => isDigit_of_mem_numeral⟩

/-! ### Numerals in groups of three digits -/

/-- Puts a comma after every third character, as long as another one follows. -/
def commas : List Char → List Char
  | a :: b :: c :: d :: rest => a :: b :: c :: ',' :: commas (d :: rest)
  | short => short

/-- The numeral in groups of three digits. -/
def grouped (n : Nat) : List Char :=
  (commas (numeral n).reverse).reverse

/-- The numeral in groups of three digits, as a string. -/
def groupedText (n : Nat) : String :=
  String.ofList (grouped n)

/-! ### Lines -/

/-- The text of some lines, each with its end. -/
def closeLines (lines : List String) : String :=
  String.join (lines.map (· ++ "\n"))

/-- The line without a carriage return at its end. -/
def dropReturn (line : List Char) : List Char :=
  if line.getLast? = some '\r' then line.dropLast else line

/-- The lines of a text. What comes after the last line feed is no line. -/
def lines (s : String) : List String :=
  (s.toList.splitOn '\n').dropLast.map fun line => String.ofList (dropReturn line)

/-! ### Bytes -/

/-- The text that bytes encode. -/
def decodeUtf8? (bytes : ByteArray) : Option String :=
  String.fromUTF8? bytes

/-- The bytes of a text. -/
def encodeUtf8 (s : String) : ByteArray :=
  s.toUTF8

end CidrCover.Text
