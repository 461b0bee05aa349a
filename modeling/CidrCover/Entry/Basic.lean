import CidrCover.Fault
import CidrCover.Text.Basic

/-!
# Entries

An entry is a text that should denote a prefix. A text that does not is reported as it was given,
and of several such texts the first one.

An entry has the shape of an IPv4 block if it consists of four numerals with dots between them, a
slash and one more numeral, blanks around them apart. The shape says nothing about the size of the
numbers. `sift` parts entries by their shape, without the blanks around them and in their order.

A list of entries can be given as bytes: one entry a line, with blanks around it that do not count.
Blank lines and lines that begin with a number sign are passed over. Every line has to be a text,
those that are passed over too (`readLines`).
-/

namespace CidrCover.Entry

/-- Reads an entry. -/
def parse (s : String) : Except Fault Prefix :=
  (Prefix.parse s).mapError (.malformed s)

/-- Reads entries up to the first one that denotes no prefix. -/
def parseAll (entries : List String) : Except Fault (List Prefix) :=
  entries.mapM parse

/-- The block that holds an address, for a length that may be too great. -/
def ofAddress (a : Address) (len : Nat) : Except Fault Prefix :=
  (Prefix.ofAddress? a len).mapError
    (.malformed (addressText a ++ "/" ++ String.ofList (Text.numeral len)))

/-! ### The shape of entries -/

/-- The text is a numeral before each of the marks, in their order, and one after the last. -/
def isShaped : List Char → List Char → Bool
  | [], cs => Text.isNumeral cs
  | mark :: marks, cs =>
    match cs.span Char.isDigit with
    | (_ :: _, c :: rest) => c == mark && isShaped marks rest
    | _ => false

/-- The entry has the shape of an IPv4 block. -/
def hasShape (s : String) : Bool :=
  isShaped ['.', '.', '.', '/'] (Text.trim s.toList)

/-- Entries that were kept and entries that were not. -/
structure Sifted where
  accepted : List String
  rejected : List String
  deriving DecidableEq, Repr

/-- Keeps the entries that have the shape of an IPv4 block. -/
def sift (entries : List String) : Sifted :=
  let (accepted, rejected) := (entries.map Text.trimmed).partition hasShape
  ⟨accepted, rejected⟩

/-! ### Entries by lines -/

/-- The byte at the end of a line. -/
def lineFeed : UInt8 := 10

/-- The lines of some bytes, without the bytes at their ends. -/
def byteLines (bytes : ByteArray) : List ByteArray :=
  (bytes.data.toList.splitOn lineFeed).map fun line => ⟨line.toArray⟩

/-- The line holds an entry. -/
def isEntryLine (line : List Char) : Bool :=
  match line with
  | [] => false
  | c :: _ => c != '#'

/-- The text of a line without the blanks around it. -/
def readLine (line : ByteArray) : Except Fault (List Char) :=
  match Text.decodeUtf8? line with
  | none => .error .notUtf8
  | some s => .ok (Text.trim s.toList)

/-- Reads the entries of a list. -/
def readLines (bytes : ByteArray) : Except Failure (List String) :=
  match (byteLines bytes).mapM readLine with
  | .error f => .error ⟨[.readInput], f⟩
  | .ok lines => .ok ((lines.filter isEntryLine).map String.ofList)

end CidrCover.Entry
