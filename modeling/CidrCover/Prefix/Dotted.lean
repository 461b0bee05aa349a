import CidrCover.Prefix.Basic
import CidrCover.Text.Basic

/-!
# Prefixes in dotted notation

`Prefix.chars` writes a prefix as four octets, a slash and a length, none with leading zeros.
`Prefix.parse` reads a wider language: white space around the text, any number of leading zeros,
and addresses with bits set below the length, which it clears. A text outside that language is
refused with the first flaw that a reader meets who checks the slash, then the octets from the left,
then their number, then the length.
-/

namespace CidrCover

open Text

/-- What is wrong with a text or a pair that should denote a prefix. -/
inductive Malformation where
  /-- There is no slash. -/
  | lengthMissing
  /-- There are fewer or more than four octets. -/
  | octetCount
  /-- An octet is not a run of ASCII digits. -/
  | octetNotDecimal
  /-- An octet is above 255. -/
  | octetRange
  /-- The length is not a run of ASCII digits. -/
  | lengthNotDecimal
  /-- The length is above 32. -/
  | lengthRange
  /-- A length given as a number is above 32. -/
  | lengthExceeds
  deriving DecidableEq, Repr

/-- The wording of a flaw. -/
def Malformation.message : Malformation → String
  | .lengthMissing => "missing prefix length"
  | .octetCount => "expected four octets"
  | .octetNotDecimal => "octet is not a decimal number"
  | .octetRange => "octet out of range 0-255"
  | .lengthNotDecimal => "prefix length is not a decimal number"
  | .lengthRange => "prefix length out of range 0-32"
  | .lengthExceeds => "prefix length exceeds 32"

/-! ### Addresses -/

/-- The four octets of an address, from the top. -/
def octets (a : Address) : List Nat :=
  [a.toNat / 16777216, a.toNat / 65536 % 256, a.toNat / 256 % 256, a.toNat % 256]

/-- The address with the given octets, from the top. -/
def addressOfOctets (os : List Nat) : Address :=
  BitVec.ofNat 32 (os.foldl (fun n o => n * 256 + o) 0)

/-- An address as four numerals with dots between them. -/
def dotted (a : Address) : List Char :=
  ['.'].intercalate ((octets a).map numeral)

/-- An address as a string. -/
def addressText (a : Address) : String :=
  String.ofList (dotted a)

namespace Prefix

/-! ### Writing -/

/-- The network address, a slash and the length. -/
def chars (p : Prefix) : List Char :=
  dotted p.network ++ '/' :: numeral p.len

/-- The prefix as a string. -/
def text (p : Prefix) : String :=
  String.ofList p.chars

instance : ToString Prefix := ⟨Prefix.text⟩

/-! ### Reading -/

/-- Reads exactly `n` octets from the fields between the dots. -/
def readOctets : Nat → List (List Char) → Except Malformation (List Nat)
  | 0, [] => .ok []
  | 0, _ :: _ => .error .octetCount
  | _ + 1, [] => .error .octetCount
  | n + 1, field :: rest =>
    if !isNumeral field then .error .octetNotDecimal
    else if 255 < value field then .error .octetRange
    else (readOctets n rest).map (value field :: ·)

/-- Reads what stands after the slash. -/
def readLength (cs : List Char) : Except Malformation Nat :=
  if !isNumeral cs then .error .lengthNotDecimal
  else if 32 < value cs then .error .lengthRange
  else .ok (value cs)

/-- The block of `len` leading bits that holds an address, if there is such a length. -/
def ofAddress? (a : Address) (len : Nat) : Except Malformation Prefix :=
  if h : len ≤ 32 then .ok (ofAddress a len h) else .error .lengthExceeds

/-- Reads a text without white space around it. -/
def parseChars (cs : List Char) : Except Malformation Prefix :=
  match cs.span (· != '/') with
  | (_, []) => .error .lengthMissing
  | (address, _ :: length) => do
    let os ← readOctets 4 (address.splitOn '.')
    let len ← readLength length
    ofAddress? (addressOfOctets os) len

/-- Reads a prefix; white space around it is dropped. -/
def parse (s : String) : Except Malformation Prefix :=
  parseChars (trim s.toList)

end Prefix

end CidrCover
