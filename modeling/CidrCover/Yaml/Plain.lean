import CidrCover.Yaml.Token.Quoted

/-!
# What an unquoted text stands for

An unquoted text may stand for nothing, for a truth value or for a number. `unsigned?` reads
non-negative integers: decimal ones without superfluous zeros in front, and hexadecimal, octal and
binary ones after `0x`, `0o` and `0b`, all with an optional plus sign. `isAmbiguous` says which
texts a writer has to quote because a reader might not take them for texts.
-/

namespace CidrCover.Yaml

/-- The text stands for nothing. -/
def isNull (cs : List Char) : Bool :=
  ["", "~", "null", "Null", "NULL"].any (·.toList == cs)

/-- The truth value that a text stands for. -/
def boolean? (cs : List Char) : Option Bool :=
  if ["true", "True", "TRUE"].any (·.toList == cs) then some true
  else if ["false", "False", "FALSE"].any (·.toList == cs) then some false
  else none

/-! ### Integers -/

/-- Adds the digits of a numeral to a number. -/
def addDigits (base : Nat) : Nat → List Char → Option Nat
  | n, [] => some n
  | n, c :: rest => do
    let d ← hexValue? c
    if d < base then addDigits base (n * base + d) rest else none

/-- The number that a numeral of at least one digit stands for. -/
def digits? (base : Nat) (cs : List Char) : Option Nat :=
  if cs.isEmpty then none else addDigits base 0 cs

/-- The numeral after its mark of a base, with the base; without a mark the base is ten. -/
def splitBase : List Char → Nat × List Char
  | '0' :: 'x' :: rest => (16, rest)
  | '0' :: 'o' :: rest => (8, rest)
  | '0' :: 'b' :: rest => (2, rest)
  | cs => (10, cs)

/-- The text without one plus sign in front. -/
def dropPlus : List Char → List Char
  | '+' :: rest => rest
  | cs => cs

/-- The text without one sign in front. -/
def dropSign : List Char → List Char
  | '+' :: rest => rest
  | '-' :: rest => rest
  | cs => cs

/-- The text is a zero before further digits, after a sign or not. -/
def hasLeadingZero (cs : List Char) : Bool :=
  match dropSign cs with
  | '0' :: c :: rest => (c :: rest).all Char.isDigit
  | _ => false

/-- The magnitude of an integer without a sign. -/
def magnitude? (cs : List Char) : Option Nat :=
  let (base, digits) := splitBase cs
  if hasLeadingZero cs then none else digits? base digits

/-- The number below `2 ^ width` that a text stands for. -/
def unsigned? (width : Nat) (cs : List Char) : Option Nat :=
  (magnitude? (dropPlus cs)).filter (· < Nat.pow 2 width)

/-- The magnitude of the negative number, not less than `-2 ^ width`, that a text stands for. -/
def negative? (width : Nat) : List Char → Option Nat
  | '-' :: rest => (magnitude? rest).filter (· ≤ Nat.pow 2 width)
  | _ => none

/-! ### Numbers with a point or an exponent -/

/-- The parts of a numeral: the digits before and after the point, and the exponent. -/
structure Numeral where
  whole : List Char
  fraction : List Char
  exponent : Int

/-- An exponent: nothing, or a letter E and an integer. -/
def exponent? : List Char → Option Int
  | [] => some 0
  | c :: rest =>
    if c == 'e' || c == 'E' then
      let digits := dropSign rest
      if digits.isEmpty || !digits.all Char.isDigit then none
      else
        let n : Int := Nat.ofDigitChars 10 digits 0
        some (if rest.head? == some '-' then -n else n)
    else none

/-- The parts of a numeral with digits on at least one side of the point. -/
def numeral? (cs : List Char) : Option Numeral :=
  let (whole, rest) := cs.span Char.isDigit
  let (fraction, rest) := match rest with
    | '.' :: rest => rest.span Char.isDigit
    | rest => ([], rest)
  if whole.isEmpty && fraction.isEmpty then none
  else (exponent? rest).map fun e => ⟨whole, fraction, e⟩

/-- The numeral is less than every number that rounds to a double beyond the finite ones. -/
def Numeral.isFinite (n : Numeral) : Bool :=
  let digits := Nat.ofDigitChars 10 (n.whole ++ n.fraction) 0
  let e := n.exponent - n.fraction.length
  let limit := Nat.pow 2 1024 - Nat.pow 2 970
  if digits = 0 then true
  else if 400 < e then false
  else if 0 ≤ e then decide (digits * Nat.pow 10 e.toNat < limit)
  else if digits.log2 / 3 + 1 < (-e).toNat then true
  else decide (digits < limit * Nat.pow 10 (-e).toNat)

/-- The text stands for a number that is no integer, or for infinity or no number. -/
def isReal (cs : List Char) : Bool :=
  let unpositive := dropPlus cs
  let signed (s : String) := unpositive == s.toList
  let exactly (s : String) := cs == s.toList
  if cs.head? == some '+' && unpositive.head?.any (fun c => c == '+' || c == '-') then false
  else
    [".inf", ".Inf", ".INF"].any signed
      || ["-.inf", "-.Inf", "-.INF", ".nan", ".NaN", ".NAN"].any exactly
      || match numeral? (dropSign unpositive) with
        | some n => n.isFinite
        | none => false

/-! ### Ambiguity -/

/-- The text stands for a number. -/
def isNumber (cs : List Char) : Bool :=
  (unsigned? 128 cs).isSome || (negative? 127 cs).isSome || (!hasLeadingZero cs && isReal cs)

/-- Without quotes the text would not, or not for every reader, stand for itself. -/
def isAmbiguous (cs : List Char) : Bool :=
  isNull cs || (boolean? cs).isSome || isNumber cs || hasLeadingZero cs

end CidrCover.Yaml
