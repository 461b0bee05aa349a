import CidrCover.Text.Basic

/-!
# Double precision by exact arithmetic

`Binary64` holds the non-negative finite doubles as `mantissa · 2 ^ exponent` with a mantissa of
53 bits, or zero. `ofRatio` is the double nearest to a ratio of natural numbers, and of two
nearest ones the one with the even mantissa; conversion, quotient and product are defined by it,
so each of them rounds once. The ratios that arise here are zero or lie between `2 ^ -64` and
`2 ^ 71`, so no result is subnormal or overflows. `toBits` is the interchange encoding, and
`twoPlaces` writes the exact value rounded to two decimal places, ties to even.
-/

namespace CidrCover

/-- A quotient rounded to the nearest number, ties to the even one. -/
def roundDiv (num den : Nat) : Nat :=
  let q := num / den
  let r := num % den
  if den < 2 * r ∨ (2 * r = den ∧ q % 2 = 1) then q + 1 else q

/-- The double `mantissa · 2 ^ exponent`. -/
structure Binary64 where
  mantissa : Nat
  exponent : Int
  deriving DecidableEq, Repr

namespace Binary64

/-- Zero. -/
def zero : Binary64 := ⟨0, 0⟩

/-- The ratio `num / den · 2 ^ -e` as a numerator and a denominator. -/
def scaled (num den : Nat) (e : Int) : Nat × Nat :=
  (num * Nat.pow 2 (-e).toNat, den * Nat.pow 2 e.toNat)

/-- The exponent at which the mantissa of a positive ratio has 53 bits before it is rounded. -/
def exponentOf (num den : Nat) : Int :=
  let low : Int := (num.log2 : Int) - (den.log2 : Int) - 53
  let (n, d) := scaled num den low
  if d * Nat.pow 2 53 ≤ n then low + 1 else low

/-- The double nearest to `num / den`, where `den` is positive. -/
def ofRatio (num den : Nat) : Binary64 :=
  if num = 0 then zero
  else
    let e := exponentOf num den
    let (n, d) := scaled num den e
    let m := roundDiv n d
    if m = Nat.pow 2 53 then ⟨Nat.pow 2 52, e + 1⟩ else ⟨m, e⟩

/-- The exact value as a ratio. -/
def toRatio (x : Binary64) : Nat × Nat :=
  (x.mantissa * Nat.pow 2 x.exponent.toNat, Nat.pow 2 (-x.exponent).toNat)

/-- The double nearest to a natural number. -/
def ofNat (n : Nat) : Binary64 :=
  ofRatio n 1

/-- The double nearest to the quotient. -/
def div (x y : Binary64) : Binary64 :=
  let (a, b) := x.toRatio
  let (c, d) := y.toRatio
  ofRatio (a * d) (b * c)

/-- The double nearest to the product. -/
def mul (x y : Binary64) : Binary64 :=
  let (a, b) := x.toRatio
  let (c, d) := y.toRatio
  ofRatio (a * c) (b * d)

/-- The interchange encoding: eleven bits of biased exponent over 52 bits of fraction. -/
def toBits (x : Binary64) : Nat :=
  if x.mantissa = 0 then 0
  else (x.exponent + 1075).toNat * Nat.pow 2 52 + (x.mantissa - Nat.pow 2 52)

/-- The exact value rounded to two decimal places. -/
def twoPlaces (x : Binary64) : List Char :=
  let (a, b) := x.toRatio
  let hundredths := roundDiv (a * 100) b
  Text.numeral (hundredths / 100) ++
    '.' :: (Text.numeral (hundredths / 10 % 10) ++ Text.numeral (hundredths % 10))

end Binary64

end CidrCover
