import ScopeLisp.Binary32.Rounding

/-!
# Decimal text

## Numerals

A numeral is a word of ASCII digits with at most one dot and at least one
digit.  It is read exactly and rounded once.

## Shortest digits

A finite number is written on the coarsest grid of multiples of a power of ten
that holds a decimal reading back to it.  Only the two neighbours of the value
on a grid can read back, so each grid is decided by two readings.  On the grid
of `10 ^ (-149)` every finite number lies exactly, so the search always ends.
No exponent is ever written.
-/

namespace ScopeLisp

/-- The decimal fraction `coefficient * 10 ^ exponent`. -/
structure Decimal where
  coefficient : Nat
  exponent : Int
deriving DecidableEq

namespace Decimal

/-!
# Writing a decimal out

A decimal is written in full, with zeros in place of an exponent and a dot
before a fraction.
-/

def tenPow (n : Nat) : Nat := Nat.pow 10 n

def paddedDigits : (width : Nat) → (n : Nat) → List Char
  | 0, _ => []
  | width + 1, n => paddedDigits width (n / 10) ++ [Nat.digitChar (n % 10)]

def positional (d : Decimal) : List Char :=
  let places := (-d.exponent).toNat
  if places = 0 then
    Nat.toDigits 10 (d.coefficient * tenPow d.exponent.toNat)
  else
    Nat.toDigits 10 (d.coefficient / tenPow places) ++
      '.' :: paddedDigits places (d.coefficient % tenPow places)

/-!
# Reading a numeral

The decimal that a numeral spells has its digits as coefficient, and the number
of digits behind the dot gives the exponent.
-/

def ofNumeral? (word : List Char) : Option Decimal :=
  let whole := word.takeWhile (· != '.')
  let fraction := (word.dropWhile (· != '.')).drop 1
  let digits := whole ++ fraction
  if digits.all Char.isDigit && !digits.isEmpty then
    some ⟨Nat.ofDigitChars 10 digits 0, -(fraction.length : Int)⟩
  else
    none

theorem length_paddedDigits (width n : Nat) :
    (paddedDigits width n).length = width := by
  induction width generalizing n with
  | zero =>
      rfl
  | succ width ih =>
      simp [paddedDigits, ih]

end Decimal

namespace Binary32

/-!
# The shortest decimal of a number

The grids are tried from the coarsest one on, and the first one that holds a
decimal reading back decides.
-/

def ofDecimal (d : Decimal) : Binary32 :=
  nearest false
    (d.coefficient * Decimal.tenPow d.exponent.toNat * unitsPerOne)
    (Decimal.tenPow (-d.exponent).toNat)

/--
The decimal on the grid of multiples of `10 ^ exponent` that reads back to the
size of `x`.  Of two such neighbours the nearer one is taken, and the upper one
when both are equally near.
-/
def decimalOnGrid (x : Binary32) (exponent : Int) : Option Decimal :=
  let n := x.units * Decimal.tenPow (-exponent).toNat
  let d := unitsPerOne * Decimal.tenPow exponent.toNat
  let below : Decimal := ⟨n / d, exponent⟩
  let above : Decimal := ⟨n / d + 1, exponent⟩
  if ofDecimal below = x.abs then
    if ofDecimal above = x.abs ∧ d ≤ 2 * (n % d) then some above else some below
  else if ofDecimal above = x.abs then some above
  else none

def gridExponents : List Int :=
  (List.range 188).map fun (step : Nat) => (38 : Int) - step

def shortestDecimal (x : Binary32) : Option Decimal :=
  gridExponents.findSome? (decimalOnGrid x)

/-!
# The text of a number

A minus sign stands before the size of a number when its sign bit is set.  The
text of a NaN has no sign.
-/

def magnitudeChars (x : Binary32) : List Char :=
  if x.isInfinite then ['i', 'n', 'f']
  else
    match shortestDecimal x with
    | some d => d.positional
    | none => []

def chars (x : Binary32) : List Char :=
  if x.isNaN then ['N', 'a', 'N']
  else if x.isNegative then '-' :: x.magnitudeChars
  else x.magnitudeChars

def toText (x : Binary32) : String :=
  String.ofList x.chars

/-!
# Reading a number

Besides a numeral, the texts `inf` and `NaN` are read.  A minus sign is
optional.
-/

def ofNumeral? (word : List Char) : Option Binary32 :=
  (Decimal.ofNumeral? word).map ofDecimal

def ofUnsigned? (word : List Char) : Option Binary32 :=
  if word = ['i', 'n', 'f'] then some (infinity false)
  else if word = ['N', 'a', 'N'] then some nan
  else ofNumeral? word

def ofChars? : List Char → Option Binary32
  | '-' :: rest => (ofUnsigned? rest).map neg
  | word => ofUnsigned? word

end Binary32
end ScopeLisp
