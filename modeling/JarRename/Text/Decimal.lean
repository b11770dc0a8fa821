/-!
**Decimal numerals.**

A numeral is held as a significand of 64 bits times a power of ten; digits that do not fit into the
significand only count. Its value is worked out in floating point with 53 bits: the significand, the power
and their product are each rounded to the nearest number of 53 bits, halfway to the even one.

* `Decimal.ofDigits`: the numeral of digits before and after the point and of an exponent;
* `Decimal.rounded`: a number rounded to 53 bits;
* `Decimal.isFinite`: whether the value stays in the range of the floating point numbers.
-/

namespace JarRename.Text

/-- A numeral: its significand times a power of ten. -/
structure Decimal where
  significand : Nat
  exponent : Int
  deriving DecidableEq

namespace Decimal

/-- The least number that does not fit into a significand. -/
def limit : Nat := 18446744073709551616

/-- A number with digits behind it as long as they fit into a significand, and the digits left over. -/
def keep (value : Nat) : List Char → Nat × List Char
  | [] => (value, [])
  | c :: rest =>
    let next := value * 10 + (c.toNat - 48)
    if next < limit then keep next rest else (value, c :: rest)

/-- The number that digits stand for. -/
def numberOf (digits : List Char) : Nat :=
  digits.foldl (fun value c => value * 10 + (c.toNat - 48)) 0

/-- The numeral of the digits before and after the point, and of an exponent. -/
def ofDigits (whole fraction : List Char) (exponent : Int) : Decimal :=
  let (front, missing) := keep 0 whole
  let (significand, ignored) := keep front fraction
  { significand
    exponent := exponent + missing.length - (fraction.length - ignored.length : Nat) }

/-- A number rounded to its 53 leading bits, halfway to the even one. -/
def rounded (n : Nat) : Nat :=
  let unit := Nat.pow 2 (n.log2 + 1 - 53)
  let kept := n / unit
  let rest := 2 * (n % unit)
  let isUp := unit < rest || (rest == unit && kept % 2 == 1)
  (if isUp then kept + 1 else kept) * unit

/-- The least number that is rounded beyond the floating point numbers: halfway from the greatest of them to
the next power of two. -/
def overflow : Nat :=
  (Nat.pow 2 54 - 1) * Nat.pow 2 970

/-- The greatest power of ten among the floating point numbers. -/
def maxExponent : Nat := 308

/-- Whether the value of a numeral is in the range of the floating point numbers. Small ones are zero. -/
def isFinite (numeral : Decimal) : Bool :=
  numeral.significand == 0 || numeral.exponent < 0 ||
    (numeral.exponent ≤ maxExponent &&
      rounded numeral.significand * rounded (Nat.pow 10 numeral.exponent.toNat) < overflow)

end Decimal

end JarRename.Text
