import Reckon.Text.Numeral

/-!
# Binary numbers of 64 bits

A number that is not written as an integer is kept in the binary64 format: 53
binary digits, and exponents down to that of the least positive number, which is
`2 ^ (-1074)`. Every finite number is a whole multiple of it. A decimal fraction
becomes the nearest number of the format, and of two equally near ones the one
whose last digit is even.
-/

namespace Reckon

/-- A number of the format. A finite one is given as a multiple of `2 ^ (-1074)`. -/
inductive Binary64 where
  | finite (units : Int)
  | notFinite
deriving DecidableEq, Repr

namespace Binary64

/-- The units in the number one. -/
def unitsInOne : Nat := Nat.pow 2 1074

/-- The first number of units beyond all finite numbers: those in `2 ^ 1024`. -/
def unitsLimit : Nat := Nat.pow 2 2098

def precision : Nat := 53

/-- The quotient rounded to the nearest whole number, a tie to the even one. -/
def roundedQuotient (n d : Nat) : Nat :=
  let twice := 2 * (n % d)
  if twice < d ∨ (twice = d ∧ n / d % 2 = 0) then n / d else n / d + 1

/-- The units of the number nearest to `n / d` units: a multiple of the power of two
that leaves as many binary digits as a number has. -/
def nearestUnits (n d : Nat) : Nat :=
  let step := Nat.pow 2 ((n / d).log2 + 1 - precision)
  roundedQuotient n (d * step) * step

/-- The units of the number nearest to `n * 10 ^ exponent`. -/
def decimalUnits (n : Nat) : Int → Nat
  | .ofNat exponent => nearestUnits (n * Nat.pow 10 exponent * unitsInOne) 1
  | .negSucc exponent => nearestUnits (n * unitsInOne) (Nat.pow 10 (exponent + 1))

/-- The number nearest to a decimal. Exponents far out of range are settled at once:
`10 ^ 309` is beyond all finite numbers, and `10 ^ (-325)` rounds to zero. -/
def ofDecimal (negative : Bool) (n : Nat) (exponent : Int) : Binary64 :=
  if n = 0 ∨ exponent + (n.log2 + 1) < -325 then finite 0
  else if 309 ≤ exponent then notFinite
  else
    let units := decimalUnits n exponent
    if units < unitsLimit then finite (Numeral.signed negative units) else notFinite

/-- The integer a number is, if it is one. -/
def integer? : Binary64 → Option Int
  | finite units => if units % unitsInOne = 0 then some (units / unitsInOne) else none
  | notFinite => none

end Binary64

end Reckon
