import Reckon.Text.Basic

/-!
# Decimal text

Numbers are read and written in decimal. The number of digits is limited on both
sides: a numeral of more than `digitLimit` digits, leading zeros counted, is not
read, and a number of more than `digitLimit` digits is not written. Between
reading and writing numbers may be of any size.
-/

namespace Reckon.Decimal

/-- The most digits a numeral may have. -/
def digitLimit : Nat := 4300

def ofNat (n : Nat) : Text :=
  Nat.toDigits 10 n

/-- An integer in decimal, with a minus sign if it is negative. -/
def ofInt : Int → Text
  | .ofNat n => ofNat n
  | .negSucc n => '-' :: ofNat (n + 1)

/-- The number a run of decimal digits stands for. -/
def value (digits : Text) : Nat :=
  Nat.ofDigitChars 10 digits 0

/-- The integer has few enough digits to be written. -/
def IsWritable (n : Int) : Prop :=
  n.natAbs < Nat.pow 10 digitLimit

instance (n : Int) : Decidable (IsWritable n) :=
  inferInstanceAs (Decidable (n.natAbs < Nat.pow 10 digitLimit))

/-- The number of bits of the absolute value; zero has none. -/
def bitLength (n : Int) : Nat :=
  if n = 0 then 0 else n.natAbs.log2 + 1

end Reckon.Decimal
