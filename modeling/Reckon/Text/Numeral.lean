import Reckon.Text.Blank
import Reckon.Text.Decimal
import Reckon.Text.DigitValue

/-!
# Numerals with signs and groups

Two places take numbers as people write them: the worker limit on the command
line and the integer fields of a record. Both allow white space around the
numeral, a sign, leading zeros, and single underscores between digits. The
command line takes the digits of any script.

A record takes ASCII digits, in two attempts. A plain numeral is read as it
stands, and may be found too long. Any other text is tidied first: white space,
the sign, zeros in front, a fraction of zeros and underscores are taken off, and
what is left has to be a plain numeral within the limit. Among the zeros in front
any underscores may stand, and a minus sign may end them.
-/

namespace Reckon.Numeral

/-- The values of a run of digits, in which single underscores may stand between
two digits. -/
def groupedDigits? (value? : Char → Option Nat) : Text → Option (List Nat)
  | [] => none
  | [c] => (value? c).map ([·])
  | c :: '_' :: t => do return (← value? c) :: (← groupedDigits? value? t)
  | c :: t => do return (← value? c) :: (← groupedDigits? value? t)

/-- The number with the given decimal digits, most significant first. -/
def ofDigits (ds : List Nat) : Nat :=
  ds.foldl (fun n d => n * 10 + d) 0

/-- The value of an ASCII digit. -/
def asciiDigit (c : Char) : Nat :=
  c.toNat - '0'.toNat

/-- Split off a sign: whether it is a minus, and the rest. -/
def splitSign : Text → Bool × Text
  | '-' :: t => (true, t)
  | '+' :: t => (false, t)
  | t => (false, t)

/-- A magnitude with a sign. -/
def signed (negative : Bool) (n : Nat) : Int :=
  if negative then -(n : Int) else n

/-- Read a numeral with the digits of any script. -/
def read? (t : Text) : Option Int :=
  let (negative, digits) := splitSign (Text.trimmedBy Text.isWhiteSpace t)
  match groupedDigits? Text.digitValue? digits with
  | some ds =>
    if ds.length ≤ Decimal.digitLimit then some (signed negative (ofDigits ds)) else none
  | none => none

/-- The outcome of reading an integer field. -/
inductive Reading where
  | number (n : Int)
  | tooLong
  | unreadable
deriving DecidableEq, Repr

/-- Split off a minus sign: whether it is there, and the rest. -/
def splitMinus : Text → Bool × Text
  | '-' :: t => (true, t)
  | t => (false, t)

/-- Read a plain numeral: ASCII digits, none of them a zero in front of others, and
before them at most a minus sign. Too many digits are noticed before anything that
may follow them. -/
def readPlain (t : Text) : Reading :=
  let (negative, t) := splitMinus t
  let digits := t.takeWhile Char.isDigit
  if digits = [] ∨ (digits.head? = some '0' ∧ digits ≠ ['0']) then .unreadable
  else if Decimal.digitLimit < digits.length then .tooLong
  else if digits.length < t.length then .unreadable
  else .number (signed negative (ofDigits (digits.map asciiDigit)))

/-- Skip zeros and underscores after a zero or underscore. The last of them is kept
if a point follows, or nothing at all. -/
def afterZeros? (last : Char) : Text → Option Text
  | [] => some [last]
  | c :: t =>
    if c = '0' ∨ c = '_' then afterZeros? c t
    else if c = '.' then some (last :: c :: t)
    else if c = '-' ∨ c.isDigit then some (c :: t)
    else none

/-- The text without the zeros in front. It has to begin with a digit. -/
def withoutLeadingZeros? : Text → Option Text
  | [] => none
  | c :: t => if c = '0' then afterZeros? c t else if c.isDigit then some (c :: t) else none

/-- The text without a point and the zeros after it, at least one, that may end it. -/
def withoutZeroFraction (t : Text) : Text :=
  let fraction := (t.dropWhile (· ≠ '.')).drop 1
  if fraction ≠ [] ∧ fraction.all (· = '0') then t.takeWhile (· ≠ '.') else t

/-- The text without its underscores, which have to stand alone between others. -/
def withoutUnderscores? (t : Text) : Option Text :=
  let pieces := List.splitOn '_' t
  if [] ∈ pieces then none else some pieces.flatten

/-- What is left of a numeral when everything that does not count is taken off. -/
def tidied? (t : Text) : Option Text := do
  let (negative, t) := splitSign (Text.trimmedBy Text.isWhiteSpace t)
  let t ← withoutUnderscores? (withoutZeroFraction (← withoutLeadingZeros? t))
  return if negative then '-' :: t else t

/-- Read an integer field: as it stands, or else tidied. -/
def readField (t : Text) : Reading :=
  match readPlain t with
  | .unreadable =>
    match (tidied? t).map readPlain with
    | some (.number n) => .number n
    | _ => .unreadable
  | reading => reading

end Reckon.Numeral
