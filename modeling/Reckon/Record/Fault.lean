import Reckon.Operator
import Reckon.Text.Decimal

/-!
# Faults of a record

Checking a record reports everything that is wrong with it, field by field. A
fault says where it lies (a field, and in a list the index of the item) and what
the cause is. A rule about the record as a whole lies nowhere in particular.
-/

namespace Reckon

/-- One step on the way to a value inside a record. -/
inductive Place where
  | field (name : Text)
  | item (index : Nat)
deriving DecidableEq, Repr

/-- What is wrong with a value. -/
inductive Fault.Cause where
  | missing
  | notInteger
  | unreadableInteger
  | integerTooLong
  | fractional
  | notFinite
  | belowMinimum (least : Int)
  | notText
  | notList
  | tooShort (least actual : Nat)
  | notOperator
  | notPath
  | noSuchFile
  | rule (message : Text)
deriving DecidableEq, Repr

structure Fault where
  place : List Place
  cause : Fault.Cause
deriving DecidableEq, Repr

namespace Fault

def Cause.name : Cause → Text
  | missing => "missing".toList
  | notInteger => "int_type".toList
  | unreadableInteger => "int_parsing".toList
  | integerTooLong => "int_parsing_size".toList
  | fractional => "int_from_float".toList
  | notFinite => "finite_number".toList
  | belowMinimum _ => "greater_than_equal".toList
  | notText => "string_type".toList
  | notList => "list_type".toList
  | tooShort .. => "too_short".toList
  | notOperator => "enum".toList
  | notPath => "path_type".toList
  | noSuchFile => "path_not_file".toList
  | rule _ => "value_error".toList

/-- The operator symbols in quotes, as a list in words. -/
def symbolsInWords : Text :=
  "'+', '-', '*' or '/'".toList

def Cause.message : Cause → Text
  | missing => "Field required".toList
  | notInteger => "Input should be a valid integer".toList
  | unreadableInteger =>
    "Input should be a valid integer, unable to parse string as an integer".toList
  | integerTooLong =>
    "Unable to parse input string as an integer, exceeded maximum size".toList
  | fractional => "Input should be a valid integer, got a number with a fractional part".toList
  | notFinite => "Input should be a finite number".toList
  | belowMinimum least =>
    "Input should be greater than or equal to ".toList ++ Decimal.ofInt least
  | notText => "Input should be a valid string".toList
  | notList => "Input should be a valid list".toList
  | tooShort least actual =>
    "List should have at least ".toList ++ Decimal.ofNat least
      ++ (if least = 1 then " item".toList else " items".toList)
      ++ " after validation, not ".toList ++ Decimal.ofNat actual
  | notOperator => "Input should be ".toList ++ symbolsInWords
  | notPath => "Input is not a valid path for <class 'pathlib.Path'>".toList
  | noSuchFile => "Path does not point to a file".toList
  | rule message => "Value error, ".toList ++ message

/-- The fault, seen from one place further out. -/
def under (p : Place) (f : Fault) : Fault :=
  { f with place := p :: f.place }

/-- The heading over the faults of a record of the given kind. -/
def heading (count : Nat) (kind : Text) : Text :=
  Decimal.ofNat count ++ " validation error".toList ++ (if count = 1 then [] else ['s'])
    ++ " for ".toList ++ kind

/-- A fault of the value at hand. -/
def here (cause : Cause) : Fault := ⟨[], cause⟩

end Fault

/-- A value, or everything that is wrong with it. -/
abbrev Checked (α : Type) := Except (List Fault) α

namespace Checked

variable {α β : Type}

/-- Both values, or the faults of both in this order. -/
def both (x : Checked α) (y : Checked β) : Checked (α × β) :=
  match x, y with
  | .ok a, .ok b => .ok (a, b)
  | .ok _, .error gs => .error gs
  | .error fs, .ok _ => .error fs
  | .error fs, .error gs => .error (fs ++ gs)

/-- A single fault of the value at hand. -/
def fault (cause : Fault.Cause) : Checked α :=
  .error [Fault.here cause]

/-- The faults, seen from one place further out. -/
def under (p : Place) : Checked α → Checked α
  | .ok a => .ok a
  | .error fs => .error (fs.map (Fault.under p))

end Checked

end Reckon
