import Reckon.Record.Binary64

/-!
# Records

A record is a list of named field values that have not been checked yet. Records
come from requests, from the pipe of a worker and from the command line.
-/

namespace Reckon

/-- A number counted from 1, such as the number of a line. -/
abbrev Positive := { n : Nat // 0 < n }

/-- The value of a field. A number written as an integer is kept apart from one that
is written with a fraction or an exponent. -/
inductive Value where
  | null
  | bool (b : Bool)
  | integer (n : Int)
  | real (x : Binary64)
  | text (t : Text)
  | list (items : List Value)
  | record
deriving Repr

def Value.isNull : Value → Bool
  | null => true
  | _ => false

/-- Field values under their names. -/
abbrev Record := List (Text × Value)

namespace Record

/-- The value of a field, if the record has the field. -/
def get? (r : Record) (name : Text) : Option Value :=
  List.lookup name r

end Record

end Reckon
