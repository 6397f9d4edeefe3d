import Reckon.Record.Fault
import Reckon.Record.Value
import Reckon.Text.Numeral

/-!
# Reading fields

A reader takes a field value to a checked value. Integers may be given as
numbers without a fractional part, as truth values, or as numerals in a text; a
number that is not written as an integer has to fit into 64 bits with a sign.
Texts, lists and operators are taken only as such. A list reports the faults of
its items, and its length only if no item is at fault.

The reading of single values, and the writing of a record from the fields of what it is
about, are the part of a library. What the program declares about its own records (which
fields there are, which may be absent, the least value of a number) is kept apart from it,
so that it can be said for any such library.
-/

namespace Reckon.Record

variable {α : Type}

/-- How a field value is read. -/
abbrev Reader (α : Type) := Value → Checked α

namespace Reader

/-- The magnitude that an integer given as a real has to stay below. -/
def realLimit : Nat := Nat.pow 2 63

/-- A real that is an integer. -/
def wholeReal (x : Binary64) : Checked Int :=
  match x with
  | .notFinite => Checked.fault .notFinite
  | .finite _ =>
    match x.integer? with
    | none => Checked.fault .fractional
    | some n => if n.natAbs < realLimit then .ok n else Checked.fault .integerTooLong

def integer : Reader Int
  | .bool b => .ok (if b then 1 else 0)
  | .integer n => .ok n
  | .real x => wholeReal x
  | .text t =>
    match Numeral.readField t with
    | .number n => .ok n
    | .tooLong => Checked.fault .integerTooLong
    | .unreadable => Checked.fault .unreadableInteger
  | _ => Checked.fault .notInteger

/-- A positive integer, as the natural number it is. -/
def positiveBy (integer : Reader Int) : Reader Positive := fun v =>
  match integer v with
  | .ok n =>
    if h : 0 < n.toNat then .ok ⟨n.toNat, h⟩ else Checked.fault (.belowMinimum 1)
  | .error fs => .error fs

def positive : Reader Positive := positiveBy integer

def text : Reader Text
  | .text t => .ok t
  | _ => Checked.fault .notText

/-- An operator, given by its symbol. -/
def operator : Reader Operator
  | .text t =>
    match Operator.ofText? t with
    | some op => .ok op
    | none => Checked.fault .notOperator
  | _ => Checked.fault .notOperator

/-- The items of a list, the first of which has the given index. -/
def itemsFrom (item : Reader α) (index : Nat) : List Value → Checked (List α)
  | [] => .ok []
  | v :: vs =>
    (((item v).under (.item index)).both (itemsFrom item (index + 1) vs)).map fun (a, as) => a :: as

/-- A list with a least number of items. -/
def list (least : Nat) (item : Reader α) : Reader (List α)
  | .list vs =>
    match itemsFrom item 0 vs with
    | .ok as =>
      if as.length < least then Checked.fault (.tooShort least as.length) else .ok as
    | .error fs => .error fs
  | _ => Checked.fault .notList

end Reader

/-- Read a field that has to be there. -/
def required (r : Record) (name : Text) (reader : Reader α) : Checked α :=
  match r.get? name with
  | some v => (reader v).under (.field name)
  | none => .error [⟨[.field name], .missing⟩]

/-- Read a field that may be absent or null. -/
def optional (r : Record) (name : Text) (reader : Reader α) : Checked (Option α) :=
  match r.get? name with
  | some .null | none => .ok none
  | some v => ((reader v).under (.field name)).map some

/-- A record without its fields that are null. -/
def withoutNulls (r : Record) : Record :=
  r.filter fun field => !field.2.isNull

/-- A library for records: how it reads integers and texts, and what it writes of the
fields of something that it has checked. -/
structure Library where
  integer : Reader Int
  text : Reader Text
  write : Record → Record

/-- The library that reads integers and texts as said above, and leaves nulls out. -/
def Library.standard : Library := ⟨Reader.integer, Reader.text, withoutNulls⟩

end Reckon.Record
