import Reckon.Expression
import Reckon.Record.Field

/-!
# Expressions as records

An expression can be given as a record of its operands and its operations. Both
lists are checked by themselves first; only if nothing is wrong with either is
their balance checked.
-/

namespace Reckon.Expression

/-- Pair operands with operations, if there are enough of both. -/
def ofLists (operands : List Int) (operations : List Operator) : Checked Expression :=
  if h : operations ≠ [] ∧ operands.length = operations.length + 1 then
    .ok ⟨operands, operations, h.1, h.2⟩
  else
    Checked.fault (.rule ("Expected ".toList ++ Decimal.ofNat (operations.length + 1)
      ++ " operands for ".toList ++ Decimal.ofNat operations.length
      ++ " operations, got ".toList ++ Decimal.ofNat operands.length))

def ofRecord (r : Record) : Checked Expression :=
  let operands := r.required "operands".toList (Record.Reader.list 2 Record.Reader.integer)
  let operations := r.required "operations".toList (Record.Reader.list 1 Record.Reader.operator)
  match operands.both operations with
  | .ok (xs, ops) => ofLists xs ops
  | .error fs => .error fs

end Reckon.Expression
