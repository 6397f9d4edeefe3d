import Reckon.Operator
import Reckon.Text.Decimal

/-!
# Expressions

A parsed expression is a list of operands with an operation between every two
neighbours, both in the order of the text. It has at least one operation, hence
at least two operands. Operands of a parsed text are natural numbers, but an
expression may hold any integers.
-/

namespace Reckon

/-- Operands and the operations between them. -/
structure Expression where
  operands : List Int
  operations : List Operator
  operations_ne_nil : operations ≠ []
  length_operands : operands.length = operations.length + 1
deriving DecidableEq

namespace Expression

def first (x : Expression) : Int :=
  match x with
  | ⟨n :: _, _, _, _⟩ => n

/-- Every operation with the operand after it. -/
def steps (x : Expression) : List (Operator × Int) :=
  x.operations.zip x.operands.tail

/-- Each step as an operator and an operand between single spaces. -/
def stepsText : List (Operator × Int) → Text
  | [] => []
  | (op, n) :: ss => ' ' :: op.symbol :: ' ' :: (Decimal.ofInt n ++ stepsText ss)

/-- The canonical text: decimal operands without leading zeros, and one space on
each side of an operator. -/
def render (x : Expression) : Text :=
  Decimal.ofInt x.first ++ stepsText x.steps

end Expression

end Reckon
