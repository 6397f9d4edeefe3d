import Reckon.Expression
import Reckon.Logged
import Reckon.Rejection

/-!
# Evaluation

Operations are applied strictly in the order of the text, each to the value so
far and the next operand, and each leaves an entry in the log once it has been applied.
`folding` does that for operations that already have their operands beside them;
`evaluating` first checks that the two lists fit. `fold` and `evaluate` are what they
come to.
-/

namespace Reckon

namespace Operator

/-- The operators of a list of symbols, or the first symbol that is none. -/
def ofTexts : List Text → Except Text (List Operator)
  | [] => .ok []
  | symbol :: rest =>
    match ofText? symbol with
    | some op => (ofTexts rest).map (op :: ·)
    | none => .error symbol

/-- The message for a symbol in a list of operations that is no operator. -/
def invalidMessage (symbol : Text) : Text :=
  Text.quoted symbol ++ " is not a valid Operation".toList

/-- Combine a value with an operand, or fail on a division by zero. -/
def apply (op : Operator) (a b : Int) : Except Failure Int :=
  match op.combine a b with
  | some v => .ok v
  | none => .error (.ofZeroDivision a)

end Operator

/-- One step that was carried out: the operation, its operand, and the value
after it. -/
structure Step where
  operator : Operator
  operand : Int
  value : Int
deriving DecidableEq, Repr

/-- The entry that shows a step. A value that cannot be written leaves no entry. -/
def Step.entry? (s : Step) : Option Log.Entry :=
  if Decimal.IsWritable s.operand ∧ Decimal.IsWritable s.value then
    some ⟨.debug, "🧮 ".toList ++ [s.operator.symbol, ' '] ++ Decimal.ofInt s.operand
      ++ " -> ".toList ++ Decimal.ofInt s.value⟩
  else none

namespace Evaluation

/-- Apply all operations, from a first value on. -/
def folding (a : Int) : List (Operator × Int) → Logged Failure Int
  | [] => pure a
  | (op, b) :: rest => do
    let v ← Logged.quiet (op.apply a b)
    Logged.write fun _ => (Step.entry? ⟨op, b, v⟩).toList
    folding v rest

/-- The value after all operations, from a first value on. -/
def fold (a : Int) (ss : List (Operator × Int)) : Except Failure Int :=
  (folding a ss).result

theorem fold_nil (a : Int) : fold a [] = .ok a := rfl

theorem fold_cons (a : Int) (op : Operator) (b : Int) (rest : List (Operator × Int)) :
    fold a ((op, b) :: rest) = match op.apply a b with
      | .ok v => fold v rest
      | .error f => .error f := by
  simp only [fold, folding, Logged.result_bind, Logged.result_quiet, Logged.result_write]
  cases op.apply a b <;> rfl

/-- Resolve a symbol and apply the operator. -/
def applySymbol (symbol : Text) (a b : Int) : Except Failure Int :=
  match Operator.resolve symbol with
  | .ok op => op.apply a b
  | .error r => .error (.rejected r)

/-- What each of a series of steps comes to. A step that fails leaves the value
as it was. -/
def reports (a : Int) : List (Text × Int) → List (Except Failure Int)
  | [] => []
  | (symbol, b) :: rest =>
    match applySymbol symbol a b with
    | .ok v => .ok v :: reports v rest
    | .error f => .error f :: reports a rest

/-- Evaluate operands with operations between them. -/
def evaluating (operands : List Int) (operations : List Operator) : Logged Failure Int :=
  match operands with
  | [] => .quiet (.error (.rejected .nothingToEvaluate))
  | a :: rest =>
    if operations.length < rest.length then
      .quiet (.error (.rejected (.surplusOperands operands.length operations.length)))
    else if rest.length < operations.length then
      .quiet (.error (.rejected (.surplusOperations operations.length operands.length)))
    else folding a (operations.zip rest)

/-- The value of operands with operations between them. -/
def evaluate (operands : List Int) (operations : List Operator) : Except Failure Int :=
  (evaluating operands operations).result

end Evaluation

namespace Expression

def evaluating (x : Expression) : Logged Failure Int :=
  Evaluation.evaluating x.operands x.operations

/-- The value of an expression. -/
def evaluate (x : Expression) : Except Failure Int :=
  x.evaluating.result

theorem evaluate_eq (x : Expression) :
    x.evaluate = Evaluation.evaluate x.operands x.operations := rfl

end Expression

end Reckon
