import Reckon.Operator
import Reckon.Text.Decimal
import Reckon.Text.Quoted

/-!
# Rejections

An expression that has no value is rejected for one of a closed list of causes.
A cause carries what its message shows. Several causes share a kind, which is
the name a batch records beside the message.

A failure is a rejection, or the one thing that can go wrong while a rejection
is worded: a division by zero names the dividend, and a dividend with too many
digits cannot be written.
-/

namespace Reckon

/-- Why an expression has no value. -/
inductive Rejection where
  /-- There is no expression, or it is empty. -/
  | missingExpression (given : Option Text)
  /-- A character that is no digit, operator or space. -/
  | invalidCharacter (character : Char) (position : Nat) (expression : Text)
  /-- No token is an operand. -/
  | noOperand (expression : Text)
  /-- An operand stands where an operator is due. -/
  | missingOperator (before expression : Text)
  /-- An operator stands where an operand is due. -/
  | missingOperand (before : Operator) (expression : Text)
  /-- The last token is an operator. -/
  | trailingOperator (expression : Text)
  /-- There is one operand and nothing else. -/
  | noOperator (expression : Text)
  /-- An operand has too many digits to be read. -/
  | operandTooLong (digits : Nat) (expression : Text)
  /-- The list of operands is empty. -/
  | nothingToEvaluate
  /-- There are more operands than the operations take. -/
  | surplusOperands (operands operations : Nat)
  /-- There are more operations than operands to feed them. -/
  | surplusOperations (operations operands : Nat)
  /-- The operand of a division is zero. -/
  | divisionByZero (dividend : Int)
  /-- A symbol is none of the operators. -/
  | unknownOperator (symbol : Text)
  /-- The result has too many digits to be written. -/
  | resultTooLong (bits : Nat) (expression : Text)
deriving DecidableEq, Repr

namespace Rejection

/-- The class a cause belongs to. -/
inductive Kind where
  | emptyOrMissing
  | invalidCharacter
  | missingOperand
  | missingOperator
  | unknownOperator
  | divisionByZero
  | overflow
deriving DecidableEq, Repr

def Kind.name : Kind → Text
  | emptyOrMissing => "EmptyOrMissingExpressionError".toList
  | invalidCharacter => "InvalidCharacterError".toList
  | missingOperand => "MissingOperandError".toList
  | missingOperator => "MissingOperatorError".toList
  | unknownOperator => "UnknownOperatorError".toList
  | divisionByZero => "DivisionByZeroError".toList
  | overflow => "OperandOverflowError".toList

def kind : Rejection → Kind
  | missingExpression _ => .emptyOrMissing
  | invalidCharacter .. => .invalidCharacter
  | noOperand _ | missingOperand .. | trailingOperator _ => .missingOperand
  | nothingToEvaluate | surplusOperations .. => .missingOperand
  | missingOperator .. | noOperator _ | surplusOperands .. => .missingOperator
  | operandTooLong .. | resultTooLong .. => .overflow
  | divisionByZero _ => .divisionByZero
  | unknownOperator _ => .unknownOperator

/-- The expression a cause was found in, where it is known. -/
def expression? : Rejection → Option Text
  | missingExpression given => given
  | invalidCharacter _ _ e | noOperand e | missingOperator _ e | missingOperand _ e
  | trailingOperator e | noOperator e | operandTooLong _ e | resultTooLong _ e => some e
  | nothingToEvaluate | surplusOperands .. | surplusOperations .. | divisionByZero _
  | unknownOperator _ => none

def message : Rejection → Text
  | missingExpression _ => "Expression is missing or empty".toList
  | invalidCharacter c position e =>
    "Invalid character ".toList ++ Text.quoted [c] ++ " at position ".toList
      ++ Decimal.ofNat position ++ ": ".toList ++ Text.quoted e
  | noOperand e => "Expression has no operands: ".toList ++ Text.quoted e
  | missingOperator before e =>
    "Missing operator before ".toList ++ Text.quoted before ++ ": ".toList ++ Text.quoted e
  | missingOperand before e =>
    "Missing operand before operator ".toList ++ Text.quoted [before.symbol] ++ ": ".toList
      ++ Text.quoted e
  | trailingOperator e => "Expression cannot end with an operator: ".toList ++ Text.quoted e
  | noOperator e => "Expression has no operator: ".toList ++ Text.quoted e
  | operandTooLong digits _ =>
    "Operand of ".toList ++ Decimal.ofNat digits ++ " digits is too large to convert".toList
  | nothingToEvaluate => "No operands to evaluate".toList
  | surplusOperands operands operations =>
    Decimal.ofNat operands ++ " operands but only ".toList ++ Decimal.ofNat operations
      ++ " operations".toList
  | surplusOperations operations operands =>
    Decimal.ofNat operations ++ " operations but only ".toList ++ Decimal.ofNat operands
      ++ " operands".toList
  | divisionByZero dividend =>
    "Division by zero: ".toList ++ Decimal.ofInt dividend ++ " / 0".toList
  | unknownOperator symbol => "Unknown operator: ".toList ++ Text.quoted symbol
  | resultTooLong bits _ =>
    "Result of ".toList ++ Decimal.ofNat bits ++ " bits is too large to convert to text".toList

end Rejection

/-- The operator a text stands for, or the rejection of the text. -/
def Operator.resolve (symbol : Text) : Except Rejection Operator :=
  match ofText? symbol with
  | some op => .ok op
  | none => .error (.unknownOperator symbol)

theorem Operator.resolve_symbol (op : Operator) : resolve [op.symbol] = .ok op := by
  rw [resolve, ofText?, ofChar?_symbol]

/-- How a calculation can fail. -/
inductive Failure where
  /-- The expression is rejected. -/
  | rejected (cause : Rejection)
  /-- A number that a message has to show has too many digits to be written. -/
  | numberTooLong
deriving DecidableEq, Repr

namespace Failure

def message : Failure → Text
  | rejected cause => cause.message
  | numberTooLong =>
    ("Exceeds the limit (4300 digits) for integer string conversion; ".toList
      ++ "use sys.set_int_max_str_digits() to increase the limit".toList)

def kindName : Failure → Text
  | rejected cause => cause.kind.name
  | numberTooLong => "ValueError".toList

/-- The failure of dividing a value by zero: its message names the dividend, if
that can be written. -/
def ofZeroDivision (dividend : Int) : Failure :=
  if Decimal.IsWritable dividend then rejected (.divisionByZero dividend) else numberTooLong

end Failure

end Reckon
