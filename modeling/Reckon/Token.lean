import Reckon.Operator

/-!
# Tokens

A token is a maximal run of digits, an operator, or any other single character
except the space. Spaces only separate: outside a number they make no
difference. `tokenize` reads the text from its right end, so that a digit either
joins the run that begins right after it or opens a run of its own.
-/

namespace Reckon

inductive Token where
  | operand (digits : Text)
  | operator (op : Operator)
  | other (c : Char)
deriving DecidableEq, Repr

namespace Token

/-- The token of a single character that is neither a digit nor a space. -/
def ofChar (c : Char) : Token :=
  match Operator.ofChar? c with
  | some op => operator op
  | none => other c

def text : Token → Text
  | operand digits => digits
  | operator op => [op.symbol]
  | other c => [c]

def isOperand : Token → Bool
  | operand _ => true
  | _ => false

/-- Put a digit in front of tokens; `joins` tells whether a digit comes right
after it in the text. -/
def consDigit (c : Char) (joins : Bool) : List Token → List Token
  | operand digits :: ts =>
    if joins then operand (c :: digits) :: ts else operand [c] :: operand digits :: ts
  | ts => operand [c] :: ts

end Token

def Text.startsWithDigit : Text → Bool
  | c :: _ => c.isDigit
  | [] => false

/-- The tokens of a text, from left to right. -/
def tokenize : Text → List Token
  | [] => []
  | c :: t =>
    if c = ' ' then tokenize t
    else if c.isDigit then Token.consDigit c (Text.startsWithDigit t) (tokenize t)
    else Token.ofChar c :: tokenize t

/-- The text is a number: one or more digits and nothing else. -/
def Text.isOperand (t : Text) : Bool :=
  t ≠ [] && t.all Char.isDigit

end Reckon
