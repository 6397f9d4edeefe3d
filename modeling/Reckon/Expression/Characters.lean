import Reckon.Rejection

/-!
# Legal characters

An expression is written with ASCII digits, the four operator symbols and the
ASCII space. The check is made before anything else, and reports the first
character outside that set.
-/

namespace Reckon

/-- A character that may stand in an expression. -/
def isLegal (c : Char) : Bool :=
  c.isDigit || c = ' ' || (Operator.ofChar? c).isSome

/-- The first illegal character of a text and its position, counted from the
given one. -/
def firstIllegal? (position : Nat) : Text → Option (Char × Nat)
  | [] => none
  | c :: t => if isLegal c then firstIllegal? (position + 1) t else some (c, position)

/-- Accept an expression that is present, not empty, and made of legal
characters. -/
def checkCharacters : Option Text → Except Rejection Text
  | none => .error (.missingExpression none)
  | some [] => .error (.missingExpression (some []))
  | some e =>
    match firstIllegal? 0 e with
    | some (c, position) => .error (.invalidCharacter c position e)
    | none => .ok e

end Reckon
