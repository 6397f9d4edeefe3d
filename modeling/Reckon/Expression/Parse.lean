import Reckon.Expression
import Reckon.Logged
import Reckon.Rejection
import Reckon.Token

/-!
# Reading an expression

The tokens of an expression alternate: an operand, an operator, an operand, and
so on to an operand. `scan` walks them once and stops at the first token that is
out of turn, illegal or too long; what it collects on the way always pairs up
(`length_of_scan_operand`), which is the reason why a scan that reaches the end
yields an expression. The tokens are logged before any of this.
-/

namespace Reckon.Expression

/-- What the scan waits for. -/
inductive Awaited where
  | operand
  | operator
deriving DecidableEq, Repr

/-- Walk the tokens of the text `e`, collecting operands and operations. -/
def scan (e : Text) : Awaited → List Token → Except Rejection (List Int × List Operator)
  | .operand, [] => .error (.trailingOperator e)
  | .operator, [] => .ok ([], [])
  | .operand, .operand digits :: ts =>
    if digits.length ≤ Decimal.digitLimit then
      (scan e .operator ts).map fun (xs, ops) => ((Decimal.value digits : Int) :: xs, ops)
    else .error (.operandTooLong digits.length e)
  | .operator, .operand digits :: _ => .error (.missingOperator digits e)
  | .operand, .operator op :: _ => .error (.missingOperand op e)
  | .operator, .operator op :: ts =>
    match Operator.resolve [op.symbol] with
    | .ok op => (scan e .operand ts).map fun (xs, ops) => (xs, op :: ops)
    | .error r => .error r
  | _, .other c :: _ => .error (.invalidCharacter c (e.idxOf c) e)

/-- The symbol of an operator is always resolved. -/
theorem scan_operator (e : Text) (op : Operator) (ts : List Token) :
    scan e .operator (.operator op :: ts)
      = (scan e .operand ts).map fun (xs, ops) => (xs, op :: ops) := by
  rw [scan, Operator.resolve_symbol]

/-- Between two operands the scan collects as many of the one as of the other;
before an operand it is one operand ahead. -/
theorem length_of_scan {e : Text} {a : Awaited} {ts : List Token} {xs : List Int}
    {ops : List Operator} (h : scan e a ts = .ok (xs, ops)) :
    xs.length = ops.length + (if a = .operand then 1 else 0) := by
  induction ts generalizing a xs ops with
  | nil => cases a <;> simp [scan] at h ⊢; simp [h]
  | cons t ts ih =>
    cases a <;> cases t <;> simp only [scan, Operator.resolve_symbol] at h <;> try contradiction
    case operand.operand digits =>
      split at h
      · cases hs : scan e .operator ts with
        | error r => simp [hs, Except.map] at h
        | ok p =>
          simp only [hs, Except.map, Except.ok.injEq, Prod.mk.injEq] at h
          obtain ⟨rfl, rfl⟩ := h
          simpa using ih hs
      · contradiction
    case operator.operator op =>
      cases hs : scan e .operand ts with
      | error r => simp [hs, Except.map] at h
      | ok p =>
        simp only [hs, Except.map, Except.ok.injEq, Prod.mk.injEq] at h
        obtain ⟨rfl, rfl⟩ := h
        simpa using ih hs

/-- A scan from the beginning collects one operand more than operations. -/
theorem length_of_scan_operand {e : Text} {ts : List Token} {xs : List Int} {ops : List Operator}
    (h : scan e .operand ts = .ok (xs, ops)) : xs.length = ops.length + 1 := by
  simpa using length_of_scan h

/-- The expression that the tokens of the text `e` make up. -/
def ofTokens (e : Text) (ts : List Token) : Except Rejection Expression :=
  if ts.any Token.isOperand then
    match h : scan e .operand ts with
    | .error r => .error r
    | .ok (_, []) => .error (.noOperator e)
    | .ok (xs, op :: ops) => .ok ⟨xs, op :: ops, by simp, length_of_scan_operand h⟩
  else .error (.noOperand e)

def tokensEntry (e : Text) (ts : List Token) : Log.Entry :=
  ⟨.debug, "🔎 Tokens for ".toList ++ Text.quoted e ++ ": ".toList
    ++ Text.quotedList (ts.map Token.text)⟩

/-- Read a text as an expression. -/
def parsing (e : Text) : Logged Rejection Expression := do
  let ts := tokenize e
  Logged.write fun _ => [tokensEntry e ts]
  Logged.quiet (ofTokens e ts)

def parse (e : Text) : Except Rejection Expression :=
  (parsing e).result

theorem parse_eq (e : Text) : parse e = ofTokens e (tokenize e) := rfl

end Reckon.Expression
