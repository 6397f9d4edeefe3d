import Reckon.Evaluation
import Reckon.Expression.Characters
import Reckon.Expression.Parse

/-!
# Calculation

A calculation takes a text through four stages: its characters are checked, it
is read as an expression, the expression is evaluated, and the result is checked
for its length. The first stage that fails decides the failure. Reading, evaluating and
a result that has passed leave entries in the log.
-/

namespace Reckon

namespace Calculation

/-- Accept a result that can be written. -/
def checkResult (e : Text) (v : Int) : Except Failure Int :=
  if Decimal.IsWritable v then .ok v
  else .error (.rejected (.resultTooLong (Decimal.bitLength v) e))

def resultEntry (e : Text) (v : Int) : Log.Entry :=
  ⟨.debug, "✅ ".toList ++ Text.quoted e ++ " = ".toList ++ Decimal.ofInt v⟩

/-- Calculate a text whose characters have been checked. -/
def checked (e : Text) : Logged Failure Int := do
  let x ← (Expression.parsing e).mapError .rejected
  let v ← x.evaluating
  let v ← Logged.quiet (checkResult e v)
  Logged.write fun _ => [resultEntry e v]
  return v

/-- The value of a text whose characters have been checked. -/
def ofChecked (e : Text) : Except Failure Int :=
  (checked e).result

theorem ofChecked_eq (e : Text) : ofChecked e = match Expression.parse e with
    | .error r => .error (.rejected r)
    | .ok x =>
      match x.evaluate with
      | .error f => .error f
      | .ok v => checkResult e v := by
  simp only [ofChecked, checked, Logged.result_bind, Logged.result_mapError, Logged.result_quiet,
    Logged.result_write, Logged.result_pure, Expression.parse, Expression.evaluate]
  cases (Expression.parsing e).result with
  | error r => rfl
  | ok x =>
      dsimp only [Except.mapError]
      cases x.evaluating.result with
      | error f => rfl
      | ok v =>
          dsimp only
          cases checkResult e v <;> rfl

end Calculation

/-- Calculate an expression given as a text. -/
def calculating (given : Option Text) : Logged Failure Int := do
  let e ← Logged.quiet ((checkCharacters given).mapError .rejected)
  Calculation.checked e

/-- The value of an expression given as a text. -/
def calculate (given : Option Text) : Except Failure Int :=
  (calculating given).result

theorem calculate_eq (given : Option Text) : calculate given = match checkCharacters given with
    | .error r => .error (.rejected r)
    | .ok e => Calculation.ofChecked e := by
  rw [calculate, calculating]
  cases checkCharacters given <;> rfl

namespace Calculation

/-- The log of a calculation. -/
def entries (given : Option Text) : List Log.Entry :=
  (calculating given).entries

end Calculation

end Reckon
