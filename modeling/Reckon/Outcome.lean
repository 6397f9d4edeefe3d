import Reckon.Record.Field

/-!
# Outcomes

The outcome of a line is what became of its expression: a result, or an error
with its text. It is written as one line of the results file, and travels from
a worker to the batch as a record. `ofRecord` checks such a record; it undoes
`toRecord`.
-/

namespace Reckon

/-- What an expression came to. -/
inductive Answer where
  | result (n : Int)
  | error (message : Text)
deriving DecidableEq, Repr

/-- The outcome of one line of a batch. -/
structure Outcome where
  line : Positive
  expression : Text
  answer : Answer
  kind : Option Text
deriving DecidableEq, Repr

namespace Outcome

def succeeded (o : Outcome) : Bool :=
  match o.answer with
  | .result _ => true
  | .error _ => false

def result? (o : Outcome) : Option Int :=
  match o.answer with
  | .result n => some n
  | .error _ => none

def error? (o : Outcome) : Option Text :=
  match o.answer with
  | .result _ => none
  | .error message => some message

/-- The outcome as a line of the results file, without a line end. -/
def toLine (o : Outcome) : Text :=
  match o.answer with
  | .result n => o.expression ++ " = ".toList ++ Decimal.ofInt n
  | .error message => o.expression ++ " -> ERROR: ".toList ++ message

/-- All fields of an outcome; what it does not have is null. -/
def fields (o : Outcome) : Record :=
  [("line".toList, .integer o.line.val), ("expression".toList, .text o.expression),
   ("result".toList, (o.result?.map Value.integer).getD .null),
   ("error".toList, (o.error?.map Value.text).getD .null),
   ("error_kind".toList, (o.kind.map Value.text).getD .null)]

/-- The record that a library writes of an outcome. -/
def write (library : Record.Library) (o : Outcome) : Record :=
  library.write o.fields

/-- The outcome as a record; what it does not have is left out. -/
def toRecord (o : Outcome) : Record :=
  o.write .standard

/-- The answer that a result field and an error field amount to: exactly one of
them has to be given. -/
def answerOf : Option Int → Option Text → Checked Answer
  | some n, none => .ok (.result n)
  | none, some message => .ok (.error message)
  | _, _ => Checked.fault (.rule "Exactly one of 'result' or 'error' must be set".toList)

/-- Check a record with the readers of a library. -/
def build (library : Record.Library) (r : Record) : Checked Outcome :=
  let line := r.required "line".toList (Record.Reader.positiveBy library.integer)
  let expression := r.required "expression".toList library.text
  let result := r.optional "result".toList library.integer
  let error := r.optional "error".toList library.text
  let kind := r.optional "error_kind".toList library.text
  match line.both (expression.both (result.both (error.both kind))) with
  | .ok (line, expression, result, error, kind) =>
    (answerOf result error).map fun answer => ⟨line, expression, answer, kind⟩
  | .error fs => .error fs

def ofRecord (r : Record) : Checked Outcome :=
  build .standard r

end Outcome

end Reckon
