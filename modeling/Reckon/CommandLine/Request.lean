import Reckon.Record.PathField

/-!
# Requests

What is asked of the program is either one expression, or a file of expressions
with the batch options that go with it.
-/

namespace Reckon.CommandLine

/-- What is asked of the program. -/
inductive Request where
  | expression (e : Text)
  | file (input : Path) (output : Option Path) (workers : Option Nat)
deriving DecidableEq, Repr

namespace Request

/-- The request that the given fields amount to. -/
def ofFields (expression : Option Text) (file output : Option Path) (workers : Option Nat) :
    Checked Request :=
  match expression, file with
  | some e, none =>
    if output.isSome ∨ workers.isSome then
      Checked.fault (.rule "--output and --max-workers can only be used with --file".toList)
    else .ok (.expression e)
  | none, some input => .ok (.file input output workers)
  | _, _ => Checked.fault (.rule "Provide either an expression or --file, not both".toList)

/-- Check the fields of a record, and then the request that they amount to. -/
def checked (fs : Files) (r : Record) : Checked Request :=
  let expression := r.optional "expression".toList Record.Reader.text
  let file := r.optional "file_path".toList (Record.Reader.filePath fs)
  let output := r.optional "output".toList Record.Reader.path
  let workers := r.optional "max_workers".toList Record.Reader.positive
  match expression.both (file.both (output.both workers)) with
  | .ok (expression, file, output, workers) =>
    ofFields expression file output (workers.map (·.1))
  | .error faults => .error faults

def ofRecord (fs : Files) (r : Record) : Except Refusal Request :=
  r.unobstructed fs "file_path".toList (checked fs r)

def expression? : Request → Option Text
  | expression e => some e
  | file .. => none

def input? : Request → Option Path
  | expression _ => none
  | file input _ _ => some input

def output? : Request → Option Path
  | expression _ => none
  | file _ output _ => output

def workers? : Request → Option Nat
  | expression _ => none
  | file _ _ workers => workers

end Request

end Reckon.CommandLine
