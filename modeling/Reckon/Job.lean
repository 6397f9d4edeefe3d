import Reckon.Calculation
import Reckon.Outcome

/-!
# Jobs

A job is one line of a batch: its number and its expression. Whichever way the
calculation ends there is an outcome, `evaluate`, and it carries the job's own line and
expression.

A worker does a job: it logs the start, calculates, logs the end, and sends the outcome as
a record through a pipe, which it closes then. Its log messages show the number of the
line. A number with too many digits cannot be written, and so the worker breaks down at
the first message, when the pipe is not yet sure to be closed.
-/

namespace Reckon

/-- One line of a batch, numbered from 1. -/
structure Job where
  line : Positive
  expression : Text
deriving DecidableEq, Repr

namespace Job

/-- Check a record with the readers of a library. -/
def build (library : Record.Library) (r : Record) : Checked Job :=
  let expression := r.required "expression".toList library.text
  let line := r.required "line_number".toList (Record.Reader.positiveBy library.integer)
  (expression.both line).map fun (expression, line) => ⟨line, expression⟩

def ofRecord (r : Record) : Checked Job :=
  build .standard r

def succeed (j : Job) (n : Int) : Outcome :=
  ⟨j.line, j.expression, .result n, none⟩

def fail (j : Job) (message kind : Text) : Outcome :=
  ⟨j.line, j.expression, .error message, some kind⟩

/-- What keeps a worker from sending an outcome: a message would show a line number that
cannot be written, or the outcome is refused as a record. -/
inductive Breakdown where
  | numberTooLong
  | refused (faults : List Fault)
deriving DecidableEq, Repr

/-- The words that open a log message about this job. They show its line. -/
def heading (mark : Text) (j : Job) : Except Breakdown Text :=
  if Decimal.IsWritable j.line.val then
    .ok (mark ++ " on line ".toList ++ Decimal.ofNat j.line.val ++ ": ".toList)
  else .error .numberTooLong

/-- Log something about this job. -/
def note (level : Log.Level) (mark words : Text) (j : Job) : Logged Breakdown Unit := do
  let opening ← Logged.quiet (heading mark j)
  Logged.write fun _ => [⟨level, opening ++ words⟩]

def noteStart (j : Job) : Logged Breakdown Unit :=
  note .info "👷🏁 Worker started".toList j.expression j

/-- Log how the calculation has ended. -/
def noteEnd (j : Job) : Except Failure Int → Logged Breakdown Unit
  | .ok n => note .info "👷✅ Worker finished".toList (Decimal.ofInt n) j
  | .error (.rejected cause) =>
    note .error "👷❌ Worker failed".toList
      (cause.message ++ "\nInvalid arithmetic expression, could not evaluate: ".toList
        ++ Text.quoted j.expression) j
  | .error .numberTooLong =>
    note .error "👷💥 Unexpected failure".toList (Text.quoted j.expression) j

/-- The outcome for what the calculation has come to. -/
def report (j : Job) : Except Failure Int → Outcome
  | .ok n => j.succeed n
  | .error f => j.fail f.message f.kindName

/-- The outcome of the job. -/
def evaluate (j : Job) : Outcome :=
  j.report (calculate (some j.expression))

theorem evaluate_eq (j : Job) : j.evaluate = match calculate (some j.expression) with
    | .ok n => j.succeed n
    | .error f => j.fail f.message f.kindName := rfl

/-- Do the job: calculate, log the end, and have the outcome checked. -/
def evaluating (library : Record.Library) (j : Job) : Logged Breakdown Outcome := do
  let found ← (calculating (some j.expression)).attempt
  j.noteEnd found
  Logged.quiet ((Outcome.build library (j.report found).fields.withoutNulls).mapError .refused)

end Job

/-- The pipe from a worker to the batch: the records sent and not yet received,
and whether the sending end is open. -/
structure Pipe where
  payloads : List Record
  isOpen : Bool
deriving Repr

namespace Pipe

def fresh : Pipe := ⟨[], true⟩

def send (p : Pipe) (r : Record) : Pipe :=
  { p with payloads := p.payloads ++ [r] }

def close (p : Pipe) : Pipe :=
  { p with isOpen := false }

end Pipe

namespace Job

/-- What the worker leaves in its pipe when it has done its job, or has failed to. -/
def deliver (library : Record.Library) (p : Pipe) : Except Breakdown Outcome → Pipe
  | .ok o => (p.send (o.write library)).close
  | .error _ => p.close

/-- A worker's whole life: log the start, do the job, send the outcome, close the pipe. The
pipe is closed in any case once the start has been logged, but not before. -/
def run (library : Record.Library) (j : Job) (p : Pipe) : Pipe × Logged Breakdown Outcome :=
  let started := j.noteStart
  let worked := started >>= fun _ => j.evaluating library
  (match started.result with
    | .ok _ => deliver library p worked.result
    | .error _ => p, worked)

end Job

end Reckon
