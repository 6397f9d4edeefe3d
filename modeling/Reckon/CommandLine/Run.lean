import Reckon.Batch.Run
import Reckon.CommandLine.Help
import Reckon.CommandLine.Request
import Reckon.CommandLine.Settings

/-!
# The command line program

The program evaluates one expression and prints its value, or runs a batch and
prints the path of the results file. What is wrong with an expression, with the
text of a file or with the results file is reported on the error stream with
exit code 1; a misused command line with exit code 2. What an archive library raises is
reported in the same way if it is of an expected kind. All else aborts the program: any
other exception of a library, a text that a stream does not take, an input file that
cannot be looked for, and a number that no message can show.
-/

namespace Reckon.CommandLine

/-- What aborts the program. -/
inductive Abort where
  | numberTooLong
  | library (trouble : Trouble)
  | stream (trouble : Trouble)
  | obstructed (fault : PathFault) (path : Path)
  | noName (path : Path)
deriving DecidableEq, Repr

def Abort.message : Abort → Text
  | numberTooLong => Failure.numberTooLong.message
  | library trouble | stream trouble => trouble.message
  | obstructed fault p => fault.message p
  | noName p => p.emptyNameMessage

/-- How the program ends. -/
inductive Ending where
  | printed (output : Text)
  | failed (message : Text)
  | misused (message : Text)
  | aborted (cause : Abort)
deriving DecidableEq, Repr

namespace Ending

def exitCode : Ending → Nat
  | printed _ => 0
  | failed _ => 1
  | misused _ => 2
  | aborted _ => 1

/-- What goes to the output stream. -/
def stdout : Ending → Text
  | printed output => output
  | _ => []

/-- What goes to the error stream. -/
def stderr : Ending → Text
  | printed _ => []
  | failed message => "error: ".toList ++ message ++ ['\n']
  | misused message => usageText ++ programName ++ ": error: ".toList ++ message ++ ['\n']
  | aborted cause => cause.message ++ ['\n']

end Ending

/-- What a call of the program leaves. -/
structure Session where
  files : Files
  log : List Log.Entry
  ending : Ending

/-- What is printed, on the stream where it goes. -/
def Ending.prints (e : Ending) : Stream × Text :=
  match e with
  | printed _ => (.out, e.stdout)
  | _ => (.err, e.stderr)

/-- End by printing what there is to say, if the stream takes it. -/
def finish (host : Host) (e : Ending) : Ending :=
  match host.refusal? e.prints.1 e.prints.2 with
  | some trouble => .aborted (.stream trouble)
  | none => e

def runExpression (host : Host) (e : Text) : Ending :=
  match calculate (some e) with
  | .ok n => finish host (.printed (Decimal.ofInt n ++ ['\n']))
  | .error (.rejected cause) => finish host (.failed cause.message)
  | .error .numberTooLong => .aborted .numberTooLong

/-- The ending for a batch without outcomes. -/
def endingOf (host : Host) (f : Batch.Failure) : Ending :=
  match f with
  | .source (.library trouble) =>
    if trouble.isExpected then finish host (.failed trouble.message)
    else .aborted (.library trouble)
  | f => finish host (.failed f.message)

def runBatch (host : Host) (fs : Files) (b : Batch) : Session :=
  let run := b.run host fs Batch.Schedule.inOrder
  match run.result with
  | .ok _ => ⟨run.files, run.log, finish host (.printed (b.output.text ++ ['\n']))⟩
  | .error f => ⟨run.files, run.log, endingOf host f⟩

def runRequest (host : Host) (fs : Files) : Request → Session
  | .expression e => ⟨fs, [], runExpression host e⟩
  | .file input output workers =>
    match output.or input.results? with
    | some output => runBatch host fs ⟨input, output, workers⟩
    | none => ⟨fs, [], .aborted (.noName input)⟩

/-- The paths that a command line names: the input file, the results file asked
for, and the results file beside the input file. -/
def namedPaths (arguments : List Text) : List Path :=
  match Settings.ofWords arguments with
  | .error _ => []
  | .ok settings =>
    let input := settings.file.argument?.map Path.ofText
    let output := settings.output.argument?.map Path.ofText
    input.toList ++ output.toList ++ (input.bind Path.results?).toList

def run (host : Host) (fs : Files) (arguments : List Text) : Session :=
  match Settings.ofWords arguments with
  | .error .help => ⟨fs, [], .printed helpText⟩
  | .error (.usage message) => ⟨fs, [], .misused message⟩
  | .ok settings =>
    match Request.ofRecord fs settings.toRecord with
    | .error (.faults found) => ⟨fs, [], .misused (Fault.heading found.length "CliArgs".toList)⟩
    | .error (.obstructed fault p) => ⟨fs, [], .aborted (.obstructed fault p)⟩
    | .ok request => runRequest host fs request

end Reckon.CommandLine
