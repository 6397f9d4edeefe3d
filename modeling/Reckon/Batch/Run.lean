import Reckon.Batch.Progress
import Reckon.Source

/-!
# Running a batch

A batch reads all its expressions before it opens the results file, and opens
the results file before it starts a worker. So a batch whose input cannot be
read, or whose results file cannot be opened, changes no file.
-/

namespace Reckon

/-- A batch to run: the input file, the results file, and the limit on active
workers. -/
structure Batch where
  input : Path
  output : Path
  workers : Option Nat
deriving DecidableEq, Repr

namespace Batch

/-- Why a batch ends without its outcomes. -/
inductive Failure where
  | source (fault : Source.Fault)
  | output (fault : PathFault) (path : Path)
  | payload (faults : List Fault)
  | unfinished
deriving DecidableEq

def Failure.message : Failure → Text
  | source f => f.message
  | output f p => f.message p
  | payload faults => Fault.heading faults.length "CalculationOutcome".toList
  | unfinished => "Workers are still active".toList

/-- What a run leaves: the files, the jobs for which workers have been started, the log,
and the outcomes in the order of their lines in the results file. -/
structure Run where
  files : Files
  started : List Job
  log : List Log.Entry
  result : Except Failure (List Outcome)

def ofRecord (fs : Files) (r : Record) : Except Refusal Batch :=
  let input := r.required "input_file".toList (Record.Reader.filePath fs)
  let output := r.required "output_file".toList Record.Reader.path
  let workers := r.optional "max_workers".toList Record.Reader.positive
  let batch := (input.both (output.both workers)).map fun (input, output, workers) =>
    ⟨input, output, workers.map (·.1)⟩
  r.unobstructed fs "input_file".toList batch

def loadedEntry (b : Batch) (count : Nat) : Log.Entry :=
  ⟨.info, "📥 Loaded ".toList ++ Decimal.ofNat count ++ " expressions from ".toList
    ++ b.input.text⟩

def wroteEntry (b : Batch) (os : List Outcome) : Log.Entry :=
  ⟨.info, "📤 Wrote ".toList ++ Decimal.ofNat os.length ++ " results to ".toList
    ++ b.output.text ++ " (".toList ++ Decimal.ofNat (os.countP fun o => !o.succeeded)
    ++ " failed)".toList⟩

/-- Work off expressions into the file at a location. -/
def writeResults (b : Batch) (fs : Files) (processors : Nat) (schedule : Schedule)
    (es : List Text) (l : Location) : Run :=
  let loaded := b.loadedEntry es.length
  match process (limitFor b.workers processors es.length) schedule (jobs es) with
  | .error ⟨faults, s⟩ =>
    ⟨fs.put l (Utf8.encode s.written), s.started, loaded :: s.log, .error (.payload faults)⟩
  | .ok s =>
    let after := fs.put l (Utf8.encode s.written)
    if s.isComplete then
      ⟨after, s.started, loaded :: s.log ++ [b.wroteEntry s.outcomes], .ok s.outcomes⟩
    else ⟨after, s.started, loaded :: s.log, .error .unfinished⟩

/-- Run a batch. The results file is opened only after every expression has been
read, and nothing is written unless it can be opened. -/
def run (b : Batch) (host : Host) (fs : Files) (schedule : List Job → Schedule) : Run :=
  let after := (Source.load host fs b.input).1
  match Source.expressions host fs b.input with
  | .error f => ⟨after, [], [], .error (.source f)⟩
  | .ok es =>
    match after.target b.output with
    | .error f => ⟨after, [], [b.loadedEntry es.length], .error (.output f b.output)⟩
    | .ok l => b.writeResults after host.processors (schedule (jobs es)) es l

end Batch

end Reckon
