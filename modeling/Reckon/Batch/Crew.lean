import Reckon.Batch.Pass

/-!
# A crew of workers

A crew is a set of workers whose messages arrive one event at a time: a worker
starts, does its job, sends a record of its own making, closes its pipe or
exits; and at any time the batch may make a collecting pass. Some events cannot
happen: nothing happens to a worker that was never started, a worker whose line
number is not positive has no job that it could do, and nothing can be sent once
either end of the pipe is closed. The batch closes its end when it takes a worker
off the active ones.
-/

namespace Reckon.Batch

/-- A started worker: its assignment, its pipe, and its exit code once it has ended. -/
structure Worker where
  assignment : Assignment
  pipe : Pipe
  exit : Option Int
deriving Repr

namespace Worker

/-- What a visit to the worker finds: a waiting record comes first. -/
def finding (w : Worker) : Finding :=
  match w.pipe.payloads with
  | r :: _ => .payload r
  | [] => if w.pipe.isOpen ∧ w.exit = none then .running else .silence w.exit

def job (w : Worker) : Checked Job :=
  Job.ofRecord [("expression".toList, .text w.assignment.expression),
    ("line_number".toList, .integer w.assignment.line)]

/-- The exit code of a worker that has done its job, or has broken down. -/
def exitAfter : Except Job.Breakdown Outcome → Int
  | .ok _ => 0
  | .error _ => 1

/-- The worker does its job and ends. Its pipe is closed at the latest when it ends. -/
def work (w : Worker) : Worker :=
  match w.job with
  | .ok j =>
    let (pipe, worked) := j.run .standard w.pipe
    { w with pipe := pipe.close, exit := some (exitAfter worked.result) }
  | .error _ => w

/-- The first waiting record is taken out of the pipe. -/
def receive (w : Worker) : Worker :=
  { w with pipe := { w.pipe with payloads := w.pipe.payloads.drop 1 } }

end Worker

/-- The workers in the order of their start, the numbers of the active ones, and
what has come in so far. -/
structure Crew where
  workers : List Worker
  active : List Nat
  outcomes : List Outcome
  written : Text
  log : List Log.Entry

namespace Crew

/-- What can happen to a crew. Workers are numbered from 0. -/
inductive Event where
  | start (assignment : Assignment)
  | work (worker : Nat)
  | send (worker : Nat) (r : Record)
  | close (worker : Nat)
  | exit (worker : Nat) (code : Int)
  | collect

/-- Why an event cannot happen. -/
inductive Hindrance where
  | noWorker
  | noJob (faults : List Fault)
  | closed
  | broken
deriving DecidableEq, Repr

def Hindrance.message : Hindrance → Text
  | noWorker => "list index out of range".toList
  | noJob faults => Fault.heading faults.length "WorkerProcess".toList
  | closed => "handle is closed".toList
  | broken => "[Errno 32] Broken pipe".toList

def empty : Crew := ⟨[], [], [], [], []⟩

def change (c : Crew) (i : Nat) (f : Worker → Worker) : Crew :=
  { c with workers := c.workers.modify i f }

/-- The log entries a worker leaves when it does its job. -/
def workEntries (c : Crew) (i : Nat) : List Log.Entry :=
  match c.workers[i]? with
  | some w =>
    match w.job with
    | .ok j => (j.run .standard w.pipe).2.entries
    | .error _ => []
  | none => []

/-- Why a worker cannot send: it has closed its end of the pipe, or nobody is left to
receive. -/
def sendHindrance? (c : Crew) (i : Nat) (w : Worker) : Option Hindrance :=
  if !w.pipe.isOpen then some .closed else if i ∈ c.active then none else some .broken

/-- Why an event cannot happen. -/
def hindrance? (c : Crew) : Event → Option Hindrance
  | .start _ | .collect => none
  | .close i | .exit i _ => if i < c.workers.length then none else some .noWorker
  | .send i _ =>
    match c.workers[i]? with
    | none => some .noWorker
    | some w => c.sendHindrance? i w
  | .work i =>
    match c.workers[i]? with
    | none => some .noWorker
    | some w =>
      match w.job with
      | .error faults => some (.noJob faults)
      | .ok _ => c.sendHindrance? i w

def visits (c : Crew) : List (Visit Nat) :=
  c.active.filterMap fun i => c.workers[i]?.map fun w => ⟨i, w.assignment, w.finding⟩

/-- The crew after a pass. The record that stopped it has been received. -/
def afterPass (c : Crew) (p : Pass Nat) : Crew :=
  let c := { c with
    active := p.remaining
    outcomes := c.outcomes ++ p.outcomes
    written := c.written ++ p.written
    log := c.log ++ p.log }
  match p.fault with
  | some (i, _) => c.change i Worker.receive
  | none => c

/-- The crew after an event that can happen, and the faults that stopped a pass. -/
def step (c : Crew) : Event → Crew × Option (List Fault)
  | .start a =>
    ({ c with
       workers := c.workers ++ [⟨a, Pipe.fresh, none⟩]
       active := c.active ++ [c.workers.length] }, none)
  | .work i => ({ c.change i Worker.work with log := c.log ++ c.workEntries i }, none)
  | .send i r => (c.change i fun w => { w with pipe := w.pipe.send r }, none)
  | .close i => (c.change i fun w => { w with pipe := w.pipe.close }, none)
  | .exit i code => (c.change i fun w => { w with pipe := w.pipe.close, exit := some code }, none)
  | .collect =>
    let p := Batch.collect c.visits
    (c.afterPass p, p.fault.map (·.2))

def errors (c : Crew) : List Log.Entry :=
  c.log.filter (·.level = .error)

def activeLines (c : Crew) : List Int :=
  c.active.filterMap fun i => c.workers[i]?.map (·.assignment.line)

end Crew

end Reckon.Batch
