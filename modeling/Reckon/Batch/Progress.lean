import Reckon.Batch.Pass

/-!
# Progress of a batch

A batch keeps up to a limit of workers active: it starts jobs in the order of
their lines while there is room, makes a collecting pass, and goes on until no
worker is left. What a pass finds is up to the environment; a schedule says it
for each pass.
-/

namespace Reckon

namespace Batch

/-- The jobs of a list of expressions, of which so many lines came before. -/
def jobsAfter (before : Nat) : List Text → List Job
  | [] => []
  | e :: es => ⟨⟨before + 1, Nat.succ_pos before⟩, e⟩ :: jobsAfter (before + 1) es

/-- The jobs of a list of expressions, numbered from 1. -/
def jobs (es : List Text) : List Job :=
  jobsAfter 0 es

/-- What has become of a worker by the time of a visit: it is still running, its
outcome can be read, or it has exited without sending anything. -/
inductive Arrival where
  | running
  | delivered
  | crashed (code : Int)
deriving DecidableEq, Repr

/-- What the visit finds: a worker that delivers has done its job. -/
def Arrival.finding (a : Arrival) (j : Job) : Finding :=
  match a with
  | running => .running
  | delivered => .payload j.evaluate.toRecord
  | crashed code => .silence (some code)

/-- For every pass, what has become of each worker. -/
abbrev Schedule := List (Job → Arrival)

/-- The schedule in which the workers deliver one by one, in the order of their
lines. -/
def Schedule.inOrder (js : List Job) : Schedule :=
  js.map fun next j => if j.line = next.line then .delivered else .running

/-- A batch under way. `started` are the jobs for which workers have been started so far. -/
structure State where
  pending : List Job
  active : List Job
  outcomes : List Outcome
  written : Text
  log : List Log.Entry
  started : List Job
deriving DecidableEq

/-- A batch that has been stopped: the faults of the record that stopped it, and how far
it has come. -/
structure Halt where
  faults : List Fault
  state : State
deriving DecidableEq

namespace State

/-- A batch before its first worker is started. -/
def initial (js : List Job) : State := ⟨js, [], [], [], [], []⟩

/-- Start pending jobs while fewer than `limit` workers are active. -/
def fill (limit : Nat) (s : State) : State :=
  let room := limit - s.active.length
  { s with
    active := s.active ++ s.pending.take room
    pending := s.pending.drop room
    started := s.started ++ s.pending.take room }

/-- The batch after a pass over its active workers. -/
def after (s : State) (p : Pass Job) : State :=
  { s with
    active := p.remaining
    outcomes := s.outcomes ++ p.outcomes
    written := s.written ++ p.written
    log := s.log ++ p.log }

def pass (arrival : Job → Arrival) (s : State) : Except Halt State :=
  let p := collect (s.active.map fun j => ⟨j, .ofJob j, (arrival j).finding j⟩)
  match p.fault with
  | some (_, faults) => .error ⟨faults, s.after p⟩
  | none => .ok (s.after p)

def isComplete (s : State) : Bool :=
  s.active.isEmpty && s.pending.isEmpty

/-- Follow a schedule until the batch is complete or the schedule ends. -/
def follow (limit : Nat) : Schedule → State → Except Halt State
  | [], s => .ok s
  | arrival :: rest, s =>
    if s.isComplete then .ok s
    else
      match s.pass arrival with
      | .ok s => follow limit rest (s.fill limit)
      | .error halt => .error halt

end State

/-- The limit on active workers: the given one or else the number of processors,
and never more than there are jobs. -/
def limitFor (workers : Option Nat) (processors jobs : Nat) : Nat :=
  min (workers.getD processors) jobs

/-- The state that a schedule leads to. -/
def process (limit : Nat) (schedule : Schedule) (js : List Job) : Except Halt State :=
  ((State.initial js).fill limit).follow limit schedule

end Batch

end Reckon
