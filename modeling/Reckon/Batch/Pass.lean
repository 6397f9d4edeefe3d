import Reckon.Job

/-!
# One collecting pass

A pass visits the active workers once, by their indices, the last one first: so no
worker that is still to be visited changes its place when another is taken out. A
worker that has a record waiting, or has ended, is finished: it leaves the active
workers, its outcome is appended to the outcomes and its line to the text of the
results. For a worker that ended without sending anything, the batch makes up the
record of a crash. A record that is no outcome stops the pass: the worker it is about,
and every worker in front of it, stays active.
-/

namespace Reckon.Batch

/-- What a visit to a worker finds. -/
inductive Finding where
  | running
  | payload (r : Record)
  | silence (code : Option Int)
deriving Repr

/-- What a batch remembers of a job whose worker it has started. It takes the line
number as it is. -/
structure Assignment where
  line : Int
  expression : Text
deriving DecidableEq, Repr

def Assignment.ofJob (j : Job) : Assignment :=
  ⟨j.line.val, j.expression⟩

structure Visit (α : Type) where
  worker : α
  assignment : Assignment
  finding : Finding

/-- The visit, in a list where every worker stands with what will be found of it. -/
def Visit.itself {α : Type} (v : Visit α) : Visit (Visit α) :=
  ⟨v, v.assignment, v.finding⟩

/-- The results of a pass: who is still active, what came in, what was written
and logged, and the worker with the faults of its record that stopped the pass. -/
structure Pass (α : Type) where
  remaining : List α
  outcomes : List Outcome
  written : Text
  log : List Log.Entry
  fault : Option (α × List Fault)

/-- The exit code of a worker in words; it has none while it is alive. -/
def exitCode : Option Int → Text
  | some c => Decimal.ofInt c
  | none => "None".toList

def crashMessage (code : Option Int) : Text :=
  "Worker exited with code ".toList ++ exitCode code ++ " without a result".toList

def crashRecord (a : Assignment) (code : Option Int) : Record :=
  [("line".toList, .integer a.line), ("expression".toList, .text a.expression),
   ("error".toList, .text (crashMessage code)), ("error_kind".toList, .text "WorkerCrashed".toList)]

def crashEntry (a : Assignment) (code : Option Int) : Log.Entry :=
  ⟨.error, "👷💥 ".toList ++ crashMessage code ++ " (line ".toList ++ Decimal.ofInt a.line
    ++ ")".toList⟩

/-- The text of an outcome in the results file. -/
def fileLine (o : Outcome) : Text :=
  o.toLine ++ ['\n']

namespace Pass

variable {α : Type}

def empty : Pass α := ⟨[], [], [], [], none⟩

/-- The worker stays active. -/
def keep (p : Pass α) (w : α) : Pass α :=
  { p with remaining := w :: p.remaining }

def note (p : Pass α) (e : Log.Entry) : Pass α :=
  { p with log := p.log ++ [e] }

def add (p : Pass α) (o : Outcome) : Pass α :=
  { p with
    outcomes := p.outcomes ++ [o]
    written := p.written ++ fileLine o }

/-- A record that is no outcome comes in. -/
def stop (p : Pass α) (w : α) (faults : List Fault) : Pass α :=
  { p.keep w with fault := some (w, faults) }

/-- The record about a worker comes in. -/
def take (p : Pass α) (w : α) (r : Record) : Pass α :=
  match Outcome.ofRecord r with
  | .ok o => p.add o
  | .error faults => p.stop w faults

def visit (p : Pass α) (v : Visit α) : Pass α :=
  match p.fault with
  | some _ => p.keep v.worker
  | none =>
    match v.finding with
    | .running => p.keep v.worker
    | .payload r => p.take v.worker r
    | .silence code =>
      (p.note (crashEntry v.assignment code)).take v.worker (crashRecord v.assignment code)

/-- A visit to the active worker at an index, which has to be in range: the worker is
taken out from among the others unless it stays. -/
def visitAt (p : Pass (Visit α)) (i : Nat) : Option (Pass (Visit α)) :=
  p.remaining[i]?.map fun v =>
    let q := { p with remaining := [] }.visit v.itself
    { q with remaining := if q.remaining.isEmpty then p.remaining.eraseIdx i else p.remaining }

/-- Visit all active workers by their indices, the last one first. -/
def visitAll (p : Pass (Visit α)) : Option (Pass (Visit α)) :=
  (List.range p.remaining.length).reverse.foldlM visitAt p

/-- A pass before its first visit. -/
def start (vs : List (Visit α)) : Pass (Visit α) := ⟨vs, [], [], [], none⟩

/-- The pass with the workers in place of the visits to them. -/
def byWorker (p : Pass (Visit α)) : Pass α :=
  { p with
    remaining := p.remaining.map Visit.worker
    fault := p.fault.map fun (v, faults) => (v.worker, faults) }

/-- A visit leaves every index in front of it in range. -/
theorem exists_visitAt {p : Pass (Visit α)} {i : Nat} (h : i < p.remaining.length) :
    ∃ q, p.visitAt i = some q ∧ i ≤ q.remaining.length := by
  rw [visitAt, List.getElem?_eq_getElem h]
  refine ⟨_, rfl, ?_⟩
  dsimp only
  split
  · rw [List.length_eraseIdx_of_lt h]
    exact Nat.le_sub_one_of_lt h
  · exact Nat.le_of_lt h

theorem isSome_foldlM_visitAt : ∀ {n : Nat} {p : Pass (Visit α)}, n ≤ p.remaining.length →
    ((List.range n).reverse.foldlM visitAt p).isSome = true
  | 0, _, _ => rfl
  | n + 1, p, h => by
      obtain ⟨q, hq, hn⟩ := exists_visitAt h
      rw [List.range_succ, List.reverse_append, List.reverse_singleton, List.singleton_append,
        List.foldlM_cons, hq]
      exact isSome_foldlM_visitAt hn

theorem isSome_visitAll (p : Pass (Visit α)) : p.visitAll.isSome = true :=
  isSome_foldlM_visitAt (Nat.le_refl _)

end Pass

/-- The pass over the given visits. -/
def collect {α : Type} (vs : List (Visit α)) : Pass α :=
  ((Pass.start vs).visitAll.get (Pass.isSome_visitAll _)).byWorker

end Reckon.Batch
