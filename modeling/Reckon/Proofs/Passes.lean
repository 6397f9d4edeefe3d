import Mathlib.Data.List.Induction
import Reckon.Batch.Progress
import Reckon.Proofs.Outcomes

/-!
# What one collecting pass does

A pass goes by the indices of the active workers, and takes workers out on its way.
`Pass.visitAll_eq` says that this comes to visiting one worker after the other, from the
last to the first, where every visit moves the state of the pass a little.
`collect_of_sound` is the closed form: as long as every record that is found is an
outcome, the running workers stay, in their order, and the finished ones leave their
outcomes in the reverse of theirs, with the text of the file in step.

The workers of a batch only ever send the outcome of their own job, and the
records that a batch makes up itself are outcomes too. So a pass over the active
jobs of a batch never stops half-way (`State.pass_eq_ok`), and what it changes is
`State.afterPass`.
-/

namespace Reckon

namespace Batch

/-! ## A pass in closed form -/

namespace Visit

variable {α : Type}

def isRunning (v : Visit α) : Bool :=
  match v.finding with
  | .running => true
  | _ => false

/-- The record about the worker that the visit comes back with. -/
def record? (v : Visit α) : Option Record :=
  match v.finding with
  | .running => none
  | .payload r => some r
  | .silence code => some (crashRecord v.assignment code)

def outcome? (v : Visit α) : Option Outcome :=
  v.record?.bind fun r => (Outcome.ofRecord r).toOption

def logged? (v : Visit α) : Option Log.Entry :=
  match v.finding with
  | .silence code => some (crashEntry v.assignment code)
  | _ => none

/-- A record that the visit comes back with is an outcome. -/
def Sound (v : Visit α) : Prop :=
  ∀ r, v.record? = some r → ∃ o, Outcome.ofRecord r = .ok o

end Visit

namespace Pass

variable {α : Type}

theorem take_eq_add {p : Pass α} {w : α} {r : Record} {o : Outcome}
    (h : Outcome.ofRecord r = .ok o) : p.take w r = p.add o := by
  simp only [take, h]

/-- A sound visit to a pass that has not been stopped. -/
theorem visit_of_sound {p : Pass α} {v : Visit α} (hp : p.fault = none) (hv : v.Sound) :
    p.visit v =
      { remaining := if v.isRunning then v.worker :: p.remaining else p.remaining
        outcomes := p.outcomes ++ v.outcome?.toList
        written := p.written ++ v.outcome?.toList.flatMap fileLine
        log := p.log ++ v.logged?.toList
        fault := none } := by
  obtain ⟨w, a, finding⟩ := v
  obtain ⟨remaining, outcomes, written, log, fault⟩ := p
  obtain rfl := hp
  cases finding with
  | running =>
      simp [visit, keep, Visit.isRunning, Visit.outcome?, Visit.record?, Visit.logged?]
  | payload r =>
      obtain ⟨o, ho⟩ := hv r rfl
      simp [visit, take_eq_add ho, add, Visit.isRunning, Visit.outcome?, Visit.record?,
        Visit.logged?, ho, Except.toOption]
  | silence code =>
      obtain ⟨o, ho⟩ := hv _ rfl
      simp [visit, note, take_eq_add ho, add, Visit.isRunning, Visit.outcome?, Visit.record?,
        Visit.logged?, ho, Except.toOption]

end Pass

/-- What the first visit comes back with comes last. -/
theorem filterMap_reverse_cons {α β : Type} (f : α → Option β) (v : α) (vs : List α) :
    (v :: vs).reverse.filterMap f = vs.reverse.filterMap f ++ (f v).toList := by
  rw [List.reverse_cons, List.filterMap_append, List.filterMap_cons]
  cases f v <;> rfl

namespace Pass

variable {α : Type}

/-- Visits to workers, the last one first. -/
def visitEach (p : Pass α) (vs : List (Visit α)) : Pass α :=
  vs.foldr (fun v p => p.visit v) p

theorem visitEach_of_sound {p : Pass α} (hp : p.fault = none) : ∀ {vs : List (Visit α)},
    (∀ v ∈ vs, v.Sound) →
    p.visitEach vs =
      { remaining := (vs.filter Visit.isRunning).map Visit.worker ++ p.remaining
        outcomes := p.outcomes ++ vs.reverse.filterMap Visit.outcome?
        written := p.written ++ (vs.reverse.filterMap Visit.outcome?).flatMap fileLine
        log := p.log ++ vs.reverse.filterMap Visit.logged?
        fault := none }
  | [], _ => by
      obtain ⟨remaining, outcomes, written, log, fault⟩ := p
      obtain rfl := hp
      simp [visitEach]
  | v :: vs, h => by
      obtain ⟨hv, hvs⟩ := List.forall_mem_cons.mp h
      have ih := visitEach_of_sound hp hvs
      have hcons : p.visitEach (v :: vs) = (p.visitEach vs).visit v := rfl
      rw [hcons, visit_of_sound (by rw [ih]) hv, ih]
      simp only [filterMap_reverse_cons, List.flatMap_append, List.append_assoc]
      cases hr : v.isRunning <;> simp [hr]

/-! ## A pass by indices -/

/-- What a record comes to depends neither on the worker nor on the pass. -/
theorem exists_take (r : Record) :
    ∃ (stays : Bool) (os : List Outcome) (faults? : Option (List Fault)),
      ∀ {β : Type} (p : Pass β) (w : β), p.fault = none → p.take w r =
        { remaining := if stays then w :: p.remaining else p.remaining
          outcomes := p.outcomes ++ os
          written := p.written ++ os.flatMap fileLine
          log := p.log
          fault := faults?.map (w, ·) } := by
  cases hr : Outcome.ofRecord r with
  | ok o => exact ⟨false, [o], none, fun p w hp => by simp [take, hr, add, hp]⟩
  | error faults => exact ⟨true, [], some faults, fun p w hp => by simp [take, hr, stop, keep]⟩

/-- What a visit comes to depends on the finding alone. -/
theorem exists_visit (a : Assignment) (finding : Finding) :
    ∃ (stays : Bool) (os : List Outcome) (es : List Log.Entry) (faults? : Option (List Fault)),
      ∀ {β : Type} (p : Pass β) (w : β), p.fault = none → p.visit ⟨w, a, finding⟩ =
        { remaining := if stays then w :: p.remaining else p.remaining
          outcomes := p.outcomes ++ os
          written := p.written ++ os.flatMap fileLine
          log := p.log ++ es
          fault := faults?.map (w, ·) } := by
  cases finding with
  | running => exact ⟨true, [], [], none, fun p w hp => by simp [visit, hp, keep]⟩
  | payload r =>
      obtain ⟨stays, os, faults?, htake⟩ := exists_take r
      refine ⟨stays, os, [], faults?, fun p w hp => ?_⟩
      simp only [visit, hp, htake p w hp, List.append_nil]
  | silence code =>
      obtain ⟨stays, os, faults?, htake⟩ := exists_take (crashRecord a code)
      refine ⟨stays, os, [crashEntry a code], faults?, fun p w hp => ?_⟩
      simp only [visit, hp]
      exact htake (p.note (crashEntry a code)) w hp

theorem eraseIdx_append_cons {β : Type} (l : List β) (b : β) (l' : List β) :
    (l ++ b :: l').eraseIdx l.length = l ++ l' := by
  rw [List.eraseIdx_append_of_length_le (Nat.le_refl _), Nat.sub_self, List.eraseIdx_cons_zero]

/-- The worker behind those of `before` is visited by its index: it is the one that is
taken out, if any. -/
theorem visitAt_length (p : Pass (Visit α)) (before : List (Visit α)) (v : Visit α) :
    { p with remaining := before ++ v :: p.remaining }.visitAt before.length =
      some { p.visit v.itself with remaining := before ++ (p.visit v.itself).remaining } := by
  rw [visitAt, List.getElem?_append_right (Nat.le_refl _), Nat.sub_self, List.getElem?_cons_zero,
    Option.map_some]
  cases hfault : p.fault with
  | some f => simp [visit, hfault, keep, Visit.itself]
  | none =>
      obtain ⟨stays, os, es, faults?, hvisit⟩ := exists_visit v.assignment v.finding
      rw [Visit.itself, hvisit p v hfault, hvisit _ v rfl]
      cases stays with
      | true => rfl
      | false => simp [eraseIdx_append_cons]

theorem foldlM_visitAt (vs : List (Visit α)) : ∀ p : Pass (Visit α),
    (List.range vs.length).reverse.foldlM visitAt { p with remaining := vs ++ p.remaining }
      = some (p.visitEach (vs.map Visit.itself)) := by
  induction vs using List.reverseRecOn with
  | nil => exact fun p => rfl
  | append_singleton before v ih =>
      intro p
      rw [List.length_append, List.length_singleton, List.range_succ, List.reverse_append,
        List.reverse_singleton, List.singleton_append, List.foldlM_cons, List.append_assoc,
        List.singleton_append, visitAt_length, Option.bind_eq_bind, Option.bind_some,
        ih (p.visit v.itself)]
      rw [visitEach, visitEach, List.map_append, List.foldr_append]
      rfl

/-- Going by the indices comes to the same as visiting one worker after the other, from
the last to the first. -/
theorem visitAll_eq (p : Pass (Visit α)) :
    p.visitAll = some ({ p with remaining := [] }.visitEach (p.remaining.map Visit.itself)) := by
  have h := foldlM_visitAt p.remaining { p with remaining := [] }
  rwa [List.append_nil] at h

end Pass

/-! ### Who the workers are -/

/-- The visit to the worker that goes by another name. -/
def Visit.map {α β : Type} (f : α → β) (v : Visit α) : Visit β :=
  ⟨f v.worker, v.assignment, v.finding⟩

namespace Pass

variable {α β : Type}

/-- The pass over the workers that go by other names. -/
def map (f : α → β) (p : Pass α) : Pass β :=
  { p with
    remaining := p.remaining.map f
    fault := p.fault.map fun (w, faults) => (f w, faults) }

theorem map_visit (f : α → β) (p : Pass α) (v : Visit α) :
    (p.visit v).map f = (p.map f).visit (v.map f) := by
  cases hfault : p.fault with
  | some found => simp [visit, map, hfault, keep, Visit.map]
  | none =>
      have hfault' : (p.map f).fault = none := by rw [map, hfault]; rfl
      obtain ⟨stays, os, es, faults?, hvisit⟩ := exists_visit v.assignment v.finding
      rw [Visit.map, hvisit p v.worker hfault, hvisit (p.map f) (f v.worker) hfault']
      cases stays <;> cases faults? <;> rfl

theorem map_visitEach (f : α → β) (p : Pass α) : ∀ vs : List (Visit α),
    (p.visitEach vs).map f = (p.map f).visitEach (vs.map (Visit.map f))
  | [] => rfl
  | v :: vs => by
      have ih := map_visitEach f p vs
      rw [visitEach] at ih ⊢
      rw [List.foldr_cons, map_visit, ih]
      rfl

end Pass

theorem collect_eq_visitEach {α : Type} (vs : List (Visit α)) :
    collect vs = Pass.empty.visitEach vs := by
  have hall : (Pass.start vs).visitAll = _ := Pass.visitAll_eq _
  have hback : (vs.map Visit.itself).map (Visit.map Visit.worker) = vs := by
    rw [List.map_map]
    exact List.map_id vs
  simp only [collect, hall, Option.get_some]
  refine (Pass.map_visitEach Visit.worker _ _).trans ?_
  show Pass.visitEach _ ((vs.map Visit.itself).map (Visit.map Visit.worker)) = _
  rw [hback]
  rfl

/-- A pass does not look at who the workers are. -/
theorem collect_map {α β : Type} (f : α → β) (vs : List (Visit α)) :
    collect (vs.map (Visit.map f)) = (collect vs).map f := by
  rw [collect_eq_visitEach, collect_eq_visitEach, Pass.map_visitEach]
  rfl

theorem collect_of_sound {α : Type} {vs : List (Visit α)} (h : ∀ v ∈ vs, v.Sound) :
    collect vs =
      { remaining := (vs.filter Visit.isRunning).map Visit.worker
        outcomes := vs.reverse.filterMap Visit.outcome?
        written := (vs.reverse.filterMap Visit.outcome?).flatMap fileLine
        log := vs.reverse.filterMap Visit.logged?
        fault := none } := by
  rw [collect_eq_visitEach, Pass.visitEach_of_sound rfl h]
  simp [Pass.empty]

/-! ## The visits of a batch -/

/-- How a worker ends: its outcome can be read, or it has exited without sending
anything. -/
inductive Ending where
  | delivered
  | crashed (code : Int)
deriving DecidableEq, Repr

/-- What a visit finds of a worker that has ended. -/
def Ending.arrival : Ending → Arrival
  | delivered => .delivered
  | crashed code => .crashed code

/-- How a worker has ended by the time of a visit. -/
def Arrival.ending? : Arrival → Option Ending
  | running => none
  | delivered => some .delivered
  | crashed code => some (.crashed code)

theorem Arrival.ending?_eq_some_iff {a : Arrival} {end' : Ending} :
    a.ending? = some end' ↔ a = end'.arrival := by
  cases a <;> cases end' <;> simp [ending?, Ending.arrival]

theorem Arrival.ending?_eq_none_iff {a : Arrival} : a.ending? = none ↔ a = .running := by
  cases a <;> simp [ending?]

/-- The outcome that a batch records for a job, by how its worker ended: the
worker's own, or an error of the kind `WorkerCrashed` on the same line and
expression. -/
def outcomeOf (j : Job) : Ending → Outcome
  | .delivered => j.evaluate
  | .crashed code => j.fail (crashMessage (some code)) "WorkerCrashed".toList

theorem line_evaluate (j : Job) : j.evaluate.line = j.line := by
  rw [Job.evaluate_eq]
  split <;> rfl

theorem line_outcomeOf (j : Job) (e : Ending) : (outcomeOf j e).line = j.line := by
  cases e with
  | delivered => exact line_evaluate j
  | crashed code => rfl

def visitOf (arrival : Job → Arrival) (j : Job) : Visit Job :=
  ⟨j, .ofJob j, (arrival j).finding j⟩

/-- The record that a visit comes back with is the record of the outcome. -/
theorem record?_visitOf (arrival : Job → Arrival) (j : Job) :
    (visitOf arrival j).record? = (arrival j).ending?.map fun e => (outcomeOf j e).toRecord := by
  rw [Visit.record?, visitOf]
  cases arrival j <;> rfl

theorem sound_visitOf (arrival : Job → Arrival) (j : Job) : (visitOf arrival j).Sound := by
  intro r hr
  rw [record?_visitOf, Option.map_eq_some_iff] at hr
  obtain ⟨e, -, rfl⟩ := hr
  exact ⟨_, Outcome.ofRecord_toRecord _⟩

theorem outcome?_visitOf (arrival : Job → Arrival) (j : Job) :
    (visitOf arrival j).outcome? = (arrival j).ending?.map (outcomeOf j) := by
  rw [Visit.outcome?, record?_visitOf]
  cases (arrival j).ending? with
  | none => rfl
  | some e =>
      rw [Option.map_some, Option.bind_some, Outcome.ofRecord_toRecord]
      rfl

theorem isRunning_visitOf (arrival : Job → Arrival) (j : Job) :
    (visitOf arrival j).isRunning = (arrival j).ending?.isNone := by
  rw [Visit.isRunning, visitOf]
  cases arrival j <;> rfl

/-! ## A pass over the active jobs -/

/-- The endings that a pass over jobs finds, from the last job to the first. -/
def endingsOf (arrival : Job → Arrival) (js : List Job) : List (Job × Ending) :=
  js.reverse.filterMap fun j => (arrival j).ending?.map (j, ·)

def outcomesOf (es : List (Job × Ending)) : List Outcome :=
  es.map fun v => outcomeOf v.1 v.2

/-- The log entries that a pass over jobs leaves. -/
def entriesOf (arrival : Job → Arrival) (js : List Job) : List Log.Entry :=
  js.reverse.filterMap fun j => (visitOf arrival j).logged?

theorem collect_visitOf (arrival : Job → Arrival) (js : List Job) :
    collect (js.map (visitOf arrival)) =
      { remaining := js.filter fun j => (arrival j).ending?.isNone
        outcomes := outcomesOf (endingsOf arrival js)
        written := (outcomesOf (endingsOf arrival js)).flatMap fileLine
        log := entriesOf arrival js
        fault := none } := by
  have hsound : ∀ v ∈ js.map (visitOf arrival), v.Sound := by
    intro v hv
    obtain ⟨j, -, rfl⟩ := List.mem_map.mp hv
    exact sound_visitOf arrival j
  have hremaining : ((js.map (visitOf arrival)).filter Visit.isRunning).map Visit.worker
      = js.filter fun j => (arrival j).ending?.isNone := by
    rw [List.filter_map, List.map_map,
      show Visit.isRunning ∘ visitOf arrival = fun j => (arrival j).ending?.isNone from
        funext (isRunning_visitOf arrival)]
    exact List.map_id _
  have houtcomes : (js.map (visitOf arrival)).reverse.filterMap Visit.outcome?
      = outcomesOf (endingsOf arrival js) := by
    rw [← List.map_reverse, List.filterMap_map, outcomesOf, endingsOf, List.map_filterMap]
    congr 1
    funext j
    rw [Function.comp_apply, outcome?_visitOf, Option.map_map]
    rfl
  have hlog : (js.map (visitOf arrival)).reverse.filterMap Visit.logged?
      = entriesOf arrival js := by
    rw [← List.map_reverse, List.filterMap_map]
    rfl
  rw [collect_of_sound hsound, hremaining, houtcomes, hlog]

def State.afterPass (arrival : Job → Arrival) (s : State) : State :=
  { s with
    active := s.active.filter fun j => (arrival j).ending?.isNone
    outcomes := s.outcomes ++ outcomesOf (endingsOf arrival s.active)
    written := s.written ++ (outcomesOf (endingsOf arrival s.active)).flatMap fileLine
    log := s.log ++ entriesOf arrival s.active }

theorem State.pass_eq_ok (arrival : Job → Arrival) (s : State) :
    s.pass arrival = .ok (s.afterPass arrival) := by
  have hcollect : collect (s.active.map fun j => ⟨j, .ofJob j, (arrival j).finding j⟩) = _ :=
    collect_visitOf arrival s.active
  simp only [State.pass, hcollect]
  rfl

end Batch

end Reckon
