import Mathlib.Data.List.Forall2
import Reckon.Proofs.Passes

/-!
# A pass takes out the finished workers, and nobody else

A pass goes by the indices of the active workers while workers are taken out from among
them. It goes from the last index to the first, so what is taken out stands behind
everything that is still to be visited. That is the invariant of `Pass.foldlM_visitAt`:
in front of the index the list is as it was, and behind it only the running workers are
left. So every index is in range, and each worker is visited exactly once.

What remains to be said here is what a pass adds: one outcome for each finished worker,
the last worker first, and with each outcome its line.
-/

namespace Reckon

namespace Batch

/-- What a list gives out comes from the members that give out anything, one for each. -/
theorem forall₂_filterMap {α β : Type} {R : α → β → Prop} {gives : α → Bool} {f : α → Option β} :
    ∀ {l : List α}, (∀ a ∈ l, if gives a then ∃ b, f a = some b ∧ R a b else f a = none) →
    List.Forall₂ R (l.filter gives) (l.filterMap f)
  | [], _ => .nil
  | a :: l, h => by
      obtain ⟨ha, hl⟩ := List.forall_mem_cons.mp h
      have ih := forall₂_filterMap hl
      cases hgives : gives a with
      | true =>
          rw [if_pos hgives] at ha
          obtain ⟨b, hb, hab⟩ := ha
          rw [List.filter_cons_of_pos hgives, List.filterMap_cons_some hb]
          exact .cons hab ih
      | false =>
          have hno : ¬gives a = true := by rw [hgives]; decide
          rw [if_neg hno] at ha
          rw [List.filter_cons_of_neg hno, List.filterMap_cons_none ha]
          exact ih

/-! ## What a pass finds -/

namespace Visit

variable {α : Type}

/-- The worker has finished, and this is its outcome. -/
def Leaves (v : Visit α) (o : Outcome) : Prop :=
  ∃ r, v.record? = some r ∧ Outcome.ofRecord r = .ok o

/-- A visit comes back with a record exactly if the worker is no longer running. -/
theorem isSome_record? (v : Visit α) : v.record?.isSome = !v.isRunning := by
  obtain ⟨w, a, finding⟩ := v
  cases finding <;> rfl

theorem Sound.outcome?_eq {v : Visit α} (hv : v.Sound) :
    if !v.isRunning then ∃ o, v.outcome? = some o ∧ v.Leaves o else v.outcome? = none := by
  rw [← isSome_record?, outcome?]
  cases hrecord : v.record? with
  | none => rfl
  | some r =>
      obtain ⟨o, ho⟩ := hv r hrecord
      exact ⟨o, by rw [Option.bind_some, ho]; rfl, r, hrecord, ho⟩

end Visit

namespace Pass

variable {α : Type}

theorem visitAll_of_sound {p : Pass (Visit α)} (hp : p.fault = none)
    (h : ∀ v ∈ p.remaining, v.Sound) :
    p.visitAll = some
      { remaining := p.remaining.filter Visit.isRunning
        outcomes := p.outcomes ++ p.remaining.reverse.filterMap Visit.outcome?
        written := p.written ++ (p.remaining.reverse.filterMap Visit.outcome?).flatMap fileLine
        log := p.log ++ p.remaining.reverse.filterMap Visit.logged?
        fault := none } := by
  have hsound : ∀ v ∈ p.remaining.map Visit.itself, v.Sound := by
    intro v hv
    obtain ⟨u, hu, rfl⟩ := List.mem_map.mp hv
    exact h u hu
  have hremaining : ((p.remaining.map Visit.itself).filter Visit.isRunning).map Visit.worker
      = p.remaining.filter Visit.isRunning := by
    rw [List.filter_map, List.map_map]
    exact List.map_id _
  have hback {β : Type} (f : Visit (Visit α) → Option β) :
      (p.remaining.map Visit.itself).reverse.filterMap f
        = p.remaining.reverse.filterMap (f ∘ Visit.itself) := by
    rw [← List.map_reverse, List.filterMap_map]
  have heach := visitEach_of_sound (p := { p with remaining := [] }) hp hsound
  rw [hremaining, hback, hback, List.append_nil] at heach
  rw [visitAll_eq, heach]
  rfl

end Pass

/-- The outcome that a batch records for a job whose worker has ended. -/
theorem ended_outcome (a : Arrival) (j : Job) :
    if a ≠ .running then
      ∃ o, a.ending?.map (outcomeOf j) = some o ∧ ∃ e, a = Ending.arrival e ∧ o = outcomeOf j e
    else a.ending?.map (outcomeOf j) = none := by
  cases hending : a.ending? with
  | none =>
      have hrunning := Arrival.ending?_eq_none_iff.mp hending
      rw [if_neg (not_not_intro hrunning)]
      rfl
  | some e =>
      have harrival := Arrival.ending?_eq_some_iff.mp hending
      rw [if_pos (by rw [harrival]; cases e <;> simp [Ending.arrival])]
      exact ⟨_, rfl, e, harrival, rfl⟩

theorem outcomesOf_endingsOf (arrival : Job → Arrival) (js : List Job) :
    outcomesOf (endingsOf arrival js)
      = js.reverse.filterMap fun j => (arrival j).ending?.map (outcomeOf j) := by
  rw [outcomesOf, endingsOf, List.map_filterMap]
  congr 1
  funext j
  rw [Option.map_map]
  rfl

/-- **A pass takes out the finished workers, and nobody else.** Whatever is found of the
active workers, if every record among it is an outcome, then no index of the pass is out of
range. The running workers stay, in their order; each finished one leaves one outcome, the
last worker first, and the line of each outcome is written in that order. What was recorded
and written before stays in front. The passes of a batch are such passes: they only find
records that are outcomes. -/
theorem pass_takes_finished {α : Type} {p : Pass (Visit α)} (hp : p.fault = none)
    (hsound : ∀ v ∈ p.remaining, v.Sound) :
    (∃ os, List.Forall₂ Visit.Leaves (p.remaining.filter (!·.isRunning)).reverse os
        ∧ p.visitAll = some
          { remaining := p.remaining.filter Visit.isRunning
            outcomes := p.outcomes ++ os
            written := p.written ++ os.flatMap fileLine
            log := p.log ++ p.remaining.reverse.filterMap Visit.logged?
            fault := none })
      ∧ ∀ (s : State) (arrival : Job → Arrival), ∃ os,
        List.Forall₂ (fun j o => ∃ e, arrival j = Ending.arrival e ∧ o = outcomeOf j e)
            (s.active.filter (arrival · ≠ .running)).reverse os
          ∧ s.pass arrival = .ok
            { s with
              active := s.active.filter (arrival · = .running)
              outcomes := s.outcomes ++ os
              written := s.written ++ os.flatMap fileLine
              log := s.log ++ entriesOf arrival s.active } := by
  constructor
  · refine ⟨_, ?_, Pass.visitAll_of_sound hp hsound⟩
    rw [← List.filter_reverse]
    exact forall₂_filterMap fun v hv => (hsound v (List.mem_reverse.mp hv)).outcome?_eq
  · intro s arrival
    refine ⟨outcomesOf (endingsOf arrival s.active), ?_, ?_⟩
    · rw [← List.filter_reverse, outcomesOf_endingsOf]
      refine forall₂_filterMap fun j _ => ?_
      simpa only [decide_eq_true_eq] using ended_outcome (arrival j) j
    · have hstays : (fun j => (arrival j).ending?.isNone)
          = fun j => decide (arrival j = .running) := by
        funext j
        rw [Bool.eq_iff_iff, Option.isNone_iff_eq_none, Arrival.ending?_eq_none_iff,
          decide_eq_true_eq]
      rw [State.pass_eq_ok, State.afterPass, hstays]

def firstJob : Job := ⟨⟨4, by decide⟩, "6 / 2".toList⟩

def middleJob : Job := ⟨⟨5, by decide⟩, "2 * 3".toList⟩

def lastJob : Job := ⟨⟨6, by decide⟩, "4 - 5".toList⟩

/-- The first worker has delivered its outcome, and the last one was killed. -/
def mixedArrival (j : Job) : Arrival :=
  if j = firstJob then .delivered else if j = lastJob then .crashed (-9) else .running

/-- A pass that comes after one outcome. -/
def mixedPass : Pass (Visit Job) :=
  { Pass.start ([firstJob, middleJob, lastJob].map (visitOf mixedArrival)) with
    outcomes := [Job.evaluate ⟨⟨1, by decide⟩, "1 / 0".toList⟩] }

theorem pass_takes_finished_sample : ∃ q, mixedPass.visitAll = some q
    ∧ q.remaining.map Visit.worker = [middleJob]
    ∧ q.outcomes = [Job.evaluate ⟨⟨1, by decide⟩, "1 / 0".toList⟩,
        lastJob.fail "Worker exited with code -9 without a result".toList "WorkerCrashed".toList,
        firstJob.evaluate] := by
  have hsound : ∀ v ∈ mixedPass.remaining, v.Sound := by
    intro v hv
    obtain ⟨j, -, rfl⟩ := List.mem_map.mp hv
    exact sound_visitOf mixedArrival j
  obtain ⟨⟨os, hos, hall⟩, -⟩ := pass_takes_finished (p := mixedPass) rfl hsound
  have hfinished : (mixedPass.remaining.filter (!·.isRunning)).reverse
      = [visitOf mixedArrival lastJob, visitOf mixedArrival firstJob] := rfl
  rw [hfinished] at hos
  obtain ⟨o, _, ⟨r, hr, ho⟩, hos', rfl⟩ := List.forall₂_cons_left_iff.mp hos
  obtain ⟨o', _, ⟨r', hr', ho'⟩, hnil, rfl⟩ := List.forall₂_cons_left_iff.mp hos'
  obtain rfl := List.forall₂_nil_left_iff.mp hnil
  obtain rfl : (outcomeOf lastJob (.crashed (-9))).toRecord = r := Option.some.inj hr
  obtain rfl : firstJob.evaluate.toRecord = r' := Option.some.inj hr'
  rw [Outcome.ofRecord_toRecord] at ho ho'
  obtain rfl := Except.ok.inj ho
  obtain rfl := Except.ok.inj ho'
  exact ⟨_, hall, rfl, rfl⟩

end Batch

end Reckon
