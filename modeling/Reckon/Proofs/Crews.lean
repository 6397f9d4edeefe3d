import Reckon.Batch.Crew
import Reckon.Proofs.Delivery
import Reckon.Proofs.Window

/-!
# Crews and batches

The state of a batch knows its workers by their jobs, and what has become of a worker is
told from outside. In a crew the workers have pipes of their own, and what a visit finds is
what stands there. Here the two are tied together.

What can happen to a crew that works for a batch is `Happens`: workers are started on the
jobs in their order, while there is room; a worker does its job, or ends without doing it;
and the batch makes a pass. Then each worker is at any time in one of three conditions
(`Serves`), and the crew goes with a state of the batch (`Follows`). A pass over the crew is
a pass of the batch, by the arrivals that the pipes tell (`Follows.collect`), for a pass
does not look at who the workers are (`collect_map`).

So a crew comes only to what a batch can come to (`exists_reachable`). And a batch can come
to nothing else by any schedule than what some crew comes to, as long as the line numbers
can be written (`exists_crew_of_run`).
-/

namespace Reckon.Batch

/-! ## A worker and its job -/

namespace Worker

/-- A worker that has just been started on a job. -/
def fresh (j : Job) : Worker := ⟨.ofJob j, Pipe.fresh, none⟩

theorem job_fresh (j : Job) : (fresh j).job = .ok j :=
  Job.build_given Record.Library.faithful_standard j

/-- A worker of a job has done nothing yet, or has sent the outcome of the job, or has ended
without sending anything. -/
inductive Serves (j : Job) : Worker → Arrival → Prop
  | running : Serves j (fresh j) .running
  | delivered (exit : Option Int) :
      Serves j ⟨.ofJob j, ⟨[j.evaluate.toRecord], false⟩, exit⟩ .delivered
  | crashed (code : Int) : Serves j ⟨.ofJob j, ⟨[], false⟩, some code⟩ (.crashed code)

/-- A worker that does its job leaves one record in the pipe and closes it. -/
theorem work_fresh {j : Job} (h : Decimal.IsWritable j.line.val) :
    Serves j (fresh j).work .delivered := by
  obtain ⟨hpipe, hresult⟩ :=
    Job.run_of_writable Record.Library.faithful_standard h (fresh j).pipe
  rw [work, job_fresh]
  dsimp only
  rw [hpipe, hresult]
  exact .delivered _

/-- A worker that breaks down ends without a record. -/
theorem work_fresh_of_unwritable {j : Job} (h : ¬Decimal.IsWritable j.line.val) :
    Serves j (fresh j).work (.crashed 1) := by
  obtain ⟨hpipe, hresult, -⟩ := Job.run_of_unwritable .standard h (fresh j).pipe
  rw [work, job_fresh]
  dsimp only
  rw [hpipe, hresult]
  exact .crashed 1

namespace Serves

variable {j : Job} {w : Worker} {a : Arrival}

theorem assignment (h : Serves j w a) : w.assignment = .ofJob j := by
  cases h <;> rfl

/-- What a visit finds is what has become of the worker. -/
theorem finding (h : Serves j w a) : w.finding = a.finding j := by
  cases h <;> rfl

theorem eq_fresh (h : Serves j w .running) : w = fresh j := by
  cases h
  rfl

theorem work (h : Serves j w a) (hopen : w.pipe.isOpen = true) : ∃ a', Serves j w.work a' := by
  cases h with
  | running =>
      by_cases hline : Decimal.IsWritable j.line.val
      · exact ⟨_, work_fresh hline⟩
      · exact ⟨_, work_fresh_of_unwritable hline⟩
  | delivered | crashed => cases hopen

/-- A worker that ends leaves what it has sent. -/
theorem exit (h : Serves j w a) (code : Int) :
    ∃ a', Serves j { w with pipe := w.pipe.close, exit := some code } a' := by
  cases h with
  | running => exact ⟨_, .crashed code⟩
  | delivered => exact ⟨_, .delivered _⟩
  | crashed => exact ⟨_, .crashed code⟩

end Serves

end Worker

open Worker (fresh Serves)

/-! ## A crew and its batch -/

namespace Crew

/-- What can happen to a crew that works off jobs, with at most `limit` workers active. -/
inductive Happens (limit : Nat) (js : List Job) (c : Crew) : Event → Prop
  | start {j : Job} (room : c.active.length < limit) (next : js[c.workers.length]? = some j) :
      Happens limit js c (.start (.ofJob j))
  | work {i : Nat} (possible : c.hindrance? (.work i) = none) : Happens limit js c (.work i)
  | exit {i : Nat} (code : Int) (possible : c.hindrance? (.exit i code) = none) :
      Happens limit js c (.exit i code)
  | collect : Happens limit js c .collect

/-- The crews that work off jobs. -/
inductive Reaches (limit : Nat) (js : List Job) : Crew → Prop
  | empty : Reaches limit js .empty
  | event {c : Crew} {e : Event} : Reaches limit js c → Happens limit js c e →
      Reaches limit js (c.step e).1

/-- A crew goes with a state of a batch of jobs: its workers serve the jobs for which
workers have been started, in their order, the active ones are the same, and so is what has
come in. In the log of the crew the entries of the batch stand among those of the
workers. -/
structure Follows (js : List Job) (c : Crew) (s : State) : Prop where
  jobs : s.started ++ s.pending = js
  workers : List.Forall₂ (fun j w => ∃ a, Serves j w a) s.started c.workers
  active : List.Forall₂ (fun i j => s.started[i]? = some j) c.active s.active
  outcomes : c.outcomes = s.outcomes
  written : c.written = s.written
  log : s.log.Sublist c.log

theorem follows_empty (js : List Job) : Follows js .empty (.initial js) where
  jobs := rfl
  workers := .nil
  active := .nil
  outcomes := rfl
  written := rfl
  log := .slnil

variable {limit : Nat} {js : List Job} {c : Crew} {s : State}

namespace Follows

/-- The worker with a number serves the job that was started under the number. -/
theorem exists_serves (h : Follows js c s) {i : Nat} {j : Job} (hi : s.started[i]? = some j) :
    ∃ w a, c.workers[i]? = some w ∧ Serves j w a := by
  obtain ⟨hlt, rfl⟩ := List.getElem?_eq_some_iff.mp hi
  have hlt' : i < c.workers.length := h.workers.length_eq ▸ hlt
  obtain ⟨a, ha⟩ := h.workers.get hlt hlt'
  exact ⟨_, a, List.getElem?_eq_getElem hlt', ha⟩

/-! ### Starting, working and ending -/

theorem pending_eq (h : Follows js c s) {j : Job} (hnext : js[c.workers.length]? = some j) :
    ∃ rest, s.pending = j :: rest := by
  rw [← h.jobs, ← h.workers.length_eq, List.getElem?_append_right (Nat.le_refl _), Nat.sub_self]
    at hnext
  cases hpending : s.pending with
  | nil => rw [hpending] at hnext; cases hnext
  | cons k rest =>
      rw [hpending] at hnext
      obtain rfl := Option.some.inj hnext
      exact ⟨rest, rfl⟩

theorem start (h : Follows js c s) {j : Job} (hnext : js[c.workers.length]? = some j) :
    Follows js (c.step (.start (.ofJob j))).1 (s.fill (s.active.length + 1)) := by
  obtain ⟨rest, hpending⟩ := h.pending_eq hnext
  rw [State.fill_succ hpending]
  refine ⟨?_, ?_, ?_, h.outcomes, h.written, h.log⟩
  · rw [← h.jobs, hpending, List.append_assoc, List.singleton_append]
  · exact List.rel_append h.workers (.cons ⟨_, .running⟩ .nil)
  · refine List.rel_append (h.active.imp fun i k hi => ?_) (.cons ?_ .nil)
    · exact List.getElem?_append_left (List.getElem?_eq_some_iff.mp hi).1 ▸ hi
    · rw [← h.workers.length_eq, List.getElem?_append_right (Nat.le_refl _), Nat.sub_self]
      rfl

/-- A change of one worker that goes on serving its job. -/
theorem change (h : Follows js c s) {i : Nat} {f : Worker → Worker}
    (hf : ∀ j w a, c.workers[i]? = some w → Serves j w a → ∃ a', Serves j (f w) a') :
    Follows js (c.change i f) s where
  jobs := h.jobs
  workers := by
    refine List.forall₂_iff_get.mpr ⟨?_, fun k hk hk' => ?_⟩
    · rw [Crew.change, List.length_modify, h.workers.length_eq]
    · rw [Crew.change, List.length_modify] at hk'
      obtain ⟨a, ha⟩ := h.workers.get hk hk'
      simp only [Crew.change, List.get_eq_getElem, List.getElem_modify]
      split
      case isTrue hik => exact hf _ _ a (hik ▸ List.getElem?_eq_getElem hk') ha
      case isFalse => exact ⟨a, ha⟩
  active := h.active
  outcomes := h.outcomes
  written := h.written
  log := h.log

/-- A crew may log what it likes. -/
theorem note (h : Follows js c s) (es : List Log.Entry) :
    Follows js { c with log := c.log ++ es } s :=
  { h with log := h.log.trans (List.sublist_append_left c.log es) }

end Follows

/-- A worker that can do its job has an open pipe. -/
theorem isOpen_of_possible {i : Nat} {w : Worker} (hi : c.workers[i]? = some w)
    (h : c.hindrance? (.work i) = none) : w.pipe.isOpen = true := by
  simp only [hindrance?, hi] at h
  split at h
  case h_1 => cases h
  case h_2 =>
    unfold sendHindrance? at h
    cases hopen : w.pipe.isOpen with
    | true => rfl
    | false => simp [hopen] at h

namespace Follows

theorem work (h : Follows js c s) {i : Nat} (hpossible : c.hindrance? (.work i) = none) :
    Follows js (c.step (.work i)).1 s :=
  (h.change fun _ _ _ hi ha => ha.work (isOpen_of_possible hi hpossible)).note _

theorem exit (h : Follows js c s) (i : Nat) (code : Int) :
    Follows js (c.step (.exit i code)).1 s :=
  h.change fun _ _ _ _ ha => ha.exit code

/-! ### A pass -/

/-- The arrivals tell what has become of the active workers. -/
def Tells (c : Crew) (s : State) (arrival : Job → Arrival) : Prop :=
  List.Forall₂ (fun i j => ∃ w, c.workers[i]? = some w ∧ Serves j w (arrival j)) c.active s.active

theorem exists_tells (h : Follows js c s) (hjs : js.Nodup) : ∃ arrival, Tells c s arrival := by
  have hstarted : s.started.Nodup := by
    rw [← h.jobs] at hjs
    exact hjs.sublist (List.sublist_append_left ..)
  -- a job is started once, so that its worker is told by the job
  have hone : ∀ j, ∃ a, ∀ i : Nat, s.started[i]? = some j →
      ∃ w, c.workers[i]? = some w ∧ Serves j w a := by
    intro j
    by_cases hj : ∃ i : Nat, s.started[i]? = some j
    · obtain ⟨i, hi⟩ := hj
      obtain ⟨w, a, hw, ha⟩ := h.exists_serves hi
      refine ⟨a, fun i' hi' => ?_⟩
      have hsame : i = i' :=
        (List.getElem?_inj (List.getElem?_eq_some_iff.mp hi).1 hstarted).mp (hi.trans hi'.symm)
      exact ⟨w, hsame ▸ hw, ha⟩
    · exact ⟨.running, fun i hi => absurd ⟨i, hi⟩ hj⟩
  obtain ⟨arrival, harrival⟩ := Classical.axiomOfChoice hone
  exact ⟨arrival, h.active.imp fun i j => harrival j i⟩

/-- The active workers with their jobs, as a pass that is made by such arrivals finds
them. -/
def paired (c : Crew) (s : State) (arrival : Job → Arrival) : List (Visit (Nat × Job)) :=
  (c.active.zip s.active).map fun v => ⟨v, .ofJob v.2, (arrival v.2).finding v.2⟩

theorem visits_eq {arrival : Job → Arrival} (htells : Tells c s arrival) :
    c.visits = (paired c s arrival).map (Visit.map Prod.fst) := by
  have hvisits : ∀ {is : List Nat} {ks : List Job},
      List.Forall₂ (fun i j => ∃ w, c.workers[i]? = some w ∧ Serves j w (arrival j)) is ks →
      (is.filterMap fun i => c.workers[i]?.map fun w =>
          (⟨i, w.assignment, w.finding⟩ : Visit Nat))
        = (is.zip ks).map fun v => ⟨v.1, .ofJob v.2, (arrival v.2).finding v.2⟩ := by
    intro is ks hall
    induction hall with
    | nil => rfl
    | @cons i j is ks hi _ ih =>
        obtain ⟨w, hw, ha⟩ := hi
        rw [List.filterMap_cons_some (b := ⟨i, w.assignment, w.finding⟩) (by rw [hw]; rfl), ih,
          ha.assignment, ha.finding]
        rfl
  rw [visits, hvisits htells, paired, List.map_map]
  rfl

theorem map_visitOf_eq (h : Follows js c s) (arrival : Job → Arrival) :
    s.active.map (visitOf arrival) = (paired c s arrival).map (Visit.map Prod.snd) := by
  have hsnd : (c.active.zip s.active).map Prod.snd = s.active :=
    List.map_snd_zip (Nat.le_of_eq h.active.length_eq.symm)
  rw [paired, List.map_map]
  conv_lhs => rw [← hsnd, List.map_map]
  rfl

/-- The active workers that are found running, with their jobs. -/
def stillActive (c : Crew) (s : State) (arrival : Job → Arrival) : List (Nat × Job) :=
  (c.active.zip s.active).filter fun v => (arrival v.2).ending?.isNone

theorem collect_paired (arrival : Job → Arrival) :
    (Batch.collect (paired c s arrival)).remaining = stillActive c s arrival
      ∧ (Batch.collect (paired c s arrival)).fault = none := by
  have hsound : ∀ v ∈ paired c s arrival, v.Sound := by
    intro v hv
    obtain ⟨w, -, rfl⟩ := List.mem_map.mp hv
    exact sound_visitOf arrival w.2
  rw [collect_of_sound hsound]
  refine ⟨?_, rfl⟩
  dsimp only
  rw [paired, List.filter_map, List.map_map, stillActive]
  refine (List.map_id _).trans (List.filter_congr fun v _ => ?_)
  exact isRunning_visitOf arrival v.2

/-- A pass over the crew is a pass of the batch. No record stops it, and it changes no
worker. -/
theorem collect (h : Follows js c s) {arrival : Job → Arrival} (htells : Tells c s arrival) :
    (c.step .collect).2 = none ∧ (c.step .collect).1.workers = c.workers
      ∧ (c.step .collect).1.active = (stillActive c s arrival).map Prod.fst
      ∧ (s.afterPass arrival).active = (stillActive c s arrival).map Prod.snd
      ∧ Follows js (c.step .collect).1 (s.afterPass arrival) := by
  obtain ⟨hremaining, hfault⟩ := collect_paired (c := c) (s := s) arrival
  have hcrew : Batch.collect c.visits = (Batch.collect (paired c s arrival)).map Prod.fst := by
    rw [visits_eq htells, collect_map]
  have hbatch := collect_visitOf arrival s.active
  rw [h.map_visitOf_eq arrival, collect_map] at hbatch
  obtain ⟨hactive, houtcomes, hwritten, hlog, -⟩ := Pass.mk.inj hbatch
  have hnone : (Batch.collect c.visits).fault = none := by
    rw [hcrew, Pass.map, hfault]
    rfl
  have hafter : (c.step .collect).1 = { c with
      active := (stillActive c s arrival).map Prod.fst
      outcomes := c.outcomes ++ (Batch.collect (paired c s arrival)).outcomes
      written := c.written ++ (Batch.collect (paired c s arrival)).written
      log := c.log ++ (Batch.collect (paired c s arrival)).log } := by
    simp only [step, afterPass, hnone]
    rw [hcrew, ← hremaining]
    rfl
  rw [hremaining] at hactive
  rw [hafter]
  refine ⟨by simp only [step, hnone, Option.map_none], rfl, rfl, hactive.symm, h.jobs, h.workers,
    ?_, ?_, ?_, ?_⟩
  · -- whoever is still active was so before, under the same number
    obtain ⟨-, hall⟩ := List.forall₂_iff_zip.mp h.active
    rw [State.afterPass, ← hactive, List.forall₂_map_left_iff, List.forall₂_map_right_iff,
      List.forall₂_same]
    exact fun v hv => hall (List.mem_filter.mp hv).1
  · rw [State.afterPass, ← houtcomes, h.outcomes]
  · rw [State.afterPass, ← hwritten, h.written]
  · rw [State.afterPass, ← hlog]
    exact h.log.append (List.Sublist.refl _)

end Follows

/-! ## What a crew comes to -/

/-- One event keeps a crew with a batch that can come to be where it is. -/
theorem exists_reachable_step (hjs : js.Nodup) {e : Event} (hs : Reachable limit js s)
    (h : Follows js c s) (he : Happens limit js c e) :
    (c.step e).2 = none ∧ ∃ s', Reachable limit js s' ∧ Follows js (c.step e).1 s' := by
  cases he with
  | start room next =>
      rw [h.active.length_eq] at room
      exact ⟨rfl, _, .move hs (.start room), h.start next⟩
  | work possible => exact ⟨rfl, s, hs, h.work possible⟩
  | exit code possible => exact ⟨rfl, s, hs, h.exit _ code⟩
  | collect =>
      obtain ⟨arrival, htells⟩ := h.exists_tells hjs
      obtain ⟨hnone, -, -, -, hfollows⟩ := h.collect htells
      exact ⟨hnone, _, reachable_afterPass arrival hs, hfollows⟩

/-- **A crew comes to nothing but what a batch can come to.** -/
theorem exists_reachable (hjs : js.Nodup) (h : Reaches limit js c) :
    ∃ s, Reachable limit js s ∧ Follows js c s := by
  induction h with
  | empty => exact ⟨_, .initial, follows_empty js⟩
  | event _ he ih =>
      obtain ⟨s, hs, hfollows⟩ := ih
      exact (exists_reachable_step hjs hs hfollows he).2

/-! ## What a batch comes to -/

/-- A crew goes with a state of a batch, and none of its active workers has done anything
yet. -/
structure Waits (js : List Job) (c : Crew) (s : State) : Prop extends Follows js c s where
  nodup : c.active.Nodup
  idle : List.Forall₂ (fun i j => c.workers[i]? = some (fresh j)) c.active s.active

theorem waits_empty (js : List Job) : Waits js .empty (.initial js) :=
  { follows_empty js with nodup := .nil, idle := .nil }

namespace Follows

theorem lt_of_mem_active (h : Follows js c s) {i : Nat} (hi : i ∈ c.active) :
    i < c.workers.length := by
  obtain ⟨k, hk, rfl⟩ := List.getElem_of_mem hi
  have hjob := (List.forall₂_iff_get.mp h.active).2 k hk (h.active.length_eq ▸ hk)
  rw [← h.workers.length_eq]
  exact (List.getElem?_eq_some_iff.mp hjob).1

end Follows

theorem Waits.start (h : Waits js c s) {j : Job} (hnext : js[c.workers.length]? = some j) :
    Waits js (c.step (.start (.ofJob j))).1 (s.fill (s.active.length + 1)) := by
  obtain ⟨rest, hpending⟩ := h.pending_eq hnext
  refine { h.toFollows.start hnext with nodup := ?_, idle := ?_ }
  · refine List.nodup_append.mpr ⟨h.nodup, List.nodup_singleton _, fun i hi k hk => ?_⟩
    obtain rfl := List.mem_singleton.mp hk
    exact Nat.ne_of_lt (h.lt_of_mem_active hi)
  · rw [State.fill_succ hpending]
    refine List.rel_append (h.idle.imp fun i k hi => ?_) (.cons ?_ .nil)
    · exact List.getElem?_append_left (List.getElem?_eq_some_iff.mp hi).1 ▸ hi
    · show (c.workers ++ [fresh j])[c.workers.length]? = some (fresh j)
      rw [List.getElem?_append_right (Nat.le_refl _), Nat.sub_self]
      rfl

/-- The crew can fill its places as the batch does. -/
theorem exists_fill (hc : Reaches limit js c) (h : Waits js c s) :
    ∃ c', Reaches limit js c' ∧ Waits js c' (s.fill limit) := by
  refine State.fill_induction (P := fun s => ∃ c, Reaches limit js c ∧ Waits js c s)
    (fun s hroom => ?_) _ s (Nat.le_refl _) ⟨c, hc, h⟩
  rintro ⟨c, hc, h⟩
  cases hpending : s.pending with
  | nil =>
      rw [State.fill_of_no_pending hpending]
      exact ⟨c, hc, h⟩
  | cons j rest =>
      have hnext : js[c.workers.length]? = some j := by
        rw [← h.jobs, hpending, ← h.workers.length_eq,
          List.getElem?_append_right (Nat.le_refl _), Nat.sub_self]
        rfl
      have hroom' : c.active.length < limit := h.active.length_eq.symm ▸ hroom
      exact ⟨_, hc.event (.start hroom' hnext), h.start hnext⟩

/-- A worker that has not done anything can come to whatever the arrival says. -/
theorem exists_arrived (hc : Reaches limit js c) (h : Follows js c s) {i : Nat} {j : Job}
    (hactive : i ∈ c.active) (hi : c.workers[i]? = some (fresh j))
    (hline : Decimal.IsWritable j.line.val) (a : Arrival) :
    ∃ c' f, Reaches limit js c' ∧ Follows js c' s ∧ c'.active = c.active
      ∧ c'.workers = c.workers.modify i f ∧ Serves j (f (fresh j)) a := by
  cases a with
  | running =>
      exact ⟨c, id, hc, h, rfl, (List.modify_id _ _).symm, .running⟩
  | delivered =>
      have hpossible : c.hindrance? (.work i) = none := by
        simp only [hindrance?, hi, Worker.job_fresh, sendHindrance?]
        simp [fresh, Pipe.fresh, hactive]
      exact ⟨_, _, hc.event (.work hpossible), h.work hpossible, rfl, rfl,
        Worker.work_fresh hline⟩
  | crashed code =>
      have hpossible : c.hindrance? (.exit i code) = none :=
        if_pos (List.getElem?_eq_some_iff.mp hi).1
      exact ⟨_, _, hc.event (.exit code hpossible), h.exit i code, rfl, rfl, .crashed code⟩

/-- The active workers can come, one after the other, to what the arrivals say. -/
theorem exists_tells (arrival : Job → Arrival) : ∀ {is : List Nat} {ks : List Job} {c : Crew},
    Reaches limit js c → Follows js c s → is.Nodup → (∀ i ∈ is, i ∈ c.active) →
    (∀ j ∈ ks, Decimal.IsWritable j.line.val) →
    List.Forall₂ (fun i j => c.workers[i]? = some (fresh j)) is ks →
    ∃ c', Reaches limit js c' ∧ Follows js c' s ∧ c'.active = c.active
      ∧ (∀ i, i ∉ is → c'.workers[i]? = c.workers[i]?)
      ∧ List.Forall₂ (fun i j => ∃ w, c'.workers[i]? = some w ∧ Serves j w (arrival j)) is ks
  | [], [], c, hc, h, _, _, _, .nil => ⟨c, hc, h, rfl, fun _ _ => rfl, .nil⟩
  | i :: is, j :: ks, c, hc, h, hnodup, hactive, hlines, .cons hi his => by
      obtain ⟨hnew, hnodup⟩ := List.nodup_cons.mp hnodup
      obtain ⟨hline, hlines⟩ := List.forall_mem_cons.mp hlines
      obtain ⟨hmem, hactive⟩ := List.forall_mem_cons.mp hactive
      obtain ⟨c', hc', h', hactive', hothers, htells⟩ :=
        exists_tells arrival hc h hnodup hactive hlines his
      have hi' : c'.workers[i]? = some (fresh j) := (hothers i hnew).trans hi
      obtain ⟨c'', f, hc'', h'', hactive'', hworkers, hserves⟩ :=
        exists_arrived hc' h' (hactive' ▸ hmem) hi' hline (arrival j)
      refine ⟨c'', hc'', h'', hactive''.trans hactive', fun k hk => ?_, .cons ⟨_, ?_, hserves⟩ ?_⟩
      · obtain ⟨hki, hk⟩ := not_or.mp (mt List.mem_cons.mpr hk)
        rw [hworkers, List.getElem?_modify_ne _ _ (Ne.symm hki)]
        exact hothers k hk
      · rw [hworkers, List.getElem?_modify_eq, hi']
        rfl
      · have hother : ∀ k ∈ is, k ≠ i := fun k hk hki => hnew (hki ▸ hk)
        refine ((List.forall₂_and_left is ks).mpr ⟨hother, htells⟩).imp ?_
        rintro k l ⟨hki, w, hw, hl⟩
        refine ⟨w, ?_, hl⟩
        rwa [hworkers, List.getElem?_modify_ne _ _ (Ne.symm hki)]

/-- The crew can make a pass as the batch does, whatever the arrivals. -/
theorem exists_pass (hc : Reaches limit js c) (h : Waits js c s)
    (hlines : ∀ j ∈ js, Decimal.IsWritable j.line.val) (arrival : Job → Arrival) :
    ∃ c', Reaches limit js c' ∧ Waits js c' (s.afterPass arrival) := by
  have hactive : ∀ j ∈ s.active, j ∈ js := by
    intro j hj
    obtain ⟨k, hk, rfl⟩ := List.getElem_of_mem hj
    have hjob := (List.forall₂_iff_get.mp h.active).2 k (h.active.length_eq.symm ▸ hk) hk
    rw [← h.jobs]
    exact List.mem_append_left _ (List.mem_of_getElem? hjob)
  obtain ⟨c', hc', h', hsame, -, htells⟩ := exists_tells arrival hc h.toFollows h.nodup
    (fun _ hi => hi) (fun j hj => hlines j (hactive j hj)) h.idle
  rw [← hsame] at htells
  obtain ⟨-, hworkers, hleft, hright, hfollows⟩ := h'.collect htells
  refine ⟨_, hc'.event .collect, { hfollows with nodup := ?_, idle := ?_ }⟩
  · have hfst : (c'.active.zip s.active).map Prod.fst = c'.active :=
      List.map_fst_zip (Nat.le_of_eq h'.active.length_eq)
    have hnodup : c'.active.Nodup := hsame ▸ h.nodup
    rw [hleft]
    rw [← hfst] at hnodup
    exact hnodup.sublist (List.filter_sublist.map _)
  · obtain ⟨-, hall⟩ := List.forall₂_iff_zip.mp htells
    rw [hleft, hright, List.forall₂_map_left_iff, List.forall₂_map_right_iff, List.forall₂_same]
    intro v hv
    obtain ⟨hmem, hrunning⟩ := List.mem_filter.mp hv
    obtain ⟨w, hw, hserves⟩ := hall hmem
    rw [Arrival.ending?_eq_none_iff.mp (Option.isNone_iff_eq_none.mp hrunning)] at hserves
    rw [hworkers, hw, hserves.eq_fresh]

theorem exists_follow (hlines : ∀ j ∈ js, Decimal.IsWritable j.line.val) :
    ∀ {schedule : Schedule} {c : Crew} {s s' : State}, Reaches limit js c → Waits js c s →
      s.follow limit schedule = .ok s' → ∃ c', Reaches limit js c' ∧ Waits js c' s'
  | [], c, s, s', hc, h, hs => by
      obtain rfl := Except.ok.inj hs
      exact ⟨c, hc, h⟩
  | arrival :: rest, c, s, s', hc, h, hs => by
      rw [State.follow, State.pass_eq_ok] at hs
      split at hs
      · obtain rfl := Except.ok.inj hs
        exact ⟨c, hc, h⟩
      · obtain ⟨c₁, hc₁, h₁⟩ := exists_pass hc h hlines arrival
        obtain ⟨c₂, hc₂, h₂⟩ := exists_fill hc₁ h₁
        exact exists_follow hlines hc₂ h₂ hs

/-- **A batch comes to nothing but what a crew can come to.** -/
theorem exists_crew_of_process (hlines : ∀ j ∈ js, Decimal.IsWritable j.line.val)
    {schedule : Schedule} (h : process limit schedule js = .ok s) :
    ∃ c, Reaches limit js c ∧ Follows js c s := by
  have hempty : Reaches limit js .empty := .empty
  obtain ⟨c₁, hc₁, h₁⟩ := exists_fill hempty (waits_empty js)
  obtain ⟨c, hc, hw⟩ := exists_follow hlines hc₁ h₁ h
  exact ⟨c, hc, hw.toFollows⟩

end Crew

/-! ## Runs -/

theorem isWritable_of_mem_jobs {es : List Text} (h : Decimal.IsWritable es.length) {j : Job}
    (hj : j ∈ jobs es) : Decimal.IsWritable j.line.val :=
  Nat.lt_of_le_of_lt (line_le_length hj) h

/-- **What a run returns, some crew has brought in.** Whenever a run returns its outcomes,
there is a crew that works off its jobs with no more workers than it may have, so that at
the end no worker is active, one has been started for each job, the outcomes have come in
in their order, and the text that has been written is in the results file. -/
theorem exists_crew_of_run {b : Batch} {host : Host} {fs : Files}
    {schedule : List Job → Schedule} {es : List Text} {os : List Outcome}
    (hes : Source.expressions host fs b.input = .ok es)
    (hcount : Decimal.IsWritable es.length)
    (hos : (b.run host fs schedule).result = .ok os) :
    ∃ c, Crew.Reaches (limitFor b.workers host.processors es.length) (jobs es) c
      ∧ c.active = [] ∧ c.workers.length = es.length ∧ c.outcomes = os
      ∧ (b.run host fs schedule).files.find b.output = .ok (.file (Utf8.encode c.written)) := by
  obtain ⟨-, l, -, hl⟩ := exists_open_of_run hos
  obtain ⟨s, hs, hc, rfl, hfiles⟩ := exists_complete_of_run hes hl hos
  obtain ⟨hlocate, hwritable⟩ := Files.writable_of_target hl
  obtain ⟨c, hreaches, h⟩ :=
    Crew.exists_crew_of_process (fun j hj => isWritable_of_mem_jobs hcount hj) hs
  obtain ⟨hactive, -⟩ := Bool.and_eq_true_iff.mp hc
  refine ⟨c, hreaches, ?_, ?_, h.outcomes, ?_⟩
  · rw [← List.length_eq_zero_iff, h.active.length_eq, List.isEmpty_iff.mp hactive]
    rfl
  · rw [← h.workers.length_eq, started_of_process hs hc, length_jobs]
  · rw [hfiles, h.written]
    exact Files.find_put hlocate hwritable

end Reckon.Batch
