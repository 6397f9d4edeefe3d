import Mathlib.Data.List.Nodup
import Reckon.Batch.Run
import Reckon.Proofs.Passes
import Reckon.Proofs.Unpacking

/-!
# A batch under any schedule

A batch under way splits its jobs into three: those that are finished, those with
an active worker, and those that are pending. `State.left` is the last two, in the
order of the lines; filling free places does not change it (`left_fill`), and a
pass takes out exactly the jobs whose workers it finds ended (`perm_afterPass`).
One induction over the schedule carries this through a whole run
(`State.follow_eq_ok`), together with what the outcomes and the text of the file
are: both are read off the endings that the visits found.

From there on nothing is about schedules any more. In a complete run every job
has exactly one ending, so the outcomes are a permutation of the outcomes of the
jobs, and sorting by line undoes it (`mergeSort_eq_map_jobs`).
-/

namespace Reckon

namespace Batch

/-! ## Jobs -/

theorem map_line_jobsAfter : ∀ (before : Nat) (es : List Text),
    (jobsAfter before es).map (fun j => j.line.val) = List.range' (before + 1) es.length
  | _, [] => rfl
  | before, e :: es => by
      rw [jobsAfter, List.map_cons, map_line_jobsAfter (before + 1) es, List.length_cons,
        List.range'_succ]

theorem map_line_jobs (es : List Text) :
    (jobs es).map (fun j => j.line.val) = List.range' 1 es.length :=
  map_line_jobsAfter 0 es

theorem length_jobs (es : List Text) : (jobs es).length = es.length := by
  rw [← List.length_map (fun j : Job => j.line.val), map_line_jobs, List.length_range']

theorem pairwise_jobs (es : List Text) : (jobs es).Pairwise fun j k => j.line.val < k.line.val := by
  have h : ((jobs es).map fun j => j.line.val).Pairwise (· < ·) := by
    rw [map_line_jobs]
    exact List.pairwise_lt_range'
  exact List.pairwise_map.mp h

theorem nodup_map_line_jobs (es : List Text) : ((jobs es).map fun j => j.line.val).Nodup := by
  rw [map_line_jobs]
  exact List.nodup_range'

theorem nodup_jobs (es : List Text) : (jobs es).Nodup := (nodup_map_line_jobs es).of_map _

/-- A line number belongs to one job. -/
theorem eq_of_line_eq {es : List Text} {j k : Job} (hj : j ∈ jobs es) (hk : k ∈ jobs es)
    (h : j.line.val = k.line.val) : j = k :=
  List.inj_on_of_nodup_map (nodup_map_line_jobs es) hj hk h

/-! ## What is left to do -/

namespace State

/-- The jobs that are not finished: those with an active worker, then the pending
ones. -/
def left (s : State) : List Job := s.active ++ s.pending

theorem left_initial (js : List Job) : (initial js).left = js := rfl

theorem left_fill (limit : Nat) (s : State) : (s.fill limit).left = s.left := by
  rw [left, left, fill, List.append_assoc, List.take_append_drop]

theorem left_eq_nil {s : State} (h : s.isComplete = true) : s.left = [] := by
  obtain ⟨ha, hp⟩ := Bool.and_eq_true_iff.mp h
  rw [left, List.isEmpty_iff.mp ha, List.isEmpty_iff.mp hp]
  rfl

end State

/-- The jobs of a pass are those it finds ended and those it finds running. -/
theorem perm_endingsOf (arrival : Job → Arrival) : ∀ js : List Job,
    js.Perm ((endingsOf arrival js).map Prod.fst ++ js.filter fun j => (arrival j).ending?.isNone)
  | [] => .nil
  | j :: js => by
      have ih := perm_endingsOf arrival js
      rw [endingsOf] at ih ⊢
      rw [filterMap_reverse_cons, List.map_append]
      cases h : (arrival j).ending? with
      | none =>
          rw [List.filter_cons_of_pos (by rw [h]; rfl)]
          simp only [Option.map_none, Option.toList_none, List.map_nil, List.append_nil]
          exact (ih.cons j).trans List.perm_middle.symm
      | some e =>
          rw [List.filter_cons_of_neg (by rw [h]; exact Bool.false_ne_true)]
          simp only [Option.map_some, Option.toList_some, List.map_cons, List.map_nil,
            List.append_assoc, List.singleton_append]
          exact (ih.cons j).trans List.perm_middle.symm

theorem State.perm_afterPass (arrival : Job → Arrival) (s : State) :
    s.left.Perm ((endingsOf arrival s.active).map Prod.fst ++ (s.afterPass arrival).left) := by
  rw [left, left, ← List.append_assoc]
  exact (perm_endingsOf arrival s.active).append_right s.pending

/-! ## The visits of a run -/

/-- The endings among visits. -/
def endingsIn (vs : List (Job × Arrival)) : List (Job × Ending) :=
  vs.filterMap fun v => v.2.ending?.map (v.1, ·)

theorem endingsIn_append (vs ws : List (Job × Arrival)) :
    endingsIn (vs ++ ws) = endingsIn vs ++ endingsIn ws := List.filterMap_append

theorem mem_endingsIn {vs : List (Job × Arrival)} {j : Job} {e : Ending} :
    (j, e) ∈ endingsIn vs ↔ (j, e.arrival) ∈ vs := by
  rw [endingsIn, List.mem_filterMap]
  constructor
  · rintro ⟨⟨k, a⟩, hmem, h⟩
    obtain ⟨e', he', heq⟩ := Option.map_eq_some_iff.mp h
    obtain ⟨rfl, rfl⟩ := Prod.mk.inj heq
    obtain rfl := Arrival.ending?_eq_some_iff.mp he'
    exact hmem
  · intro h
    exact ⟨_, h, by rw [Arrival.ending?_eq_some_iff.mpr rfl]; rfl⟩

theorem outcomesOf_append (es fs : List (Job × Ending)) :
    outcomesOf (es ++ fs) = outcomesOf es ++ outcomesOf fs := List.map_append

namespace State

/-- The visits that are made while a schedule is followed, each with what it finds
of the worker. A pass visits the last active worker first. -/
def visits (limit : Nat) : Schedule → State → List (Job × Arrival)
  | [], _ => []
  | arrival :: rest, s =>
    if s.isComplete then []
    else
      match s.pass arrival with
      | .ok next =>
        (s.active.reverse.map fun j => (j, arrival j)) ++ visits limit rest (next.fill limit)
      | .error _ => []

/-- What a visit finds is what the schedule says of the worker. -/
theorem exists_arrival_of_visit {limit : Nat} {j : Job} {a : Arrival} :
    ∀ {schedule : Schedule} {s : State}, (j, a) ∈ visits limit schedule s →
      ∃ arrival ∈ schedule, arrival j = a
  | [], _, h => by cases h
  | arrival :: rest, s, h => by
      rw [visits, pass_eq_ok] at h
      split at h
      case isTrue => cases h
      case isFalse =>
        rcases List.mem_append.mp h with h | h
        · obtain ⟨k, -, hk⟩ := List.mem_map.mp h
          obtain ⟨rfl, rfl⟩ := Prod.mk.inj hk
          exact ⟨arrival, List.mem_cons_self .., rfl⟩
        · obtain ⟨arrival', hmem, ha⟩ := exists_arrival_of_visit h
          exact ⟨arrival', List.mem_cons_of_mem _ hmem, ha⟩

theorem endingsIn_pass (arrival : Job → Arrival) (js : List Job) :
    endingsIn (js.reverse.map fun j => (j, arrival j)) = endingsOf arrival js := by
  rw [endingsIn, List.filterMap_map]
  rfl

/-- **A run in closed form.** No record ever stops it. Its outcomes are the outcomes
of the endings found, in the order of the visits; the text of the file is that of the
outcomes; and the jobs are split between the endings found and what is left. -/
theorem follow_eq_ok (limit : Nat) : ∀ (schedule : Schedule) (s : State), ∃ s',
    s.follow limit schedule = .ok s'
      ∧ s'.outcomes = s.outcomes ++ outcomesOf (endingsIn (visits limit schedule s))
      ∧ s'.written = s.written
          ++ (outcomesOf (endingsIn (visits limit schedule s))).flatMap fileLine
      ∧ s.left.Perm ((endingsIn (visits limit schedule s)).map Prod.fst ++ s'.left)
  | [], s => ⟨s, rfl, (List.append_nil _).symm, (List.append_nil _).symm, .refl _⟩
  | arrival :: rest, s => by
      rw [follow, visits, pass_eq_ok]
      by_cases hc : s.isComplete = true
      · rw [if_pos hc, if_pos hc]
        exact ⟨s, rfl, (List.append_nil _).symm, (List.append_nil _).symm, .refl _⟩
      · rw [if_neg hc, if_neg hc]
        obtain ⟨s', hs', hout, hwritten, hperm⟩ :=
          follow_eq_ok limit rest ((s.afterPass arrival).fill limit)
        refine ⟨s', hs', ?_, ?_, ?_⟩
        · rw [hout, endingsIn_append, endingsIn_pass, outcomesOf_append, ← List.append_assoc]
          rfl
        · rw [hwritten, endingsIn_append, endingsIn_pass, outcomesOf_append, List.flatMap_append,
            ← List.append_assoc]
          rfl
        · -- new workers come out of the pending jobs, so starting them loses none
          rw [left_fill] at hperm
          rw [endingsIn_append, endingsIn_pass, List.map_append, List.append_assoc]
          exact (perm_afterPass arrival s).trans (hperm.append_left _)

/-- What has been started and what is pending are the same jobs all along. -/
theorem started_follow {limit : Nat} : ∀ {schedule : Schedule} {s s' : State},
    s.follow limit schedule = .ok s' → s'.started ++ s'.pending = s.started ++ s.pending
  | [], s, s', h => by
      obtain rfl := Except.ok.inj h
      rfl
  | arrival :: rest, s, s', h => by
      rw [follow, pass_eq_ok] at h
      split at h
      case isTrue =>
        obtain rfl := Except.ok.inj h
        rfl
      case isFalse =>
        rw [started_follow h, fill, List.append_assoc, List.take_append_drop]
        rfl

end State

/-- The visits of a batch over expressions. -/
def visits (b : Batch) (processors : Nat) (schedule : Schedule) (es : List Text) :
    List (Job × Arrival) :=
  let limit := limitFor b.workers processors es.length
  State.visits limit schedule ((State.initial (jobs es)).fill limit)

theorem process_eq_ok (b : Batch) (processors : Nat) (schedule : Schedule) (es : List Text) :
    ∃ s, process (limitFor b.workers processors es.length) schedule (jobs es) = .ok s
      ∧ s.outcomes = outcomesOf (endingsIn (b.visits processors schedule es))
      ∧ s.written = s.outcomes.flatMap fileLine
      ∧ (jobs es).Perm ((endingsIn (b.visits processors schedule es)).map Prod.fst ++ s.left) := by
  obtain ⟨s, hs, hout, hwritten, hperm⟩ :=
    State.follow_eq_ok (limitFor b.workers processors es.length) schedule
      ((State.initial (jobs es)).fill (limitFor b.workers processors es.length))
  rw [State.left_fill, State.left_initial] at hperm
  exact ⟨s, hs, hout, hwritten.trans (by rw [hout]; rfl), hperm⟩

/-- A batch that has come to its end has started a worker for each job, in their order. -/
theorem started_of_process {limit : Nat} {schedule : Schedule} {js : List Job} {s : State}
    (hs : process limit schedule js = .ok s) (hc : s.isComplete = true) : s.started = js := by
  have h := State.started_follow hs
  rw [List.isEmpty_iff.mp (Bool.and_eq_true_iff.mp hc).2, List.append_nil] at h
  rw [h, State.fill, State.initial, List.nil_append, List.take_append_drop]

/-- Reading the expressions leaves the files as they are, so a run can be told without the
files that it has left. -/
theorem run_eq (b : Batch) (host : Host) (fs : Files) (schedule : List Job → Schedule) :
    b.run host fs schedule = match Source.expressions host fs b.input with
      | .error f => ⟨fs, [], [], .error (.source f)⟩
      | .ok es =>
        match fs.target b.output with
        | .error f => ⟨fs, [], [b.loadedEntry es.length], .error (.output f b.output)⟩
        | .ok l => b.writeResults fs host.processors (schedule (jobs es)) es l := by
  rewrite [run, Source.load_files]
  rfl

/-- Once its files are open, a run works off its jobs into the results file, and nothing
is missing from what it returns but that it may not have come to its end. -/
theorem run_of_open {b : Batch} {host : Host} {fs : Files} {es : List Text} {l : Location}
    (schedule : List Job → Schedule) (hes : Source.expressions host fs b.input = .ok es)
    (hl : fs.target b.output = .ok l) :
    ∃ s, process (limitFor b.workers host.processors es.length) (schedule (jobs es)) (jobs es)
          = .ok s
      ∧ (b.run host fs schedule).files = fs.put l (Utf8.encode s.written)
      ∧ (b.run host fs schedule).result
          = if s.isComplete then .ok s.outcomes else .error .unfinished := by
  obtain ⟨s, hs, -⟩ := process_eq_ok b host.processors (schedule (jobs es)) es
  refine ⟨s, hs, ?_⟩
  simp only [run_eq, hes, hl, writeResults, hs]
  split <;> exact ⟨rfl, rfl⟩

/-! ## Every job ends once -/

/-- Endings of different jobs are a function of the job. -/
theorem exists_ending_of_nodup {es : List (Job × Ending)} (h : (es.map Prod.fst).Nodup) :
    ∃ ending : Job → Ending, ∀ v ∈ es, v.2 = ending v.1 := by
  have hone : ∀ j, ∃ e, ∀ v ∈ es, v.1 = j → v.2 = e := by
    intro j
    by_cases hj : ∃ v ∈ es, v.1 = j
    · obtain ⟨v, hv, rfl⟩ := hj
      exact ⟨v.2, fun w hw hwv => by rw [List.inj_on_of_nodup_map h hw hv hwv]⟩
    · exact ⟨.delivered, fun v hv hvj => absurd ⟨v, hv, hvj⟩ hj⟩
  obtain ⟨ending, hending⟩ := Classical.axiomOfChoice hone
  exact ⟨ending, fun v hv => hending v.1 v hv rfl⟩

theorem outcomesOf_eq {es : List (Job × Ending)} {ending : Job → Ending}
    (h : ∀ v ∈ es, v.2 = ending v.1) :
    outcomesOf es = (es.map Prod.fst).map fun j => outcomeOf j (ending j) := by
  rw [outcomesOf, List.map_map]
  refine List.map_congr_left fun v hv => ?_
  rw [Function.comp_apply, h v hv]

/-- The visits to a job that has ended: none finds an ending but its own, and one
finds it. -/
theorem mem_visits_iff {vs : List (Job × Arrival)} {ending : Job → Ending}
    (h : ∀ v ∈ endingsIn vs, v.2 = ending v.1) {j : Job} (hj : j ∈ (endingsIn vs).map Prod.fst)
    {a : Arrival} (ha : a ≠ .running) : (j, a) ∈ vs ↔ a = (ending j).arrival := by
  constructor
  · intro hmem
    obtain ⟨e, he⟩ := Option.ne_none_iff_exists'.mp (mt Arrival.ending?_eq_none_iff.mp ha)
    obtain rfl := Arrival.ending?_eq_some_iff.mp he
    rw [← h (j, e) (mem_endingsIn.mpr hmem)]
  · rintro rfl
    obtain ⟨⟨k, e⟩, hmem, rfl⟩ := List.mem_map.mp hj
    rw [← h (k, e) hmem]
    exact mem_endingsIn.mp hmem

/-- If the endings among visits are those of all the jobs, then the job alone tells
its ending, and the outcomes are those of the jobs in some order. -/
theorem exists_ending {es : List Text} {vs : List (Job × Arrival)}
    (h : (jobs es).Perm ((endingsIn vs).map Prod.fst)) :
    ∃ ending : Job → Ending,
      (outcomesOf (endingsIn vs)).Perm ((jobs es).map fun j => outcomeOf j (ending j))
        ∧ ∀ j ∈ jobs es, ∀ a, a ≠ .running → ((j, a) ∈ vs ↔ a = (ending j).arrival) := by
  obtain ⟨ending, hending⟩ := exists_ending_of_nodup ((nodup_jobs es).perm h)
  refine ⟨ending, ?_, fun j hj a ha => mem_visits_iff hending (h.subset hj) ha⟩
  rw [outcomesOf_eq hending]
  exact h.symm.map _

/-- A worker that is not found crashed has delivered. -/
theorem evaluate_mem {es : List Text} {os : List Outcome} {ending : Job → Ending}
    (h : os.Perm ((jobs es).map fun j => outcomeOf j (ending j))) {j : Job} (hj : j ∈ jobs es)
    (hcrash : ∀ code, ending j ≠ .crashed code) : j.evaluate ∈ os := by
  have hmem : outcomeOf j (ending j) ∈ os := h.symm.subset (List.mem_map_of_mem hj)
  cases he : ending j with
  | delivered => rwa [he] at hmem
  | crashed code => exact absurd he (hcrash code)

/-- Sorting by line undoes any reordering of the outcomes of the jobs. -/
theorem mergeSort_eq_map_jobs {es : List Text} {os : List Outcome} {ending : Job → Ending}
    (h : os.Perm ((jobs es).map fun j => outcomeOf j (ending j))) :
    os.mergeSort (fun o p => o.line.val ≤ p.line.val)
      = (jobs es).map fun j => outcomeOf j (ending j) := by
  have hperm := (List.mergeSort_perm os fun o p => decide (o.line.val ≤ p.line.val)).trans h
  have hsorted : (os.mergeSort fun o p => o.line.val ≤ p.line.val).Pairwise
      fun o p => o.line.val ≤ p.line.val := by
    refine (List.pairwise_mergeSort (fun o p q hop hpq => ?_) (fun o p => ?_) os).imp
      of_decide_eq_true
    · exact decide_eq_true (Nat.le_trans (of_decide_eq_true hop) (of_decide_eq_true hpq))
    · rw [Bool.or_eq_true, decide_eq_true_eq, decide_eq_true_eq]
      exact Nat.le_total _ _
  refine hperm.eq_of_pairwise ?_ hsorted ?_
  · intro o p ho hp hop hpo
    obtain ⟨j, hj, rfl⟩ := List.mem_map.mp (hperm.subset ho)
    obtain ⟨k, hk, rfl⟩ := List.mem_map.mp hp
    rw [line_outcomeOf, line_outcomeOf] at hop hpo
    rw [eq_of_line_eq hj hk (Nat.le_antisymm hop hpo)]
  · rw [List.pairwise_map]
    refine (pairwise_jobs es).imp fun hjk => ?_
    rw [line_outcomeOf, line_outcomeOf]
    exact Nat.le_of_lt hjk

theorem map_line_perm {es : List Text} {os : List Outcome} {ending : Job → Ending}
    (h : os.Perm ((jobs es).map fun j => outcomeOf j (ending j))) :
    (os.map fun o => o.line.val).Perm (List.range' 1 es.length) := by
  have hmap := h.map fun o => o.line.val
  rw [List.map_map] at hmap
  have hline : (fun o : Outcome => o.line.val) ∘ (fun j => outcomeOf j (ending j))
      = fun j : Job => j.line.val := by
    funext j
    rw [Function.comp_apply, line_outcomeOf]
  rwa [hline, map_line_jobs] at hmap

/-- **No outcome is lost, none is doubled, and none depends on another line.** A
batch whose input can be read and whose results file can be opened either still has
workers active when its schedule ends, or it returns one outcome a line. Sorted by
line these are the outcomes of the jobs by how each one's own worker ended, which is
what the only visit told that did not find it running; so a job that is not found
crashed has its own evaluation for an outcome, whatever became of the others. The
results file holds the lines of the outcomes in the order in which they are returned. -/
theorem run_outcomes (b : Batch) (host : Host) (fs : Files) (schedule : List Job → Schedule)
    {es : List Text} {l : Location} (hes : Source.expressions host fs b.input = .ok es)
    (hl : fs.target b.output = .ok l) :
    (b.run host fs schedule).result = .error .unfinished
      ∨ ∃ (os : List Outcome) (ending : Job → Ending),
        (b.run host fs schedule).result = .ok os
          ∧ os.length = es.length
          ∧ (os.map fun o => o.line.val).Perm (List.range' 1 es.length)
          ∧ os.mergeSort (fun o p => o.line.val ≤ p.line.val)
              = (jobs es).map (fun j => outcomeOf j (ending j))
          ∧ (∀ j ∈ jobs es, ∀ a, a ≠ .running →
              ((j, a) ∈ b.visits host.processors (schedule (jobs es)) es ↔ a = (ending j).arrival))
          ∧ (∀ j ∈ jobs es,
              (∀ code, (j, .crashed code) ∉ b.visits host.processors (schedule (jobs es)) es) →
              j.evaluate ∈ os)
          ∧ (b.run host fs schedule).files
              = fs.put l (Utf8.encode (os.flatMap fun o => o.toLine ++ ['\n'])) := by
  obtain ⟨s, hs, hout, hwritten, hperm⟩ :=
    process_eq_ok b host.processors (schedule (jobs es)) es
  have hrun : b.run host fs schedule
      = b.writeResults fs host.processors (schedule (jobs es)) es l := by
    simp only [run_eq, hes, hl]
  rw [hrun, writeResults, hs]
  by_cases hc : s.isComplete = true
  · right
    -- nothing is left, so the endings that were found are those of all the jobs
    rw [State.left_eq_nil hc, List.append_nil] at hperm
    obtain ⟨ending, hos, hfound⟩ := exists_ending hperm
    rw [← hout] at hos
    refine ⟨s.outcomes, ending, ?_, ?_, map_line_perm hos, mergeSort_eq_map_jobs hos, hfound,
      fun j hj hcrash => ?_, ?_⟩
    · simp only [if_pos hc]
    · rw [hos.length_eq, List.length_map, length_jobs]
    · refine evaluate_mem hos hj fun code he => hcrash code ?_
      refine (hfound j hj (.crashed code) (fun h => by cases h)).mpr ?_
      rw [he]
      rfl
    · simp only [if_pos hc, hwritten]
      rfl
  · left
    simp only [if_neg hc]

/-! ### A batch with a worker that exits silently -/

/-- The lines of a small batch; the first cannot be evaluated. -/
def sampleLines : List Text := ["1 / 0".toList, "2 * 3".toList, "4 - 5".toList]

/-- The input file of the batch, with a blank line, and nothing else. -/
def sampleFiles : Files where
  entries := [(["in.txt".toList], .file (Utf8.encode "1 / 0\n\n2 * 3\n4 - 5\n".toList))]

/-- A host with eight processors and no archive libraries. -/
def sampleHost : Host := .plain 8 (Path.ofText "/unpacked".toList)

/-- A batch with room for two workers. -/
def sample : Batch := ⟨Path.ofText "in.txt".toList, Path.ofText "out.txt".toList, some 2⟩

/-- The worker of the second line is killed while that of the first is running. The
third takes its place, and the other two deliver. -/
def sampleSchedule (_ : List Job) : Schedule :=
  [fun j => if j.line.val = 2 then .crashed (-9) else .running, fun _ => .delivered]

/-- Only the line whose worker was killed has an outcome that is not its own. -/
theorem run_outcomes_sample :
    Source.expressions sampleHost sampleFiles sample.input = .ok sampleLines
      ∧ sampleFiles.target sample.output = .ok ["out.txt".toList]
      ∧ ∃ os : List Outcome, (sample.run sampleHost sampleFiles sampleSchedule).result = .ok os
          ∧ os.mergeSort (fun o p => o.line.val ≤ p.line.val)
              = [Job.evaluate ⟨⟨1, by decide⟩, "1 / 0".toList⟩,
                 Job.fail ⟨⟨2, by decide⟩, "2 * 3".toList⟩
                   "Worker exited with code -9 without a result".toList "WorkerCrashed".toList,
                 Job.evaluate ⟨⟨3, by decide⟩, "4 - 5".toList⟩] := by
  have hes : Source.expressions sampleHost sampleFiles sample.input = .ok sampleLines := by decide
  have hl : sampleFiles.target sample.output = .ok ["out.txt".toList] := by decide
  refine ⟨hes, hl, ?_⟩
  obtain hun | ⟨os, ending, hos, -, -, hsorted, hfound, -, -⟩ :=
    run_outcomes sample sampleHost sampleFiles sampleSchedule hes hl
  · exact absurd hun (by decide +kernel)
  · have hending : ∀ j ∈ jobs sampleLines, ∀ e : Ending, e.arrival ≠ .running →
        (j, e.arrival) ∈ sample.visits 8 (sampleSchedule (jobs sampleLines)) sampleLines →
        ending j = e := by
      intro j hj e he hmem
      have ha := (hfound j hj e.arrival he).mp hmem
      exact Option.some.inj ((Arrival.ending?_eq_some_iff.mpr ha).symm.trans
        (Arrival.ending?_eq_some_iff.mpr rfl))
    have h1 := hending ⟨⟨1, by decide⟩, "1 / 0".toList⟩ (by decide) .delivered (by decide)
      (by decide +kernel)
    have h2 := hending ⟨⟨2, by decide⟩, "2 * 3".toList⟩ (by decide) (.crashed (-9)) (by decide)
      (by decide +kernel)
    have h3 := hending ⟨⟨3, by decide⟩, "4 - 5".toList⟩ (by decide) .delivered (by decide)
      (by decide +kernel)
    refine ⟨os, hos, hsorted.trans ?_⟩
    simp only [jobs, sampleLines, jobsAfter, List.map_cons, List.map_nil, h1, h2, h3]
    rfl

end Batch

end Reckon
