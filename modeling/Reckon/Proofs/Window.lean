import Mathlib.Data.List.Induction
import Reckon.Proofs.Runs

/-!
# How far a batch can get out of order

A batch moves in two ways: it starts the next pending job if a place is free, or it
visits an active worker and, if that has ended, records its outcome. `Move` leaves the
choice between them, and the choice of the worker, to the environment. It so allows
more than the passes of a batch do, and `reachable_of_process` says that it allows
those: filling the places is a series of starts, and a pass is a series of visits.

`Window` is what every move keeps. The started jobs are the first lines, as many as
are active or recorded, and never more than `limit` of them are active. Hence an
outcome that comes after `p` others has a line number of at most `p + limit`. With one
place this leaves no choice, and the outcomes are in order (`Window.outcomeLines_eq`).
-/

namespace Reckon

namespace Batch

/-! ## Moves -/

namespace State

/-- The batch after a visit to the worker of `j`, which stands between `earlier` and
`later` among the active ones. -/
def afterVisit (s : State) (earlier : List Job) (j : Job) (later : List Job) (a : Arrival) :
    State :=
  let p := collect [⟨j, .ofJob j, a.finding j⟩]
  { s with
    active := earlier ++ p.remaining ++ later
    outcomes := s.outcomes ++ p.outcomes
    written := s.written ++ p.written
    log := s.log ++ p.log }

theorem afterVisit_eq (arrival : Job → Arrival) (s : State) (earlier : List Job) (j : Job)
    (later : List Job) : s.afterVisit earlier j later (arrival j) =
      { s with
        active := earlier ++ [j].filter (fun j => (arrival j).ending?.isNone) ++ later
        outcomes := s.outcomes ++ outcomesOf (endingsOf arrival [j])
        written := s.written ++ (outcomesOf (endingsOf arrival [j])).flatMap fileLine
        log := s.log ++ entriesOf arrival [j] } := by
  have hcollect : collect [⟨j, .ofJob j, (arrival j).finding j⟩] = _ := collect_visitOf arrival [j]
  simp only [afterVisit, hcollect]

theorem afterVisit_running {s : State} {earlier later : List Job} {j : Job}
    (h : s.active = earlier ++ j :: later) : s.afterVisit earlier j later .running = s := by
  obtain ⟨pending, active, outcomes, written, log⟩ := s
  cases h
  simp [afterVisit, collect_eq_visitEach, Pass.visitEach, Pass.visit, Pass.keep, Pass.empty,
    Arrival.finding]

theorem afterVisit_ended (s : State) (earlier : List Job) (j : Job) (later : List Job)
    (e : Ending) : s.afterVisit earlier j later e.arrival =
      { s with
        active := earlier ++ later
        outcomes := s.outcomes ++ [outcomeOf j e]
        written := s.written ++ fileLine (outcomeOf j e)
        log := s.log ++ entriesOf (fun _ => e.arrival) [j] } := by
  have hending : e.arrival.ending? = some e := Arrival.ending?_eq_some_iff.mpr rfl
  have h := afterVisit_eq (fun _ => e.arrival) s earlier j later
  simpa [endingsOf, outcomesOf, hending] using h

end State

/-- One thing that a batch does, with at most `limit` workers active. -/
inductive Move (limit : Nat) : State → State → Prop
  | start {s : State} (room : s.active.length < limit) :
      Move limit s (s.fill (s.active.length + 1))
  | visit {s : State} {earlier later : List Job} {j : Job} (a : Arrival)
      (active : s.active = earlier ++ j :: later) :
      Move limit s (s.afterVisit earlier j later a)

/-- The states that a batch of jobs can come to. -/
inductive Reachable (limit : Nat) (js : List Job) : State → Prop
  | initial : Reachable limit js (.initial js)
  | move {s s' : State} : Reachable limit js s → Move limit s s' → Reachable limit js s'

/-! ## A batch makes such moves -/

theorem endingsOf_append (arrival : Job → Arrival) (js ks : List Job) :
    endingsOf arrival (js ++ ks) = endingsOf arrival ks ++ endingsOf arrival js := by
  simp only [endingsOf, List.reverse_append, List.filterMap_append]

theorem entriesOf_append (arrival : Job → Arrival) (js ks : List Job) :
    entriesOf arrival (js ++ ks) = entriesOf arrival ks ++ entriesOf arrival js := by
  simp only [entriesOf, List.reverse_append, List.filterMap_append]

namespace State

/-- The batch in the middle of a pass: the workers of `later` have been visited, those
of `earlier` have not. -/
def midPass (arrival : Job → Arrival) (s : State) (earlier later : List Job) : State :=
  { s with
    active := earlier ++ later.filter fun j => (arrival j).ending?.isNone
    outcomes := s.outcomes ++ outcomesOf (endingsOf arrival later)
    written := s.written ++ (outcomesOf (endingsOf arrival later)).flatMap fileLine
    log := s.log ++ entriesOf arrival later }

theorem midPass_nil (arrival : Job → Arrival) (s : State) : s.midPass arrival s.active [] = s := by
  simp [midPass, endingsOf, entriesOf, outcomesOf]

theorem midPass_cons (arrival : Job → Arrival) (s : State) (earlier : List Job) (j : Job)
    (later : List Job) : s.midPass arrival earlier (j :: later) =
      (s.midPass arrival (earlier ++ [j]) later).afterVisit earlier j
        (later.filter fun j => (arrival j).ending?.isNone) (arrival j) := by
  have hcons : j :: later = [j] ++ later := rfl
  rw [afterVisit_eq, midPass, hcons, endingsOf_append, entriesOf_append, List.filter_append,
    outcomesOf_append, List.flatMap_append]
  simp only [midPass, List.append_assoc]

end State

theorem reachable_midPass {limit : Nat} {js : List Job} (arrival : Job → Arrival) {s : State}
    (h : Reachable limit js s) : ∀ {later earlier : List Job}, s.active = earlier ++ later →
    Reachable limit js (s.midPass arrival earlier later)
  | [], earlier, hs => by
      rw [List.append_nil] at hs
      rw [← hs, State.midPass_nil]
      exact h
  | j :: later, earlier, hs => by
      have hs' : s.active = (earlier ++ [j]) ++ later := by
        rw [hs, List.append_assoc, List.singleton_append]
      rw [State.midPass_cons]
      refine .move (reachable_midPass arrival h hs') (.visit (arrival j) ?_)
      simp only [State.midPass, List.append_assoc, List.singleton_append]

theorem reachable_afterPass {limit : Nat} {js : List Job} (arrival : Job → Arrival) {s : State}
    (h : Reachable limit js s) : Reachable limit js (s.afterPass arrival) := by
  have hall : s.active = [] ++ s.active := rfl
  exact reachable_midPass arrival h hall

theorem State.fill_of_no_pending {s : State} (h : s.pending = []) (limit : Nat) :
    s.fill limit = s := by
  obtain ⟨pending, active, outcomes, written, log, started⟩ := s
  cases h
  simp [fill]

theorem State.fill_succ {s : State} {j : Job} {rest : List Job} (h : s.pending = j :: rest) :
    s.fill (s.active.length + 1) =
      { s with active := s.active ++ [j], pending := rest, started := s.started ++ [j] } := by
  simp [fill, h]

/-- Filling the places is starting one job after another. -/
theorem State.fill_of_room {limit : Nat} {s : State} (h : s.active.length < limit) :
    s.fill limit = (s.fill (s.active.length + 1)).fill limit := by
  cases hp : s.pending with
  | nil => rw [fill_of_no_pending hp, fill_of_no_pending hp, fill_of_no_pending hp]
  | cons j rest =>
      obtain ⟨n, hn⟩ : ∃ n, limit - s.active.length = n + 1 :=
        ⟨limit - s.active.length - 1, by omega⟩
      have hlen : limit - (s.active ++ [j]).length = n := by
        rw [List.length_append, List.length_singleton]
        omega
      rw [fill_succ hp]
      simp only [fill, hp, hn, hlen, List.take_succ_cons, List.drop_succ_cons, List.append_assoc,
        List.singleton_append]

theorem State.fill_of_no_room {limit : Nat} {s : State} (h : limit ≤ s.active.length) :
    s.fill limit = s := by
  simp [fill, Nat.sub_eq_zero_of_le h]

/-- What starting a job keeps is kept when the places are filled. -/
theorem State.fill_induction {limit : Nat} {P : State → Prop}
    (hstart : ∀ s, s.active.length < limit → P s → P (s.fill (s.active.length + 1))) (n : Nat) :
    ∀ s, s.pending.length ≤ n → P s → P (s.fill limit) := by
  induction n with
  | zero =>
      intro s hn h
      rwa [fill_of_no_pending (List.length_eq_zero_iff.mp (Nat.le_zero.mp hn))]
  | succ n ih =>
      intro s hn h
      by_cases hroom : s.active.length < limit
      · rw [fill_of_room hroom]
        refine ih _ ?_ (hstart s hroom h)
        simp only [fill, List.length_drop]
        omega
      · rwa [fill_of_no_room (Nat.le_of_not_lt hroom)]

theorem reachable_fill {limit : Nat} {js : List Job} {s : State} (h : Reachable limit js s) :
    Reachable limit js (s.fill limit) :=
  State.fill_induction (fun _ hroom h => .move h (.start hroom)) _ s (Nat.le_refl _) h

theorem reachable_follow {limit : Nat} {js : List Job} : ∀ {schedule : Schedule} {s s' : State},
    Reachable limit js s → s.follow limit schedule = .ok s' → Reachable limit js s'
  | [], s, s', h, hs => by
      obtain rfl := Except.ok.inj hs
      exact h
  | arrival :: rest, s, s', h, hs => by
      rw [State.follow, State.pass_eq_ok] at hs
      split at hs
      · obtain rfl := Except.ok.inj hs
        exact h
      · exact reachable_follow (reachable_fill (reachable_afterPass arrival h)) hs

theorem reachable_of_process {limit : Nat} {js : List Job} {schedule : Schedule} {s : State}
    (h : process limit schedule js = .ok s) : Reachable limit js s :=
  reachable_follow (reachable_fill .initial) h

/-! ## What a move keeps -/

/-- The line numbers of outcomes and of jobs. -/
def outcomeLines (os : List Outcome) : List Nat := os.map fun o => o.line.val

def jobLines (js : List Job) : List Nat := js.map fun j => j.line.val

theorem line_le_length {es : List Text} {j : Job} (hj : j ∈ jobs es) : j.line.val ≤ es.length := by
  have hmem : j.line.val ∈ jobLines (jobs es) := List.mem_map_of_mem hj
  rw [jobLines, map_line_jobs, List.mem_range'_1] at hmem
  omega

/-- The started jobs are the first lines, at most `limit` of them are active, and no
outcome is more than `limit` lines ahead of its place. -/
structure Window (limit : Nat) (es : List Text) (s : State) : Prop where
  capacity : s.active.length ≤ limit
  bounded : s.outcomes.length + s.active.length ≤ es.length
  pending : s.pending = (jobs es).drop (s.outcomes.length + s.active.length)
  started : (outcomeLines s.outcomes ++ jobLines s.active).Perm
    (List.range' 1 (s.outcomes.length + s.active.length))
  ahead : ∀ p o, s.outcomes[p]? = some o → o.line.val ≤ p + limit
  written : s.written = s.outcomes.flatMap fileLine

theorem window_initial (limit : Nat) (es : List Text) : Window limit es (.initial (jobs es)) where
  capacity := Nat.zero_le _
  bounded := Nat.zero_le _
  pending := rfl
  started := .nil
  ahead := fun _ _ h => nomatch h
  written := rfl

/-- The job that is pending after so many others is on the next line. -/
theorem drop_jobs {es : List Text} {m : Nat} {j : Job} {rest : List Job}
    (h : (jobs es).drop m = j :: rest) :
    j.line.val = m + 1 ∧ m + 1 ≤ es.length ∧ rest = (jobs es).drop (m + 1) := by
  have hlen : m < (jobs es).length := by
    by_contra hm
    rw [List.drop_eq_nil_of_le (Nat.le_of_not_lt hm)] at h
    cases h
  rw [List.drop_eq_getElem_cons hlen] at h
  obtain ⟨hj, hrest⟩ := List.cons.inj h
  have hget : (jobLines (jobs es))[m]? = some (m + 1) := by
    rw [jobLines, map_line_jobs, List.getElem?_range' (by rwa [length_jobs] at hlen)]
    simp [Nat.add_comm]
  rw [jobLines, List.getElem?_map, List.getElem?_eq_getElem hlen, hj] at hget
  rw [length_jobs] at hlen
  exact ⟨Option.some.inj hget, hlen, hrest.symm⟩

theorem Window.start {limit : Nat} {es : List Text} {s : State} (h : Window limit es s)
    (room : s.active.length < limit) : Window limit es (s.fill (s.active.length + 1)) := by
  cases hp : s.pending with
  | nil =>
      rw [State.fill_of_no_pending hp]
      exact h
  | cons j rest =>
      rw [State.fill_succ hp]
      obtain ⟨hline, hbound, hrest⟩ := drop_jobs (h.pending.symm.trans hp)
      have hlen : s.outcomes.length + (s.active ++ [j]).length
          = s.outcomes.length + s.active.length + 1 := by
        rw [List.length_append, List.length_singleton, Nat.add_assoc]
      refine ⟨?_, ?_, ?_, ?_, h.ahead, h.written⟩
      · rw [List.length_append, List.length_singleton]
        omega
      · rw [hlen]
        exact hbound
      · rw [hlen]
        exact hrest
      · rw [hlen, List.range'_concat, jobLines, List.map_append, ← List.append_assoc,
          List.map_singleton, hline]
        have hnext : 1 + 1 * (s.outcomes.length + s.active.length)
            = s.outcomes.length + s.active.length + 1 := by omega
        rw [hnext]
        exact h.started.append_right _

/-- The jobs with an active worker are among the lines that have been started. -/
theorem Window.line_le {limit : Nat} {es : List Text} {s : State} (h : Window limit es s)
    {j : Job} (hj : j ∈ s.active) : j.line.val ≤ s.outcomes.length + s.active.length := by
  have hmem : j.line.val ∈ outcomeLines s.outcomes ++ jobLines s.active :=
    List.mem_append_right _ (List.mem_map_of_mem hj)
  have hrange := h.started.subset hmem
  rw [List.mem_range'_1] at hrange
  omega

theorem Window.ended {limit : Nat} {es : List Text} {s : State} (h : Window limit es s)
    {earlier later : List Job} {j : Job} (active : s.active = earlier ++ j :: later) (e : Ending) :
    Window limit es (s.afterVisit earlier j later e.arrival) := by
  have hline := h.line_le (j := j) (by rw [active]; simp)
  have hlen : s.active.length = (earlier ++ later).length + 1 := by
    rw [active, List.length_append, List.length_append, List.length_cons, Nat.add_assoc]
  have hcapacity := h.capacity
  -- as many jobs are started as before
  have hcount : (s.outcomes ++ [outcomeOf j e]).length + (earlier ++ later).length
      = s.outcomes.length + s.active.length := by
    rw [hlen, List.length_append, List.length_singleton]
    omega
  rw [State.afterVisit_ended]
  refine ⟨?_, ?_, ?_, ?_, ?_, ?_⟩
  · dsimp only
    omega
  · rw [hcount]
    exact h.bounded
  · rw [hcount]
    exact h.pending
  · rw [hcount]
    refine List.Perm.trans ?_ h.started
    have hout : outcomeLines (s.outcomes ++ [outcomeOf j e])
        = outcomeLines s.outcomes ++ [j.line.val] := by
      rw [outcomeLines, List.map_append, List.map_singleton, line_outcomeOf, ← outcomeLines]
    rw [hout, active, jobLines, jobLines, List.map_append, List.map_append, List.map_cons,
      List.append_assoc, List.singleton_append]
    exact List.perm_middle.symm.append_left _
  · intro p o ho
    rcases Nat.lt_or_ge p s.outcomes.length with hp | hp
    · rw [List.getElem?_append_left hp] at ho
      exact h.ahead p o ho
    · -- the newest outcome: its line has been started, and these are not many
      rw [List.getElem?_append_right hp, List.getElem?_singleton] at ho
      split at ho
      · obtain rfl := Option.some.inj ho
        rw [line_outcomeOf]
        omega
      · cases ho
  · rw [List.flatMap_append, h.written]
    simp

theorem Window.move {limit : Nat} {es : List Text} {s s' : State} (h : Window limit es s)
    (hm : Move limit s s') : Window limit es s' := by
  cases hm with
  | start room => exact h.start room
  | visit a active =>
      cases ha : a.ending? with
      | none =>
          obtain rfl := Arrival.ending?_eq_none_iff.mp ha
          rw [State.afterVisit_running active]
          exact h
      | some e =>
          obtain rfl := Arrival.ending?_eq_some_iff.mp ha
          exact h.ended active e

theorem window_of_reachable {limit : Nat} {es : List Text} {s : State}
    (h : Reachable limit (jobs es) s) : Window limit es s := by
  induction h with
  | initial => exact window_initial limit es
  | move _ hm ih => exact ih.move hm

/-! ## What follows of the lines -/

/-- Recorded, active and pending lines are all the lines, each of them once. -/
theorem Window.perm_lines {limit : Nat} {es : List Text} {s : State} (h : Window limit es s) :
    (outcomeLines s.outcomes ++ jobLines s.active ++ jobLines s.pending).Perm
      (List.range' 1 es.length) := by
  have hpending : jobLines s.pending
      = (List.range' 1 es.length).drop (s.outcomes.length + s.active.length) := by
    rw [h.pending, jobLines, List.map_drop, map_line_jobs]
  have hstarted : List.range' 1 (s.outcomes.length + s.active.length)
      = (List.range' 1 es.length).take (s.outcomes.length + s.active.length) := by
    rw [List.take_range'_of_length_ge h.bounded]
  have hperm := h.started.append_right (jobLines s.pending)
  rw [hstarted] at hperm
  rwa [hpending, List.take_append_drop, ← hpending] at hperm

/-- Different numbers from 1 on, none of them ahead of its place by more than one, are
in order. -/
theorem eq_range'_of_nodup {l : List Nat} (hnodup : l.Nodup) (hpos : ∀ x ∈ l, 1 ≤ x)
    (h : ∀ p x, l[p]? = some x → x ≤ p + 1) : l = List.range' 1 l.length := by
  induction l using List.reverseRecOn with
  | nil => rfl
  | append_singleton l x ih =>
      obtain ⟨hl, -, hx⟩ := List.nodup_append.mp hnodup
      have hold : ∀ p y, l[p]? = some y → y ≤ p + 1 := by
        intro p y hy
        have hp : p < l.length := (List.getElem?_eq_some_iff.mp hy).1
        exact h p y (by rw [List.getElem?_append_left hp]; exact hy)
      have heq := ih hl (fun y hy => hpos y (List.mem_append_left _ hy)) hold
      have hle : x ≤ l.length + 1 := h l.length x (by simp)
      have hge : 1 ≤ x := hpos x (by simp)
      have hnew : ¬x ≤ l.length := by
        intro hxl
        have hmem : x ∈ l := by
          rw [heq, List.mem_range'_1]
          omega
        exact hx x hmem x (by simp) rfl
      have hnext : x = 1 + 1 * l.length := by omega
      rw [List.length_append, List.length_singleton, List.range'_concat, ← heq, hnext]

/-- With one place the outcomes come in the order of their lines. -/
theorem Window.outcomeLines_eq {limit : Nat} {es : List Text} {s : State}
    (h : Window limit es s) (hlimit : limit ≤ 1) :
    outcomeLines s.outcomes = List.range' 1 s.outcomes.length := by
  have hnodup : (outcomeLines s.outcomes).Nodup :=
    (List.nodup_append.mp (h.started.symm.nodup List.nodup_range')).1
  have hahead : ∀ p x, (outcomeLines s.outcomes)[p]? = some x → x ≤ p + 1 := by
    intro p x hx
    rw [outcomeLines, List.getElem?_map, Option.map_eq_some_iff] at hx
    obtain ⟨o, ho, rfl⟩ := hx
    exact Nat.le_trans (h.ahead p o ho) (Nat.add_le_add_left hlimit p)
  have hpos : ∀ x ∈ outcomeLines s.outcomes, 1 ≤ x := by
    intro x hx
    obtain ⟨o, -, rfl⟩ := List.mem_map.mp hx
    exact o.line.property
  have hrange := eq_range'_of_nodup hnodup hpos hahead
  rwa [outcomeLines, List.length_map] at hrange

/-! ## Runs -/

/-- A run that returns its outcomes has followed its schedule to a complete state. -/
theorem exists_complete_of_run {b : Batch} {host : Host} {fs : Files}
    {schedule : List Job → Schedule} {es : List Text} {l : Location} {os : List Outcome}
    (hes : Source.expressions host fs b.input = .ok es) (hl : fs.target b.output = .ok l)
    (hos : (b.run host fs schedule).result = .ok os) :
    ∃ s, process (limitFor b.workers host.processors es.length) (schedule (jobs es)) (jobs es)
          = .ok s
      ∧ s.isComplete = true ∧ s.outcomes = os
      ∧ (b.run host fs schedule).files = fs.put l (Utf8.encode s.written) := by
  obtain ⟨s, hs, hfiles, hresult⟩ := run_of_open schedule hes hl
  rw [hresult] at hos
  split at hos
  case isTrue hc => exact ⟨s, hs, hc, Except.ok.inj hos, hfiles⟩
  case isFalse => cases hos

/-- A batch with one place evaluates its jobs in their order. -/
theorem outcomes_of_one_place {b : Batch} {processors : Nat} {schedule : Schedule}
    {es : List Text} {s : State} (hone : b.workers = some 1)
    (hs : process (limitFor b.workers processors es.length) schedule (jobs es) = .ok s)
    (hc : s.isComplete = true) :
    ∃ ending : Job → Ending, s.outcomes = (jobs es).map fun j => outcomeOf j (ending j) := by
  have hlimit : limitFor b.workers processors es.length ≤ 1 := by
    rw [hone]
    exact Nat.min_le_left _ _
  have hlines := (window_of_reachable (reachable_of_process hs)).outcomeLines_eq hlimit
  have hsorted : s.outcomes.Pairwise fun o p => o.line.val ≤ p.line.val := by
    have h : (outcomeLines s.outcomes).Pairwise (· ≤ ·) := by
      rw [hlines]
      exact (List.pairwise_lt_range' 1).imp Nat.le_of_lt
    exact List.pairwise_map.mp h
  obtain ⟨s', hs', hout, -, hperm⟩ := process_eq_ok b processors schedule es
  obtain rfl := Except.ok.inj (hs.symm.trans hs')
  rw [State.left_eq_nil hc, List.append_nil] at hperm
  obtain ⟨ending, hos, -⟩ := exists_ending hperm
  rw [← hout] at hos
  refine ⟨ending, ?_⟩
  rw [← mergeSort_eq_map_jobs hos,
    List.mergeSort_of_pairwise (hsorted.imp fun hle => decide_eq_true hle)]

/-- **A batch gets out of order by no more lines than it has places.** In every state
that a batch can come to, between two visits of a pass as well as between two starts,
no more workers are active than there are places; the recorded, the active and the
pending lines are all the lines, each of them once; and the outcome after `p` others, on
the line of the results file after `p` others, has a line number of at most `p` plus the
number of places. With one place the outcomes, and the results file, are in order. -/
theorem outcomes_in_window (b : Batch) (processors : Nat) (es : List Text) :
    (∀ s, Reachable (limitFor b.workers processors es.length) (jobs es) s →
        s.active.length ≤ limitFor b.workers processors es.length
          ∧ (outcomeLines s.outcomes ++ jobLines s.active ++ jobLines s.pending).Perm
              (List.range' 1 es.length)
          ∧ (∀ p o, s.outcomes[p]? = some o →
              o.line.val ≤ p + limitFor b.workers processors es.length)
          ∧ s.written = s.outcomes.flatMap fileLine)
      ∧ (∀ schedule, ∃ s,
          process (limitFor b.workers processors es.length) schedule (jobs es) = .ok s
            ∧ Reachable (limitFor b.workers processors es.length) (jobs es) s)
      ∧ (b.workers = some 1 → ∀ host fs schedule l os,
          Source.expressions host fs b.input = .ok es → fs.target b.output = .ok l →
          (b.run host fs schedule).result = .ok os →
          (∃ ending : Job → Ending, os = (jobs es).map fun j => outcomeOf j (ending j))
            ∧ (b.run host fs schedule).files
                = fs.put l (Utf8.encode (os.flatMap fileLine))) := by
  refine ⟨fun s hs => ?_, fun schedule => ?_, fun hone host fs schedule l os hes hl hos => ?_⟩
  · have h := window_of_reachable hs
    exact ⟨h.capacity, h.perm_lines, h.ahead, h.written⟩
  · obtain ⟨s, hs, -⟩ := process_eq_ok b processors schedule es
    exact ⟨s, hs, reachable_of_process hs⟩
  · obtain ⟨s, hs, hc, rfl, hfiles⟩ := exists_complete_of_run hes hl hos
    have hwritten := (window_of_reachable (reachable_of_process hs)).written
    exact ⟨outcomes_of_one_place hone hs hc, by rw [hfiles, hwritten]⟩

/-- The batch with room for one worker. -/
def alone : Batch := { sample with workers := some 1 }

/-- One after another the workers deliver, but for the second, which is killed. -/
def aloneSchedule (_ : List Job) : Schedule :=
  [fun _ => .delivered, fun _ => .crashed (-9), fun _ => .running, fun _ => .delivered]

/-- Among two places the second line overtakes the first; with one place it cannot. -/
theorem outcomes_in_window_sample :
    (∃ s, Reachable 2 (jobs sampleLines) s ∧ outcomeLines s.outcomes = [2]
        ∧ jobLines s.active = [1, 3] ∧ s.active.length ≤ 2
        ∧ ∀ p o, s.outcomes[p]? = some o → o.line.val ≤ p + 2)
      ∧ ∃ os : List Outcome, (alone.run sampleHost sampleFiles aloneSchedule).result = .ok os
          ∧ outcomeLines os = [1, 2, 3]
          ∧ (alone.run sampleHost sampleFiles aloneSchedule).files
              = sampleFiles.put ["out.txt".toList] (Utf8.encode (os.flatMap fileLine)) := by
  constructor
  · obtain ⟨hwindow, hprocess, -⟩ := outcomes_in_window sample 8 sampleLines
    obtain ⟨s, hs, hreach⟩ := hprocess ((sampleSchedule []).take 1)
    obtain ⟨hcapacity, -, hahead, -⟩ := hwindow s hreach
    have hlines : (process 2 ((sampleSchedule []).take 1) (jobs sampleLines)).map
        (fun s => (outcomeLines s.outcomes, jobLines s.active)) = .ok ([2], [1, 3]) := by
      decide +kernel
    have hs' : process 2 ((sampleSchedule []).take 1) (jobs sampleLines) = .ok s := hs
    rw [hs'] at hlines
    obtain ⟨hout, hactive⟩ := Prod.mk.inj (Except.ok.inj hlines)
    exact ⟨s, hreach, hout, hactive, hcapacity, hahead⟩
  · have hes : Source.expressions sampleHost sampleFiles alone.input = .ok sampleLines := by decide
    have hl : sampleFiles.target alone.output = .ok ["out.txt".toList] := by decide
    have hfinished :
        (alone.run sampleHost sampleFiles aloneSchedule).result.toOption.isSome = true := by
      decide +kernel
    cases hos : (alone.run sampleHost sampleFiles aloneSchedule).result with
    | error f =>
        rw [hos] at hfinished
        cases hfinished
    | ok os =>
        obtain ⟨-, -, horder⟩ := outcomes_in_window alone 8 sampleLines
        obtain ⟨⟨ending, heq⟩, hfiles⟩ := horder rfl _ _ _ _ _ hes hl hos
        have hlines : outcomeLines os = jobLines (jobs sampleLines) := by
          rw [heq, outcomeLines, jobLines, List.map_map]
          exact List.map_congr_left fun j _ => congrArg Subtype.val (line_outcomeOf j _)
        exact ⟨os, rfl, hlines, hfiles⟩

end Batch

end Reckon
