import Mathlib.Order.Lattice.Nat
import Reckon.Proofs.Completion
import Reckon.Proofs.Window

/-!
# The order of the outcomes

The outcomes of a batch stand in the order in which their workers were collected, which
is not always the order in which these ended. A pass goes from the last active worker to
the first, so of two workers that have both ended by the time of a pass the one with the
later line is collected first, whichever ended first.

`State.passes` cuts the visits of a run into its passes. In each of them the line numbers
descend (`descending_of_mem_passes`), and no worker is visited again once it has been
collected (`pairwise_visits`): both are kept from pass to pass because what is left of the
jobs stays in the order of the lines. From there on it is a matter of lists in which pass
a job is collected, and that the outcomes are sorted by it (`sublist_collected_iff`).

What this means for the times at which workers end is said with a `Timeline`, which is any
assignment of times that agrees with what the visits found. The order of two endings is
kept if a visit to the first worker comes between them, for it is collected by then at the
latest. It is not kept in general: where all the workers have ended by the first pass, as
many lines as there are places come in the reverse of it (`overtaken_atOnce`).
-/

namespace Reckon.Batch

/-! ## Passes -/

/-- The line numbers descend from visit to visit. -/
def Descending (vs : List (Job × Arrival)) : Prop :=
  vs.Pairwise fun v w => w.1.line.val < v.1.line.val

namespace State

variable {limit : Nat}

/-- The visits that are made while a schedule is followed, pass by pass. -/
def passes (limit : Nat) : Schedule → State → List (List (Job × Arrival))
  | [], _ => []
  | arrival :: rest, s =>
    if s.isComplete then []
    else
      match s.pass arrival with
      | .ok next =>
        (s.active.reverse.map fun j => (j, arrival j)) :: passes limit rest (next.fill limit)
      | .error _ => []

theorem passes_of_complete {s : State} (hc : s.isComplete = true) :
    ∀ schedule : Schedule, s.passes limit schedule = []
  | [] => rfl
  | _ :: _ => by rw [passes, if_pos hc]

theorem passes_cons {s : State} (hc : ¬s.isComplete = true) (arrival : Job → Arrival)
    (rest : Schedule) : passes limit (arrival :: rest) s =
      (s.active.reverse.map fun j => (j, arrival j))
        :: passes limit rest ((s.afterPass arrival).fill limit) := by
  rw [passes, if_neg hc, pass_eq_ok]

theorem flatten_passes : ∀ (schedule : Schedule) (s : State),
    (passes limit schedule s).flatten = visits limit schedule s
  | [], _ => rfl
  | arrival :: rest, s => by
      rw [visits, pass_eq_ok]
      by_cases hc : s.isComplete = true
      · rw [passes_of_complete hc, if_pos hc]
        rfl
      · rw [passes_cons hc, if_neg hc, List.flatten_cons, flatten_passes rest]

/-- What is left of the jobs is in the order of the lines. -/
def Ascending (s : State) : Prop := s.left.Pairwise fun j k => j.line.val < k.line.val

theorem ascending_fill_initial (limit : Nat) (es : List Text) :
    ((initial (jobs es)).fill limit).Ascending := by
  rw [Ascending, left_fill, left_initial]
  exact pairwise_jobs es

theorem Ascending.next {s : State} (h : s.Ascending) (arrival : Job → Arrival) :
    ((s.afterPass arrival).fill limit).Ascending := by
  rw [Ascending, left_fill]
  exact h.sublist (List.filter_sublist.append_right s.pending)

theorem Ascending.descending {s : State} (h : s.Ascending) (arrival : Job → Arrival) :
    Descending (s.active.reverse.map fun j => (j, arrival j)) := by
  rw [Descending, List.pairwise_map, List.pairwise_reverse]
  exact h.sublist (List.sublist_append_left _ _)

theorem descending_of_mem_passes : ∀ {schedule : Schedule} {s : State}, s.Ascending →
    ∀ vs ∈ passes limit schedule s, Descending vs
  | [], _, _, _, hvs => nomatch hvs
  | arrival :: rest, s, h, vs, hvs => by
      by_cases hc : s.isComplete = true
      · rw [passes_of_complete hc] at hvs
        cases hvs
      · rw [passes_cons hc] at hvs
        rcases List.mem_cons.mp hvs with rfl | hvs
        · exact h.descending arrival
        · exact descending_of_mem_passes (h.next arrival) vs hvs

/-! ## Nobody is visited again -/

theorem mem_left_of_mem_visits {schedule : Schedule} {s : State} {v : Job × Arrival}
    (hv : v ∈ visits limit schedule s) : v.1 ∈ s.left := by
  induction schedule generalizing s with
  | nil => cases hv
  | cons arrival rest ih =>
      rw [visits, pass_eq_ok] at hv
      split at hv
      · cases hv
      · rcases List.mem_append.mp hv with hv | hv
        · obtain ⟨j, hj, rfl⟩ := List.mem_map.mp hv
          exact List.mem_append_left _ (List.mem_reverse.mp hj)
        · have hleft := ih hv
          rw [left_fill] at hleft
          exact (List.filter_sublist.append_right s.pending).subset hleft

/-- A job whose worker a pass finds ended is not left after it. -/
theorem Ascending.not_mem_left {s : State} (h : s.Ascending) {arrival : Job → Arrival} {j : Job}
    (hj : j ∈ s.active) (hended : arrival j ≠ .running) : j ∉ (s.afterPass arrival).left := by
  intro hleft
  rcases List.mem_append.mp hleft with hactive | hpending
  · rw [afterPass, List.mem_filter] at hactive
    exact hended (Arrival.ending?_eq_none_iff.mp (Option.isNone_iff_eq_none.mp hactive.2))
  · exact Nat.lt_irrefl _ ((List.pairwise_append.mp h).2.2 j hj j hpending)

theorem pairwise_visits : ∀ {schedule : Schedule} {s : State}, s.Ascending →
    (visits limit schedule s).Pairwise fun v w => v.2 ≠ .running → w.1 ≠ v.1
  | [], _, _ => .nil
  | arrival :: rest, s, h => by
      rw [visits, pass_eq_ok]
      split
      · exact .nil
      · refine List.pairwise_append.mpr
          ⟨?_, pairwise_visits (h.next arrival), fun v hv w hw hended heq => ?_⟩
        · refine List.Pairwise.imp (fun hlt _ heq => ?_) (h.descending arrival)
          rw [heq] at hlt
          exact Nat.lt_irrefl _ hlt
        · obtain ⟨j, hj, rfl⟩ := List.mem_map.mp hv
          have hleft := mem_left_of_mem_visits hw
          rw [left_fill, heq] at hleft
          exact h.not_mem_left (List.mem_reverse.mp hj) hended hleft

end State

/-! ## The pass that collects a job -/

/-- The visits of a batch over expressions, pass by pass. -/
def passes (b : Batch) (processors : Nat) (schedule : Schedule) (es : List Text) :
    List (List (Job × Arrival)) :=
  let limit := limitFor b.workers processors es.length
  State.passes limit schedule ((State.initial (jobs es)).fill limit)

/-- The `n`th pass, counted from 0, finds the worker of `j` ended. -/
def CollectedIn (ps : List (List (Job × Arrival))) (n : Nat) (j : Job) : Prop :=
  ∃ vs a, ps[n]? = some vs ∧ (j, a) ∈ vs ∧ a ≠ .running

/-- Collected in an earlier pass, or before in the same. -/
def Sooner (n : Nat) (i : Job) (m : Nat) (j : Job) : Prop :=
  n < m ∨ n = m ∧ j.line.val < i.line.val

/-- The jobs whose workers are found ended, in the order of the visits. -/
def collected (vs : List (Job × Arrival)) : List Job := (endingsIn vs).map Prod.fst

theorem mem_collected {vs : List (Job × Arrival)} {j : Job} :
    j ∈ collected vs ↔ ∃ a, (j, a) ∈ vs ∧ a ≠ .running := by
  rw [collected, List.mem_map]
  constructor
  · rintro ⟨⟨_, e⟩, he, rfl⟩
    exact ⟨e.arrival, mem_endingsIn.mp he, by cases e <;> exact nofun⟩
  · rintro ⟨a, hmem, ha⟩
    obtain ⟨e, he⟩ := Option.ne_none_iff_exists'.mp (mt Arrival.ending?_eq_none_iff.mp ha)
    obtain rfl := Arrival.ending?_eq_some_iff.mp he
    exact ⟨(j, e), mem_endingsIn.mpr hmem, rfl⟩

theorem collected_flatten (ps : List (List (Job × Arrival))) :
    collected ps.flatten = (ps.map collected).flatten := by
  rw [collected, endingsIn, List.filterMap_flatten, List.map_flatten, List.map_map]
  rfl

theorem collectedIn_iff {ps : List (List (Job × Arrival))} {n : Nat} {j : Job} :
    CollectedIn ps n j ↔ ∃ vs, ps[n]? = some vs ∧ j ∈ collected vs := by
  simp only [CollectedIn, mem_collected, exists_and_left]

theorem exists_collectedIn {ps : List (List (Job × Arrival))} {j : Job}
    (hj : j ∈ collected ps.flatten) : ∃ n, CollectedIn ps n j := by
  rw [collected_flatten, List.mem_flatten] at hj
  obtain ⟨_, hl, hjl⟩ := hj
  obtain ⟨vs, hvs, rfl⟩ := List.mem_map.mp hl
  obtain ⟨n, hn⟩ := List.mem_iff_getElem?.mp hvs
  exact ⟨n, collectedIn_iff.mpr ⟨vs, hn, hjl⟩⟩

section

variable {ps : List (List (Job × Arrival))}

theorem mem_of_collectedIn {n : Nat} {j : Job} (h : CollectedIn ps n j) :
    j ∈ collected ps.flatten := by
  obtain ⟨vs, hn, hj⟩ := collectedIn_iff.mp h
  rw [collected_flatten]
  exact List.mem_flatten.mpr ⟨_, List.mem_map_of_mem (List.mem_of_getElem? hn), hj⟩

/-- No job is collected by two passes. -/
theorem collectedIn_unique (hnodup : (collected ps.flatten).Nodup) {n m : Nat} {j : Job}
    (hn : CollectedIn ps n j) (hm : CollectedIn ps m j) : n = m := by
  rw [collected_flatten, List.nodup_flatten, List.pairwise_map] at hnodup
  have hdisjoint := List.pairwise_iff_getElem.mp hnodup.2
  obtain ⟨vs, hvs, hjv⟩ := collectedIn_iff.mp hn
  obtain ⟨ws, hws, hjw⟩ := collectedIn_iff.mp hm
  obtain ⟨hnlt, rfl⟩ := List.getElem?_eq_some_iff.mp hvs
  obtain ⟨hmlt, rfl⟩ := List.getElem?_eq_some_iff.mp hws
  rcases Nat.lt_trichotomy n m with hlt | heq | hgt
  · exact absurd hjw (hdisjoint n m hnlt hmlt hlt hjv)
  · exact heq
  · exact absurd hjv (hdisjoint m n hmlt hnlt hgt hjw)

theorem Descending.collected {vs : List (Job × Arrival)} (h : Descending vs) :
    (collected vs).Pairwise fun i j => j.line.val < i.line.val := by
  rw [Batch.collected, List.pairwise_map, endingsIn, List.pairwise_filterMap]
  refine List.Pairwise.imp (fun {v w} hlt x hx y hy => ?_) h
  obtain ⟨e, -, rfl⟩ := Option.map_eq_some_iff.mp hx
  obtain ⟨e', -, rfl⟩ := Option.map_eq_some_iff.mp hy
  exact hlt

theorem pairwise_collected (hdesc : ∀ vs ∈ ps, Descending vs) :
    (collected ps.flatten).Pairwise fun i j =>
      ∃ n m, CollectedIn ps n i ∧ CollectedIn ps m j ∧ Sooner n i m j := by
  rw [collected_flatten, List.pairwise_flatten, List.pairwise_map]
  constructor
  · intro l hl
    obtain ⟨vs, hvs, rfl⟩ := List.mem_map.mp hl
    obtain ⟨n, hn⟩ := List.mem_iff_getElem?.mp hvs
    exact (hdesc vs hvs).collected.imp_of_mem fun hi hj hlt =>
      ⟨n, n, collectedIn_iff.mpr ⟨vs, hn, hi⟩, collectedIn_iff.mpr ⟨vs, hn, hj⟩, Or.inr ⟨rfl, hlt⟩⟩
  · refine List.pairwise_iff_getElem.mpr fun n m hn hm hlt i hi j hj => ?_
    exact ⟨n, m, collectedIn_iff.mpr ⟨_, List.getElem?_eq_getElem hn, hi⟩,
      collectedIn_iff.mpr ⟨_, List.getElem?_eq_getElem hm, hj⟩, Or.inl hlt⟩

theorem sublist_or_sublist {α : Type} {l : List α} {x y : α} (hx : x ∈ l) (hy : y ∈ l)
    (hne : x ≠ y) : [x, y].Sublist l ∨ [y, x].Sublist l := by
  obtain ⟨before, after, rfl⟩ := List.append_of_mem hx
  rcases List.mem_append.mp hy with hy | hy
  · exact Or.inr ((List.singleton_sublist.mpr hy).append
      (List.singleton_sublist.mpr (List.mem_cons_self ..)))
  · rcases List.mem_cons.mp hy with rfl | hy
    · exact absurd rfl hne
    · exact Or.inl
        (((List.singleton_sublist.mpr hy).cons_cons x).trans (List.sublist_append_right ..))

/-- Of two jobs the one that is collected sooner stands first. -/
theorem sublist_collected_iff (hdesc : ∀ vs ∈ ps, Descending vs)
    (hnodup : (collected ps.flatten).Nodup) {n m : Nat} {i j : Job}
    (hi : CollectedIn ps n i) (hj : CollectedIn ps m j) :
    [i, j].Sublist (collected ps.flatten) ↔ Sooner n i m j := by
  have hsooner : ∀ {n m : Nat} {i j : Job}, CollectedIn ps n i → CollectedIn ps m j →
      [i, j].Sublist (collected ps.flatten) → Sooner n i m j := by
    intro n m i j hi hj hsub
    obtain ⟨n', m', hi', hj', h⟩ :=
      List.pairwise_iff_forall_sublist.mp (pairwise_collected hdesc) hsub
    rwa [collectedIn_unique hnodup hi hi', collectedIn_unique hnodup hj hj']
  refine ⟨hsooner hi hj, fun h => ?_⟩
  have hne : i ≠ j := by
    rintro rfl
    rw [collectedIn_unique hnodup hi hj] at h
    rcases h with hlt | ⟨-, hlt⟩ <;> exact Nat.lt_irrefl _ hlt
  rcases sublist_or_sublist (mem_of_collectedIn hi) (mem_of_collectedIn hj) hne with hsub | hsub
  · exact hsub
  · -- the other way round, `j` would be collected sooner as well
    have h' := hsooner hj hi hsub
    unfold Sooner at h h'
    omega

end

/-! ## Times -/

/-- Times of the visits, in their order, and times at which the workers end. A worker is
found running by the visits before its end and by no others. -/
structure Timeline (τ : Type) [LinearOrder τ] (vs : List (Job × Arrival)) where
  visit : Nat → τ
  finish : Job → τ
  increasing : ∀ k l, k < l → l < vs.length → visit k < visit l
  running_iff : ∀ k j a, vs[k]? = some (j, a) → (a = .running ↔ visit k < finish j)

/-- Where nobody is visited after having been collected, the visits themselves can be
counted for a clock. -/
theorem nonempty_timeline {vs : List (Job × Arrival)}
    (h : vs.Pairwise fun v w => v.2 ≠ .running → w.1 ≠ v.1) : Nonempty (Timeline Nat vs) := by
  refine ⟨fun k => k, fun j => vs.findIdx fun v => v.1 = j && v.2 ≠ .running,
    fun _ _ hlt _ => hlt, fun k j a hk => ?_⟩
  obtain ⟨hklt, hk⟩ := List.getElem?_eq_some_iff.mp hk
  constructor
  · rintro rfl
    by_contra hle
    have hlt := Nat.lt_of_le_of_lt (Nat.le_of_not_lt hle) hklt
    have hfound := List.findIdx_getElem (w := hlt)
    simp only [Bool.and_eq_true, decide_eq_true_eq] at hfound
    obtain ⟨hjob, hended⟩ := hfound
    rcases Nat.lt_or_eq_of_le (Nat.le_of_not_lt hle) with hbefore | hsame
    · refine List.pairwise_iff_getElem.mp h _ k hlt hklt hbefore hended ?_
      rw [hjob, hk]
    · simp only [hsame, hk] at hended
      exact hended rfl
  · intro hlt
    have hnot := List.not_of_lt_findIdx hlt
    simpa [hk] using hnot

theorem sublist_of_lt {α : Type} {l : List α} {k m : Nat} {x y : α} (hkm : k < m)
    (hk : l[k]? = some x) (hm : l[m]? = some y) : [x, y].Sublist l := by
  have hbefore : x ∈ l.take m := List.mem_of_getElem? ((List.getElem?_take_of_lt hkm).trans hk)
  have hafter : y ∈ l.drop m := by
    refine List.mem_of_getElem? (i := 0) ?_
    rw [List.getElem?_drop]
    exact hm
  rw [← List.take_append_drop m l, ← List.singleton_append]
  exact (List.singleton_sublist.mpr hbefore).append (List.singleton_sublist.mpr hafter)

/-- A job that a visit finds ended, before the worker of another has ended, is collected
before that. -/
theorem Timeline.sublist_collected {τ : Type} [LinearOrder τ] {vs : List (Job × Arrival)}
    (t : Timeline τ vs) {i j : Job} (hj : j ∈ collected vs) {k : Nat} {a : Arrival}
    (hk : vs[k]? = some (i, a)) (hi : t.finish i ≤ t.visit k) (hij : t.visit k < t.finish j) :
    [i, j].Sublist (collected vs) := by
  have ha : a ≠ .running := fun hrunning =>
    absurd ((t.running_iff k i a hk).mp hrunning) (not_lt.mpr hi)
  obtain ⟨c, hmem, hc⟩ := mem_collected.mp hj
  obtain ⟨m, hm⟩ := List.mem_iff_getElem?.mp hmem
  have hfinish : t.finish j ≤ t.visit m := not_lt.mp (mt (t.running_iff m j c hm).mpr hc)
  have hkm : k < m := by
    by_contra hle
    rcases Nat.lt_or_eq_of_le (Nat.le_of_not_lt hle) with hlt | rfl
    · have hback := t.increasing m k hlt (List.getElem?_eq_some_iff.mp hk).1
      exact absurd (lt_trans hback hij) (not_lt.mpr hfinish)
    · exact absurd hij (not_lt.mpr hfinish)
  obtain ⟨e, he⟩ := Option.ne_none_iff_exists'.mp (mt Arrival.ending?_eq_none_iff.mp ha)
  obtain ⟨f, hf⟩ := Option.ne_none_iff_exists'.mp (mt Arrival.ending?_eq_none_iff.mp hc)
  have hendings := (sublist_of_lt hkm hk hm).filterMap fun v => v.2.ending?.map (v.1, ·)
  simp only [List.filterMap_cons, he, hf, Option.map_some, List.filterMap_nil] at hendings
  exact hendings.map Prod.fst

/-! ## Runs -/

section

variable {b : Batch} {host : Host} {fs : Files} {es : List Text}

theorem passes_descend (processors : Nat) (schedule : Schedule) :
    ∀ vs ∈ b.passes processors schedule es, Descending vs :=
  State.descending_of_mem_passes (State.ascending_fill_initial _ es)

theorem flatten_passes (processors : Nat) (schedule : Schedule) :
    (b.passes processors schedule es).flatten = b.visits processors schedule es :=
  State.flatten_passes schedule _

theorem outcomeLines_outcomesOf (vs : List (Job × Arrival)) :
    outcomeLines (outcomesOf (endingsIn vs)) = jobLines (collected vs) := by
  rw [outcomeLines, outcomesOf, jobLines, collected, List.map_map, List.map_map]
  exact List.map_congr_left fun v _ => congrArg Subtype.val (line_outcomeOf v.1 v.2)

/-- A run that returns its outcomes has collected all the jobs, and the outcomes stand in
the order in which it has. -/
theorem collected_of_run {schedule : List Job → Schedule} {l : Location} {os : List Outcome}
    (hes : Source.expressions host fs b.input = .ok es) (hl : fs.target b.output = .ok l)
    (hos : (b.run host fs schedule).result = .ok os) :
    (jobs es).Perm (collected (b.visits host.processors (schedule (jobs es)) es))
      ∧ outcomeLines os = jobLines (collected (b.visits host.processors (schedule (jobs es)) es))
      ∧ (b.run host fs schedule).files = fs.put l (Utf8.encode (os.flatMap fileLine)) := by
  obtain ⟨s, hs, hc, rfl, hfiles⟩ := exists_complete_of_run hes hl hos
  obtain ⟨s', hs', hout, hwritten, hperm⟩ := process_eq_ok b host.processors (schedule (jobs es)) es
  obtain rfl := Except.ok.inj (hs.symm.trans hs')
  rw [State.left_eq_nil hc, List.append_nil] at hperm
  exact ⟨hperm, by rw [hout, outcomeLines_outcomesOf], by rw [hfiles, hwritten]⟩

/-- Lines come in an order if and only if their jobs do. -/
theorem sublist_jobLines_iff {js : List Job} (hjs : (jobs es).Perm js) {i j : Job}
    (hi : i ∈ js) (hj : j ∈ js) :
    [i.line.val, j.line.val].Sublist (jobLines js) ↔ [i, j].Sublist js := by
  constructor
  · intro h
    obtain ⟨ks, hks, hlines⟩ := List.sublist_map_iff.mp h
    obtain ⟨i', ks, rfl, hi', hrest⟩ := List.map_eq_cons_iff.mp hlines.symm
    obtain ⟨j', ks, rfl, hj', hnil⟩ := List.map_eq_cons_iff.mp hrest
    obtain rfl := List.map_eq_nil_iff.mp hnil
    have hback : ∀ {k}, k ∈ js → k ∈ jobs es := fun hk => hjs.symm.subset hk
    have hmem : ∀ k ∈ [i', j'], k ∈ jobs es := fun k hk => hback (hks.subset hk)
    rwa [eq_of_line_eq (hmem i' (by simp)) (hback hi) hi',
      eq_of_line_eq (hmem j' (by simp)) (hback hj) hj'] at hks
  · intro h
    exact h.map fun j => j.line.val

/-- In the lines of the outcomes, the job that is collected sooner stands first. -/
theorem sublist_outcomeLines_iff {schedule : List Job → Schedule} {l : Location}
    {os : List Outcome} (hes : Source.expressions host fs b.input = .ok es)
    (hl : fs.target b.output = .ok l) (hos : (b.run host fs schedule).result = .ok os)
    {n m : Nat} {i j : Job}
    (hi : CollectedIn (b.passes host.processors (schedule (jobs es)) es) n i)
    (hj : CollectedIn (b.passes host.processors (schedule (jobs es)) es) m j) :
    [i.line.val, j.line.val].Sublist (outcomeLines os) ↔ Sooner n i m j := by
  obtain ⟨hperm, hlines, -⟩ := collected_of_run hes hl hos
  rw [← flatten_passes] at hperm hlines
  rw [hlines, sublist_jobLines_iff hperm (mem_of_collectedIn hi) (mem_of_collectedIn hj)]
  exact sublist_collected_iff (passes_descend _ _) ((nodup_jobs es).perm hperm) hi hj

end

/-- **In which order a batch returns its outcomes.** Every job is collected by exactly one
pass. Of two lines, the one collected by the earlier pass comes first, and of two lines
collected by the same pass the later line comes first, whichever of their workers ended
first. There are times for the visits of the run and for the ends of its workers; and by
any such times, if a visit to a worker is made no sooner than this ends, but sooner than
another ends, then its outcome comes before that of the other. The results file holds the
lines of the outcomes in the order in which they are returned. -/
theorem run_in_order_of_collection (b : Batch) (host : Host) (fs : Files)
    (schedule : List Job → Schedule) {es : List Text} {l : Location} {os : List Outcome}
    (hes : Source.expressions host fs b.input = .ok es) (hl : fs.target b.output = .ok l)
    (hos : (b.run host fs schedule).result = .ok os) :
    (∀ j ∈ jobs es, ∃! n, CollectedIn (b.passes host.processors (schedule (jobs es)) es) n j)
      ∧ (∀ i j n m, CollectedIn (b.passes host.processors (schedule (jobs es)) es) n i →
          CollectedIn (b.passes host.processors (schedule (jobs es)) es) m j →
          ([i.line.val, j.line.val].Sublist (outcomeLines os) ↔ Sooner n i m j))
      ∧ Nonempty (Timeline Nat (b.visits host.processors (schedule (jobs es)) es))
      ∧ (∀ (τ : Type) [LinearOrder τ]
          (t : Timeline τ (b.visits host.processors (schedule (jobs es)) es)),
          ∀ j ∈ jobs es, ∀ i k a,
            (b.visits host.processors (schedule (jobs es)) es)[k]? = some (i, a) →
            t.finish i ≤ t.visit k → t.visit k < t.finish j →
            [i.line.val, j.line.val].Sublist (outcomeLines os))
      ∧ (b.run host fs schedule).files = fs.put l (Utf8.encode (os.flatMap fileLine)) := by
  obtain ⟨hperm, hlines, hfiles⟩ := collected_of_run hes hl hos
  have hascending := State.ascending_fill_initial (limitFor b.workers host.processors es.length) es
  refine ⟨fun j hj => ?_, fun i j n m hi hj => sublist_outcomeLines_iff hes hl hos hi hj,
    nonempty_timeline (State.pairwise_visits hascending),
    fun τ _ t j hj i k a hk hi hij => ?_, hfiles⟩
  · have hmem := hperm.subset hj
    have hnodup := (nodup_jobs es).perm hperm
    rw [← flatten_passes] at hmem hnodup
    obtain ⟨n, hn⟩ := exists_collectedIn hmem
    exact ⟨n, hn, fun m hm => collectedIn_unique hnodup hm hn⟩
  · rw [hlines]
    exact (t.sublist_collected (hperm.subset hj) hk hi hij).map fun j => j.line.val

/-- The second line's worker is killed before the first pass. The second pass finds the
other two ended, and visits the third line first. -/
theorem run_in_order_of_collection_sample :
    ∃ os : List Outcome, (sample.run sampleHost sampleFiles sampleSchedule).result = .ok os
      ∧ [2, 1].Sublist (outcomeLines os) ∧ [3, 1].Sublist (outcomeLines os)
      ∧ ¬[1, 3].Sublist (outcomeLines os)
      ∧ (sample.run sampleHost sampleFiles sampleSchedule).files
          = sampleFiles.put ["out.txt".toList] (Utf8.encode (os.flatMap fileLine)) := by
  have hes : Source.expressions sampleHost sampleFiles sample.input = .ok sampleLines := by decide
  have hl : sampleFiles.target sample.output = .ok ["out.txt".toList] := by decide
  have hfinished :
      (sample.run sampleHost sampleFiles sampleSchedule).result.toOption.isSome = true := by
    decide +kernel
  cases hos : (sample.run sampleHost sampleFiles sampleSchedule).result with
  | error f =>
      rw [hos] at hfinished
      cases hfinished
  | ok os =>
      obtain ⟨-, horder, -, -, hfiles⟩ :=
        run_in_order_of_collection sample sampleHost sampleFiles sampleSchedule hes hl hos
      -- the jobs of the three lines, and the passes that collect them
      have hpasses :
          sample.passes sampleHost.processors (sampleSchedule (jobs sampleLines)) sampleLines
            = [[(⟨⟨2, by decide⟩, "2 * 3".toList⟩, .crashed (-9)),
                (⟨⟨1, by decide⟩, "1 / 0".toList⟩, .running)],
               [(⟨⟨3, by decide⟩, "4 - 5".toList⟩, .delivered),
                (⟨⟨1, by decide⟩, "1 / 0".toList⟩, .delivered)]] := by
        decide +kernel
      rw [hpasses] at horder
      have h21 := horder ⟨⟨2, by decide⟩, "2 * 3".toList⟩ ⟨⟨1, by decide⟩, "1 / 0".toList⟩ 0 1
        ⟨_, .crashed (-9), rfl, List.mem_cons_self .., nofun⟩
        ⟨_, .delivered, rfl, List.mem_cons_of_mem _ (List.mem_cons_self ..), nofun⟩
      have h31 := horder ⟨⟨3, by decide⟩, "4 - 5".toList⟩ ⟨⟨1, by decide⟩, "1 / 0".toList⟩ 1 1
        ⟨_, .delivered, rfl, List.mem_cons_self .., nofun⟩
        ⟨_, .delivered, rfl, List.mem_cons_of_mem _ (List.mem_cons_self ..), nofun⟩
      have h13 := horder ⟨⟨1, by decide⟩, "1 / 0".toList⟩ ⟨⟨3, by decide⟩, "4 - 5".toList⟩ 1 1
        ⟨_, .delivered, rfl, List.mem_cons_of_mem _ (List.mem_cons_self ..), nofun⟩
        ⟨_, .delivered, rfl, List.mem_cons_self .., nofun⟩
      refine ⟨os, rfl, h21.mpr (Or.inl Nat.zero_lt_one), h31.mpr (Or.inr ⟨rfl, by decide⟩),
        fun h => ?_, hfiles⟩
      rcases h13.mp h with hlt | ⟨-, hlt⟩
      · exact Nat.lt_irrefl _ hlt
      · exact absurd hlt (by decide)

/-! ## Lines that overtake others -/

/-- The schedule in which all the workers have delivered by the time of each pass. -/
def Schedule.atOnce (js : List Job) : Schedule := js.map fun _ _ => .delivered

section

variable {b : Batch} {host : Host} {fs : Files} {es : List Text} {l : Location}

theorem eq_delivered_of_atOnce {processors : Nat} {v : Job × Arrival}
    (hv : v ∈ b.visits processors (Schedule.atOnce (jobs es)) es) : v.2 = .delivered := by
  obtain ⟨arrival, harrival, h⟩ := State.exists_arrival_of_visit hv
  obtain ⟨_, -, rfl⟩ := List.mem_map.mp harrival
  exact h.symm

theorem exists_outcomes_of_atOnce (hes : Source.expressions host fs b.input = .ok es)
    (hl : fs.target b.output = .ok l)
    (hlimit : 0 < limitFor b.workers host.processors es.length) :
    ∃ os, (b.run host fs Schedule.atOnce).result = .ok os := by
  refine exists_outcomes_of_complete Schedule.atOnce hes hl ?_
  refine State.follow_of_ended hlimit _ _ (State.busy_fill hlimit _) ?_ fun arrival ha j _ => ?_
  · rw [State.left_fill, State.left_initial, Schedule.atOnce, List.length_map]
  · obtain ⟨_, -, rfl⟩ := List.mem_map.mp ha
    exact nofun

/-- The first pass collects whoever has been started by then. -/
theorem collectedIn_first_of_atOnce {processors : Nat} {j : Job}
    (hj : j ∈ (jobs es).take (limitFor b.workers processors es.length)) :
    CollectedIn (b.passes processors (Schedule.atOnce (jobs es)) es) 0 j := by
  set s := (State.initial (jobs es)).fill (limitFor b.workers processors es.length) with hs
  have hactive : j ∈ s.active := hj
  have hc : ¬s.isComplete = true := by
    intro hc
    have hleft : j ∈ s.left := List.mem_append_left s.pending hactive
    rw [State.left_eq_nil hc] at hleft
    cases hleft
  cases hjobs : jobs es with
  | nil =>
      rw [hjobs, List.take_nil] at hj
      cases hj
  | cons k ks =>
      rw [passes, ← hs, Schedule.atOnce, List.map_cons, State.passes_cons hc]
      exact ⟨_, .delivered, rfl,
        List.mem_map.mpr ⟨j, List.mem_reverse.mpr hactive, rfl⟩, nofun⟩

theorem mem_take_jobs {j : Job} (hj : j ∈ jobs es) {n : Nat} (hn : j.line.val ≤ n) :
    j ∈ (jobs es).take n := by
  obtain ⟨k, hk⟩ := List.mem_iff_getElem?.mp hj
  have hline : (jobLines (jobs es))[k]? = some j.line.val := by
    rw [jobLines, List.getElem?_map, hk]
    rfl
  rw [jobLines, map_line_jobs] at hline
  obtain ⟨hlt, heq⟩ := List.getElem?_eq_some_iff.mp hline
  rw [List.getElem_range'] at heq
  exact List.mem_of_getElem? ((List.getElem?_take_of_lt (by omega)).trans hk)

/-- The workers end in the order of their lines, all of them before the first visit. -/
def timelineAtOnce (b : Batch) (processors : Nat) (es : List Text) :
    Timeline Nat (b.visits processors (Schedule.atOnce (jobs es)) es) where
  visit k := es.length + k
  finish j := j.line.val
  increasing := fun k l hlt _ => Nat.add_lt_add_left hlt es.length
  running_iff := by
    intro k j a hk
    have hmem := List.mem_of_getElem? hk
    have hdelivered : a = .delivered := eq_delivered_of_atOnce hmem
    have hjob := State.mem_left_of_mem_visits hmem
    rw [State.left_fill, State.left_initial] at hjob
    have hline : j.line.val ≤ es.length := line_le_length hjob
    rw [hdelivered]
    exact ⟨nofun, fun hlt => absurd hlt (by omega)⟩

/-- As many lines as there are places come in the reverse of the order in which their
workers have ended, if all of these have by the first pass. -/
theorem overtaken_atOnce (b : Batch) (hes : Source.expressions host fs b.input = .ok es)
    (hl : fs.target b.output = .ok l) {i j : Job}
    (hi : i ∈ jobs es) (hj : j ∈ jobs es) (hij : i.line.val < j.line.val)
    (hroom : j.line.val ≤ limitFor b.workers host.processors es.length) :
    (timelineAtOnce b host.processors es).finish i < (timelineAtOnce b host.processors es).finish j
      ∧ ∃ os, (b.run host fs Schedule.atOnce).result = .ok os
        ∧ [j.line.val, i.line.val].Sublist (outcomeLines os)
        ∧ ¬[i.line.val, j.line.val].Sublist (outcomeLines os) := by
  have hlimit := Nat.lt_of_lt_of_le j.line.property hroom
  obtain ⟨os, hos⟩ := exists_outcomes_of_atOnce hes hl hlimit
  have hfirst := collectedIn_first_of_atOnce
    (mem_take_jobs hi (Nat.le_trans (Nat.le_of_lt hij) hroom))
  have hfirst' := collectedIn_first_of_atOnce (mem_take_jobs hj hroom)
  refine ⟨hij, os, hos, ?_, fun h => ?_⟩
  · exact (sublist_outcomeLines_iff hes hl hos hfirst' hfirst).mpr (Or.inr ⟨rfl, hij⟩)
  · rcases (sublist_outcomeLines_iff hes hl hos hfirst hfirst').mp h with hlt | ⟨-, hlt⟩
    · exact Nat.lt_irrefl _ hlt
    · exact Nat.lt_asymm hij hlt

end

/-- In a batch with room for two workers the first one ends before the second, and the
outcome of the second line is returned, and written, before that of the first. -/
theorem completion_order_broken :
    ∃ (t : Timeline Nat (sample.visits 8 (Schedule.atOnce (jobs sampleLines)) sampleLines))
      (os : List Outcome),
      (sample.run sampleHost sampleFiles Schedule.atOnce).result = .ok os
        ∧ t.finish ⟨⟨1, by decide⟩, "1 / 0".toList⟩ < t.finish ⟨⟨2, by decide⟩, "2 * 3".toList⟩
        ∧ ¬[1, 2].Sublist (outcomeLines os)
        ∧ (sample.run sampleHost sampleFiles Schedule.atOnce).files
            = sampleFiles.put ["out.txt".toList] (Utf8.encode
                "2 * 3 = 6\n1 / 0 -> ERROR: Division by zero: 1 / 0\n4 - 5 = -1\n".toList) := by
  have hes : Source.expressions sampleHost sampleFiles sample.input = .ok sampleLines := by decide
  have hl : sampleFiles.target sample.output = .ok ["out.txt".toList] := by decide
  obtain ⟨hfinish, os, hos, -, hlines⟩ := overtaken_atOnce sample hes hl
    (i := ⟨⟨1, by decide⟩, "1 / 0".toList⟩) (j := ⟨⟨2, by decide⟩, "2 * 3".toList⟩)
    (by decide) (by decide) (by decide) (by decide)
  exact ⟨timelineAtOnce sample 8 sampleLines, os, hos, hfinish, hlines, by decide +kernel⟩

end Reckon.Batch
