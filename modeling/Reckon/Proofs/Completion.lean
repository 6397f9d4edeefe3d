import Mathlib.Data.List.Basic
import Reckon.Batch.Run
import Reckon.Proofs.Runs

/-!
# Batches come to their end

A batch goes on as long as a job is left, and with room for at least one worker there
is an active worker then (`State.Busy`). So each pass that finds an active worker ended
makes the jobs that are left fewer. Two kinds of schedules bring a batch to its end for
that reason: the one in which the workers deliver in the order of their lines, and every
schedule that goes on for long enough, if each worker ends at some time.
-/

namespace Reckon.Batch

/-- What an endless series of passes finds of each worker. -/
abbrev Arrivals := Nat → Job → Arrival

namespace Arrivals

/-- Each worker is found ended from some pass on. -/
def Fair (arrivals : Arrivals) : Prop :=
  ∀ j, ∃ n, ∀ m, n ≤ m → arrivals m j ≠ .running

/-- The schedule of the first passes. -/
def first (n : Nat) (arrivals : Arrivals) : Schedule := (List.range n).map arrivals

theorem Fair.exists_common {arrivals : Arrivals} (h : arrivals.Fair) : ∀ js : List Job,
    ∃ n, ∀ m, n ≤ m → ∀ j ∈ js, arrivals m j ≠ .running
  | [] => ⟨0, fun _ _ j hj => by cases hj⟩
  | j :: js => by
      obtain ⟨n, hn⟩ := h j
      obtain ⟨n', hn'⟩ := h.exists_common js
      refine ⟨max n n', fun m hm => List.forall_mem_cons.mpr ⟨hn m ?_, hn' m ?_⟩⟩
      · exact Nat.le_trans (Nat.le_max_left n n') hm
      · exact Nat.le_trans (Nat.le_max_right n n') hm

end Arrivals

namespace State

variable {limit : Nat} {s s' : State}

/-- Some worker is active whenever a job is left. -/
def Busy (s : State) : Prop := s.left ≠ [] → s.active ≠ []

theorem busy_fill (hlimit : 0 < limit) (s : State) : (s.fill limit).Busy := by
  intro hleft hactive
  rw [left_fill] at hleft
  simp only [fill, List.append_eq_nil_iff, List.take_eq_nil_iff] at hactive
  obtain ⟨hnone, hroom | hpending⟩ := hactive
  · rw [hnone, List.length_nil] at hroom
    omega
  · exact hleft (by rw [left, hnone, hpending, List.append_nil])

theorem isComplete_of_left (h : s.left = []) : s.isComplete = true := by
  obtain ⟨hactive, hpending⟩ := List.append_eq_nil_iff.mp h
  simp [isComplete, hactive, hpending]

theorem Busy.exists_active (h : s.Busy) (hc : ¬s.isComplete = true) :
    ∃ j js, s.active = j :: js :=
  List.exists_cons_of_ne_nil (h fun hleft => hc (isComplete_of_left hleft))

/-! ## Following a schedule -/

theorem follow_of_complete (h : s.isComplete = true) : ∀ schedule : Schedule,
    s.follow limit schedule = .ok s
  | [] => rfl
  | arrival :: rest => by rw [follow, if_pos h]

theorem follow_cons (h : ¬s.isComplete = true) (arrival : Job → Arrival) (rest : Schedule) :
    s.follow limit (arrival :: rest) = ((s.afterPass arrival).fill limit).follow limit rest := by
  rw [follow, if_neg h, pass_eq_ok]

theorem follow_append {xs : Schedule} (ys : Schedule) (h : s.follow limit xs = .ok s') :
    s.follow limit (xs ++ ys) = s'.follow limit ys := by
  induction xs generalizing s with
  | nil =>
      obtain rfl := Except.ok.inj h
      rfl
  | cons arrival rest ih =>
      by_cases hc : s.isComplete = true
      · rw [follow_of_complete hc] at h ⊢
        obtain rfl := Except.ok.inj h
        rw [follow_of_complete hc]
      · rw [follow_cons hc] at h
        rw [List.cons_append, follow_cons hc]
        exact ih h

theorem Busy.follow (hlimit : 0 < limit) {xs : Schedule} (hs : s.Busy)
    (h : s.follow limit xs = .ok s') : s'.Busy := by
  induction xs generalizing s with
  | nil =>
      obtain rfl := Except.ok.inj h
      exact hs
  | cons arrival rest ih =>
      by_cases hc : s.isComplete = true
      · rw [follow_of_complete hc] at h
        obtain rfl := Except.ok.inj h
        exact hs
      · rw [follow_cons hc] at h
        exact ih (busy_fill hlimit _) h

/-! ## Workers that deliver in order -/

/-- A pass that finds ended the first active worker alone takes the first job off. -/
theorem left_afterPass_of_first {arrival : Job → Arrival} {j : Job} {js : List Job}
    (hactive : s.active = j :: js) (hj : arrival j = .delivered)
    (hjs : ∀ k ∈ js, arrival k = .running) : (s.afterPass arrival).left = js ++ s.pending := by
  have hstay : js.filter (fun k => (arrival k).ending?.isNone) = js := by
    refine List.filter_eq_self.mpr fun k hk => ?_
    rw [hjs k hk]
    rfl
  have hfilter : s.active.filter (fun k => (arrival k).ending?.isNone) = js := by
    rw [hactive, List.filter_cons, hstay, hj]
    rfl
  unfold left afterPass
  simp only [hfilter]

theorem follow_inOrder (hlimit : 0 < limit) : ∀ (js : List Job) (s : State), s.left = js →
    (js.map fun j => j.line.val).Nodup → s.Busy →
    ∃ s', s.follow limit (Schedule.inOrder js) = .ok s' ∧ s'.isComplete = true
  | [], s, hleft, _, _ => ⟨s, rfl, isComplete_of_left hleft⟩
  | j :: js, s, hleft, hnodup, hs => by
      have hc : ¬s.isComplete = true := by
        intro hc
        rw [left_eq_nil hc] at hleft
        cases hleft
      obtain ⟨j', active, hactive⟩ := hs.exists_active hc
      rw [left, hactive, List.cons_append] at hleft
      obtain ⟨rfl, hrest⟩ := List.cons.inj hleft
      rw [List.map_cons, List.nodup_cons] at hnodup
      have hothers : ∀ k ∈ active, ¬k.line = j'.line := by
        intro k hk hline
        refine hnodup.1 (List.mem_map.mpr ⟨k, ?_, congrArg Subtype.val hline⟩)
        rw [← hrest]
        exact List.mem_append_left _ hk
      rw [Schedule.inOrder, List.map_cons, follow_cons hc]
      refine follow_inOrder hlimit js _ ?_ hnodup.2 (busy_fill hlimit _)
      rw [left_fill, left_afterPass_of_first hactive (if_pos rfl) fun k hk => if_neg (hothers k hk)]
      exact hrest

/-! ## Workers that end at some time -/

theorem left_afterPass_of_ended {arrival : Job → Arrival}
    (h : ∀ j ∈ s.active, arrival j ≠ .running) : (s.afterPass arrival).left = s.pending := by
  have hnone : s.active.filter (fun j => (arrival j).ending?.isNone) = [] := by
    refine List.filter_eq_nil_iff.mpr fun j hj hrunning => ?_
    exact h j hj (Arrival.ending?_eq_none_iff.mp (Option.isNone_iff_eq_none.mp hrunning))
  simp [left, afterPass, hnone]

theorem follow_of_ended (hlimit : 0 < limit) : ∀ (schedule : Schedule) (s : State), s.Busy →
    s.left.length ≤ schedule.length →
    (∀ arrival ∈ schedule, ∀ j ∈ s.left, arrival j ≠ .running) →
    ∃ s', s.follow limit schedule = .ok s' ∧ s'.isComplete = true
  | [], s, _, hlength, _ =>
      ⟨s, rfl, isComplete_of_left (List.eq_nil_of_length_eq_zero (Nat.le_zero.mp hlength))⟩
  | arrival :: rest, s, hs, hlength, hended => by
      by_cases hc : s.isComplete = true
      · exact ⟨s, follow_of_complete hc _, hc⟩
      · obtain ⟨j, js, hactive⟩ := hs.exists_active hc
        obtain ⟨harrival, hrest⟩ := List.forall_mem_cons.mp hended
        have hpass : (s.afterPass arrival).left = s.pending :=
          left_afterPass_of_ended fun k hk => harrival k (List.mem_append_left _ hk)
        rw [follow_cons hc]
        refine follow_of_ended hlimit rest _ (busy_fill hlimit _) ?_ fun a ha k hk => ?_
        · rw [left_fill, hpass]
          rw [left, hactive, List.length_append, List.length_cons, List.length_cons] at hlength
          omega
        · rw [left_fill, hpass] at hk
          exact hrest a ha k (List.mem_append_right _ hk)

/-- If every worker ends at some time, then so many passes are enough. -/
theorem exists_complete_of_fair (hlimit : 0 < limit) {arrivals : Arrivals}
    (hfair : arrivals.Fair) (hs : s.Busy) :
    ∃ n s', s.follow limit (arrivals.first n) = .ok s' ∧ s'.isComplete = true := by
  obtain ⟨n, hn⟩ := hfair.exists_common s.left
  obtain ⟨s₁, hs₁, -, -, hperm⟩ := follow_eq_ok limit (arrivals.first n) s
  have hlength := hperm.length_eq
  rw [List.length_append] at hlength
  refine ⟨n + s.left.length, ?_⟩
  -- from the pass on at which all of them have ended, each pass takes off what is active
  rw [Arrivals.first, List.range_add, List.map_append, ← Arrivals.first, follow_append _ hs₁]
  refine follow_of_ended hlimit _ s₁ (hs.follow hlimit hs₁) ?_ fun arrival ha j hj => ?_
  · simp only [List.length_map, List.length_range]
    omega
  · simp only [List.map_map, List.mem_map, Function.comp_apply, List.mem_range] at ha
    obtain ⟨k, -, rfl⟩ := ha
    exact hn (n + k) (Nat.le_add_right n k) j (hperm.symm.subset (List.mem_append_right _ hj))

end State

/-! ## Runs -/

theorem limitFor_pos {workers : Option Nat} {processors count : Nat} (hp : 0 < processors)
    (hw : ∀ w, workers = some w → 0 < w) (hcount : 0 < count) :
    0 < limitFor workers processors count := by
  unfold limitFor
  cases workers with
  | none => exact Nat.lt_min.mpr ⟨hp, hcount⟩
  | some w => exact Nat.lt_min.mpr ⟨hw w rfl, hcount⟩

section

variable {b : Batch} {processors : Nat}

theorem process_of_no_jobs (limit : Nat) (schedule : Schedule) :
    ∃ s, process limit schedule (jobs []) = .ok s ∧ s.isComplete = true := by
  have hc : ((State.initial (jobs [])).fill limit).isComplete = true :=
    State.isComplete_of_left (by rw [State.left_fill]; rfl)
  exact ⟨_, State.follow_of_complete hc schedule, hc⟩

theorem process_inOrder (hp : 0 < processors) (hw : ∀ w, b.workers = some w → 0 < w)
    (es : List Text) :
    ∃ s, process (limitFor b.workers processors es.length) (Schedule.inOrder (jobs es)) (jobs es)
        = .ok s ∧ s.isComplete = true := by
  cases es with
  | nil => exact process_of_no_jobs _ _
  | cons e es =>
      have hlimit := limitFor_pos hp hw (Nat.succ_pos es.length)
      refine State.follow_inOrder hlimit _ _ ?_ (nodup_map_line_jobs _) (State.busy_fill hlimit _)
      rw [State.left_fill]
      rfl

theorem process_of_fair (hp : 0 < processors) (hw : ∀ w, b.workers = some w → 0 < w)
    (es : List Text) {arrivals : Arrivals} (hfair : arrivals.Fair) :
    ∃ n s, process (limitFor b.workers processors es.length) (arrivals.first n) (jobs es) = .ok s
      ∧ s.isComplete = true := by
  cases es with
  | nil => exact ⟨0, process_of_no_jobs _ _⟩
  | cons e es =>
      have hlimit := limitFor_pos hp hw (Nat.succ_pos es.length)
      exact State.exists_complete_of_fair hlimit hfair (State.busy_fill hlimit _)

/-- A run whose files can be opened, and which comes to its end, returns outcomes. -/
theorem exists_outcomes_of_complete {host : Host} {fs : Files} {es : List Text} {l : Location}
    (schedule : List Job → Schedule) (hes : Source.expressions host fs b.input = .ok es)
    (hl : fs.target b.output = .ok l)
    (h : ∃ s, process (limitFor b.workers host.processors es.length) (schedule (jobs es)) (jobs es)
        = .ok s ∧ s.isComplete = true) :
    ∃ os, (b.run host fs schedule).result = .ok os := by
  obtain ⟨s, hs, hc⟩ := h
  obtain ⟨s', hs', -, hresult⟩ := run_of_open schedule hes hl
  rw [hs] at hs'
  obtain rfl := Except.ok.inj hs'
  exact ⟨s.outcomes, by rw [hresult, if_pos hc]⟩

end

end Reckon.Batch
