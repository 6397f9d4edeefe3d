import Mathlib.Data.List.TakeWhile
import Reckon.Proofs.Encoding
import Reckon.Proofs.Messages
import Reckon.Proofs.Storage

/-!
# The lines of a results file

The results file is cut into lines at every line boundary there is, not only at the
line feeds that the batch writes. So it has one line an outcome only if no outcome
brings a boundary of its own. Three things see to that: an expression is a piece of a
line of the input (`isLine_of_mem_contentLines`), a number has digits and a sign, and a
message shows nothing but wording and printable characters (`Text.Shows`).

Lines without boundaries, each ended by a line feed, are cut back into the same lines
(`lines_flatMap`), and what has been written can be read again: under the path of the
results file stand the bytes, and they decode to the text.
-/

namespace Reckon

namespace Text

/-! ## Texts without a line boundary -/

/-- The text lies within one line. -/
def IsLine (t : Text) : Prop := ∀ c ∈ t, isLineBoundary c = false

theorem IsLine.words {t : Text} (h : t.all (fun c => !isLineBoundary c) = true) : t.IsLine := by
  intro c hc
  simpa using List.all_eq_true.mp h c hc

theorem IsLine.append {s t : Text} (hs : s.IsLine) (ht : t.IsLine) : IsLine (s ++ t) := by
  intro c hc
  rcases List.mem_append.mp hc with hc | hc
  · exact hs c hc
  · exact ht c hc

theorem IsLine.of_subset {s t : Text} (ht : t.IsLine) (h : ∀ c ∈ s, c ∈ t) : s.IsLine :=
  fun c hc => ht c (h c hc)

theorem Shows.isLine {e m : Text} (h : Shows e m) : m.IsLine :=
  fun _ hx => h.isLineBoundary hx

/-! ## Cutting into lines -/

theorem lines_cons {c : Char} (hc : c ≠ '\r') (t : Text) :
    lines (c :: t) = if isLineBoundary c then [] :: lines t else extendFirst c (lines t) := by
  rw [lines]
  rintro t' rfl
  exact absurd rfl hc

theorem lines_append_feed : ∀ {l : Text}, l.IsLine → ∀ t : Text,
    lines (l ++ '\n' :: t) = l :: lines t
  | [], _, t => by
      rw [List.nil_append, lines_cons (by decide)]
      rfl
  | c :: l, hl, t => by
      obtain ⟨hc, hl⟩ := List.forall_mem_cons.mp hl
      have hr : c ≠ '\r' := by
        rintro rfl
        cases hc
      rw [List.cons_append, lines_cons hr, hc, lines_append_feed hl]
      rfl

theorem lines_flatMap {ls : List Text} (h : ∀ l ∈ ls, l.IsLine) :
    lines (ls.flatMap fun l => l ++ ['\n']) = ls := by
  induction ls with
  | nil => rfl
  | cons l ls ih =>
      obtain ⟨hl, hls⟩ := List.forall_mem_cons.mp h
      rw [List.flatMap_cons, List.append_assoc, List.singleton_append, lines_append_feed hl,
        ih hls]

theorem isLine_of_mem_extendFirst {c : Char} {ls : List Text} (hc : isLineBoundary c = false)
    (hls : ∀ l ∈ ls, l.IsLine) : ∀ l ∈ extendFirst c ls, l.IsLine := by
  unfold extendFirst
  split
  · simpa [IsLine] using hc
  · obtain ⟨hl, hls⟩ := List.forall_mem_cons.mp hls
    exact List.forall_mem_cons.mpr ⟨List.forall_mem_cons.mpr ⟨hc, hl⟩, hls⟩

theorem isLine_of_mem_lines {t : Text} : ∀ l ∈ lines t, l.IsLine := by
  have hnil : IsLine [] := fun c hc => by cases hc
  fun_induction lines t with
  | case1 => simp
  | case2 t ih => exact List.forall_mem_cons.mpr ⟨hnil, ih⟩
  | case3 c t hcr hc ih => exact List.forall_mem_cons.mpr ⟨hnil, ih⟩
  | case4 c t hcr hc ih => exact isLine_of_mem_extendFirst (by simpa using hc) ih

/-! ## The lines a batch works on -/

/-- The line holds more than blanks. -/
def hasContent (l : Text) : Bool := l.any fun c => !isBlank c

theorem mem_of_mem_trimmed {t : Text} {c : Char} (h : c ∈ trimmed t) : c ∈ t := by
  unfold trimmed trimmedBy at h
  have hmid := (List.dropWhile_sublist isBlank).subset (List.mem_reverse.mp h)
  exact (List.dropWhile_sublist isBlank).subset (List.mem_reverse.mp hmid)

theorem dropWhile_eq_nil_of_reverse {p : Char → Bool} {t : Text}
    (h : (t.dropWhile p).reverse.dropWhile p = []) : t.dropWhile p = [] := by
  rw [List.dropWhile_eq_nil_iff] at h
  cases hd : t.dropWhile p with
  | nil => rfl
  | cons c u =>
      have hc : p c = true := h c (by rw [hd]; simp)
      have hnot := List.head?_dropWhile_not p t
      rw [hd] at hnot
      simp [hc] at hnot

/-- Trimming leaves something of the lines that hold something. -/
theorem trimmed_ne_nil_iff {t : Text} : trimmed t ≠ [] ↔ hasContent t = true := by
  have hblank : trimmed t = [] ↔ ∀ c ∈ t, isBlank c = true := by
    rw [← List.dropWhile_eq_nil_iff, trimmed, trimmedBy, List.reverse_eq_nil_iff]
    constructor
    · exact dropWhile_eq_nil_of_reverse
    · intro h
      rw [h]
      rfl
  rw [Ne, hblank, hasContent]
  simp

theorem contentLines_eq (t : Text) :
    contentLines t = ((lines t).filter hasContent).map trimmed := by
  unfold contentLines
  rw [List.filter_map]
  congr 1
  refine List.filter_congr fun l _ => ?_
  rw [Function.comp_apply, Bool.eq_iff_iff, decide_eq_true_eq]
  exact trimmed_ne_nil_iff

theorem isLine_of_mem_contentLines {t l : Text} (h : l ∈ contentLines t) : l.IsLine := by
  rw [contentLines_eq] at h
  obtain ⟨m, hm, rfl⟩ := List.mem_map.mp h
  exact (isLine_of_mem_lines m (List.mem_filter.mp hm).1).of_subset fun c => mem_of_mem_trimmed

end Text

/-! ## The lines of outcomes -/

theorem Outcome.isLine_toLine {o : Outcome} (he : o.expression.IsLine)
    (hm : ∀ m, o.error? = some m → m.IsLine) : o.toLine.IsLine := by
  unfold toLine
  cases ha : o.answer with
  | result n =>
      have hwords : Text.IsLine " = ".toList := .words rfl
      have hnumber : (Decimal.ofInt n).IsLine := (Text.Shows.ofInt (e := []) n).isLine
      exact (he.append hwords).append hnumber
  | error m =>
      have hwords : Text.IsLine " -> ERROR: ".toList := .words rfl
      exact (he.append hwords).append (hm m (by simp [error?, ha]))

namespace Batch

theorem expression_outcomeOf (j : Job) (e : Ending) :
    (outcomeOf j e).expression = j.expression := by
  cases e with
  | crashed code => rfl
  | delivered =>
      unfold outcomeOf Job.evaluate Job.report
      cases calculate (some j.expression) <;> rfl

theorem shows_error?_outcomeOf {j : Job} {e : Ending} {m : Text}
    (h : (outcomeOf j e).error? = some m) : Text.Shows j.expression m := by
  cases e with
  | crashed code =>
      obtain rfl := Option.some.inj h
      exact shows_crashMessage j.expression (some code)
  | delivered =>
      unfold outcomeOf Job.evaluate Job.report at h
      cases hv : calculate (some j.expression) with
      | ok n =>
          rw [hv] at h
          cases h
      | error f =>
          rw [hv] at h
          obtain rfl := Option.some.inj h
          exact shows_of_calculate_error hv

theorem isLine_outcomeOf {j : Job} (e : Ending) (hj : j.expression.IsLine) :
    (outcomeOf j e).toLine.IsLine := by
  refine Outcome.isLine_toLine ?_ fun m hm => (shows_error?_outcomeOf hm).isLine
  rwa [expression_outcomeOf]

theorem map_expression_jobsAfter : ∀ (before : Nat) (es : List Text),
    (jobsAfter before es).map Job.expression = es
  | _, [] => rfl
  | before, e :: es => by
      rw [jobsAfter, List.map_cons, map_expression_jobsAfter (before + 1) es]

theorem map_expression_jobs (es : List Text) : (jobs es).map Job.expression = es :=
  map_expression_jobsAfter 0 es

theorem perm_expressions {es : List Text} {vs : List (Job × Arrival)}
    (h : (jobs es).Perm ((endingsIn vs).map Prod.fst)) :
    ((outcomesOf (endingsIn vs)).map Outcome.expression).Perm es := by
  have hmap : (outcomesOf (endingsIn vs)).map Outcome.expression
      = ((endingsIn vs).map Prod.fst).map Job.expression := by
    unfold outcomesOf
    rw [List.map_map, List.map_map]
    exact List.map_congr_left fun v _ => expression_outcomeOf v.1 v.2
  rw [hmap]
  have hperm := h.symm.map Job.expression
  rwa [map_expression_jobs] at hperm

theorem flatMap_fileLine (os : List Outcome) :
    os.flatMap fileLine = (os.map Outcome.toLine).flatMap fun l => l ++ ['\n'] := by
  rw [List.flatMap_map]
  rfl

theorem exists_text_of_expressions {host : Host} {fs : Files} {p : Path} {es : List Text}
    (h : Source.expressions host fs p = .ok es) :
    ∃ t, Source.text host fs p = .ok t ∧ es = Text.contentLines t := by
  unfold Source.expressions at h
  cases ht : Source.text host fs p with
  | error f =>
      rw [ht] at h
      cases h
  | ok t =>
      rw [ht] at h
      exact ⟨t, rfl, (Except.ok.inj h).symm⟩

/-- **One line an outcome.** When a run returns its outcomes, whatever its schedule and
whichever workers crash, the bytes under the path of the results file decode to a text
which is cut, at every line boundary, into the lines of the outcomes, in their order. The
outcomes are about the lines of the input that hold more than blanks, one about each. -/
theorem lines_of_results {b : Batch} {host : Host} {fs : Files}
    {schedule : List Job → Schedule} {os : List Outcome}
    (hos : (b.run host fs schedule).result = .ok os) :
    ∃ input bytes written, Source.text host fs b.input = .ok input
      ∧ (b.run host fs schedule).files.find b.output = .ok (.file bytes)
      ∧ Utf8.decode bytes = .ok written
      ∧ Text.lines written = os.map Outcome.toLine
      ∧ (os.map Outcome.expression).Perm
          (((Text.lines input).filter Text.hasContent).map Text.trimmed) := by
  obtain ⟨es, l, hes, hl⟩ := exists_open_of_run hos
  obtain ⟨input, htext, rfl⟩ := exists_text_of_expressions hes
  obtain ⟨s, hs, -, hout, hfiles⟩ := exists_complete_of_run hes hl hos
  obtain ⟨hlocate, hwritable⟩ := Files.writable_of_target hl
  obtain ⟨s', hs', -, hwritten, -⟩ :=
    process_eq_ok b host.processors (schedule (jobs (Text.contentLines input)))
      (Text.contentLines input)
  rw [hs] at hs'
  obtain rfl := Except.ok.inj hs'
  obtain ⟨hos', hperm⟩ := outcomes_of_run hes hos
  have hexpressions := perm_expressions hperm
  rw [← hos'] at hexpressions
  have hlines : ∀ t ∈ os.map Outcome.toLine, t.IsLine := by
    intro t ht
    obtain ⟨o, ho, rfl⟩ := List.mem_map.mp ht
    have hline : o.expression.IsLine :=
      Text.isLine_of_mem_contentLines (hexpressions.subset (List.mem_map_of_mem ho))
    rw [hos'] at ho
    obtain ⟨v, -, rfl⟩ := List.mem_map.mp ho
    rw [expression_outcomeOf] at hline
    exact isLine_outcomeOf v.2 hline
  refine ⟨input, Utf8.encode s.written, s.written, htext, ?_, Utf8.decode_encode _, ?_, ?_⟩
  · rw [hfiles]
    exact Files.find_put hlocate hwritable
  · rw [hwritten, hout, flatMap_fileLine, Text.lines_flatMap hlines]
  · rw [← Text.contentLines_eq]
    exact hexpressions

/-- Lines behind boundaries of several kinds. Two of them hold characters that a message
has to quote. -/
def awkwardText : Text := "1 / 0\u2028 2 * 3\t\x85\x1C4 \u202E 'x'\n7\t-\t5".toList

def awkwardFiles : Files where
  entries := [(["in.txt".toList], .file (Utf8.encode awkwardText))]

def awkwardSchedule (js : List Job) : Schedule :=
  sampleSchedule js ++ [fun _ => .delivered]

/-- The results file has four lines, one of them about a worker that was killed. -/
theorem lines_of_results_sample :
    ∃ os bytes written, (sample.run sampleHost awkwardFiles awkwardSchedule).result = .ok os
      ∧ (sample.run sampleHost awkwardFiles awkwardSchedule).files.find sample.output
        = .ok (.file bytes)
      ∧ Utf8.decode bytes = .ok written ∧ Text.lines written = os.map Outcome.toLine
      ∧ (Text.lines written).length = 4 := by
  obtain ⟨os, hos⟩ : ∃ os, (sample.run sampleHost awkwardFiles awkwardSchedule).result = .ok os :=
    exists_ok_of_isSome (by decide +kernel)
  obtain ⟨input, bytes, written, htext, hfind, hdecode, hlines, hperm⟩ := lines_of_results hos
  have hinput : Source.text sampleHost awkwardFiles sample.input = .ok awkwardText := by
    decide +kernel
  rw [hinput] at htext
  obtain rfl := Except.ok.inj htext
  have hcount : (((Text.lines awkwardText).filter Text.hasContent).map Text.trimmed).length
      = 4 := by decide +kernel
  have hlength := hperm.length_eq
  rw [hcount, List.length_map] at hlength
  refine ⟨os, bytes, written, hos, hfind, hdecode, hlines, ?_⟩
  rw [hlines, List.length_map, hlength]

end Batch

end Reckon
