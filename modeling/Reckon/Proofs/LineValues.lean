import Reckon.Proofs.Completion
import Reckon.Proofs.FileLines
import Reckon.Proofs.Formats
import Reckon.Proofs.IllegalCharacters

/-!
# A batch answers as a calculation does

Between a line of the input and its outcome stands a good deal: line ends become line
feeds, blank lines are dropped, the others are trimmed and numbered, each goes to a
worker, and the outcome comes back as a record. None of it takes a value away.

Trimming is what needs an argument, because it takes off far more characters than an
expression may hold. But of those the only legal one is the space
(`eq_space_of_isBlank`), so an accepted line loses nothing but spaces at its ends, and
spaces leave no token (`tokenize_trimmed`). The rest is counting: the number of a line is
how many lines with content there are up to it (`exists_job_of_line`), and a job whose
worker does not crash has the outcome of its own evaluation.
-/

namespace Reckon

namespace Text

/-! ## Line feeds -/

theorem withLineFeeds_cons {c : Char} {t : Text} (h : ∀ u, c = '\r' → t = '\n' :: u → False) :
    withLineFeeds (c :: t) = (if c = '\r' then '\n' else c) :: withLineFeeds t := by
  rw [withLineFeeds]
  exact h

/-- A text is cut into the same lines after its line ends have become line feeds. -/
theorem lines_withLineFeeds (t : Text) : lines (withLineFeeds t) = lines t := by
  fun_induction lines t with
  | case1 => rfl
  | case2 t ih =>
      rw [withLineFeeds, lines_cons (by decide), ih]
      rfl
  | case3 c t hfeed hc ih =>
      rw [withLineFeeds_cons hfeed]
      split
      · rw [lines_cons (by decide), ih]
        rfl
      case isFalse hr => rw [lines_cons hr, if_pos hc, ih]
  | case4 c t hfeed hc ih =>
      have hr : c ≠ '\r' := by
        rintro rfl
        exact hc rfl
      rw [withLineFeeds_cons hfeed, if_neg hr, lines_cons hr, if_neg hc, ih]

theorem contentLines_withLineFeeds (t : Text) :
    contentLines (withLineFeeds t) = contentLines t := by
  rw [contentLines, contentLines, lines_withLineFeeds]

/-! ## What trimming takes off -/

theorem exists_trimmedBy (p : Char → Bool) (t : Text) :
    ∃ s s', t = s ++ (trimmedBy p t ++ s') ∧ (∀ c ∈ s, p c = true) ∧ ∀ c ∈ s', p c = true := by
  refine ⟨t.takeWhile p, ((t.dropWhile p).reverse.takeWhile p).reverse, ?_,
    fun c hc => List.mem_takeWhile_imp hc,
    fun c hc => List.mem_takeWhile_imp (List.mem_reverse.mp hc)⟩
  rw [trimmedBy, ← List.reverse_append, List.takeWhile_append_dropWhile, List.reverse_reverse,
    List.takeWhile_append_dropWhile]

/-- Of the blanks only the space is legal. -/
theorem eq_space_of_isBlank {c : Char} (hb : isBlank c = true) (hl : isLegal c = true) :
    c = ' ' := by
  rcases isLegal_iff.mp hl with hd | hs | ⟨op, rfl⟩
  · have hrange := Bool.and_eq_true_iff.mp hd
    have hlow : 48 ≤ c.toNat := UInt32.le_iff_toNat_le.mp (of_decide_eq_true hrange.1)
    have hhigh : c.toNat ≤ 57 := UInt32.le_iff_toNat_le.mp (of_decide_eq_true hrange.2)
    simp only [isBlank, isWhiteSpace, Bool.or_eq_true, Bool.and_eq_true, decide_eq_true_eq] at hb
    omega
  · exact hs
  · cases op <;> exact absurd hb (by decide)

end Text

theorem tokenize_append_spaces (t : Text) {s : Text} (hs : s.IsSpaces) :
    tokenize (t ++ s) = tokenize t := by
  have hdigit : s.startsWithDigit = false := (Grammar.Continues.last hs).not_startsWithDigit
  have hcut : ¬(t.endsWithDigit = true ∧ s.startsWithDigit = true) := by
    rw [hdigit]
    rintro ⟨-, h⟩
    cases h
  rw [tokenize_append hcut, tokenize_eq_nil_iff.mpr hs, List.append_nil]

theorem tokenize_trimmed {l : Text} (h : ∀ c ∈ l, isLegal c = true) :
    tokenize l.trimmed = tokenize l := by
  obtain ⟨s, s', hl, hs, hs'⟩ := Text.exists_trimmedBy Text.isBlank l
  have hspaces : ∀ u : Text, (∀ c ∈ u, Text.isBlank c = true) → (∀ c ∈ u, c ∈ l) → u.IsSpaces :=
    fun u hu hmem c hc => Text.eq_space_of_isBlank (hu c hc) (h c (hmem c hc))
  have hfront : s.IsSpaces := hspaces s hs fun c hc => by
    rw [hl]
    exact List.mem_append_left _ hc
  have hback : s'.IsSpaces := hspaces s' hs' fun c hc => by
    rw [hl]
    exact List.mem_append_right _ (List.mem_append_right _ hc)
  conv_rhs => rw [hl, tokenize_spaces_append hfront, tokenize_append_spaces _ hback]
  rfl

/-- Trimming leaves a text the value that it has. -/
theorem calculate_trimmed {l : Text} {v : Int} (h : calculate (some l) = .ok v) :
    calculate (some l.trimmed) = .ok v := by
  obtain ⟨d, steps, ⟨hder, hd, hsteps⟩, hfold, hlt⟩ := readable_of_ok h
  obtain ⟨-, -, hlegal⟩ := checkCharacters_eq_ok_iff.mp hder.checkCharacters_eq
  have hder' : Grammar.Derives l.trimmed d steps := by
    rw [Grammar.derives_iff, tokenize_trimmed hlegal]
    exact Grammar.derives_iff.mp hder
  rw [calculate_of_readable ⟨hder', hd, hsteps⟩, hfold]
  exact checkResult_eq_ok_iff.mpr ⟨rfl, hlt⟩

theorem hasContent_of_ok {l : Text} {v : Int} (h : calculate (some l) = .ok v) :
    l.hasContent = true := by
  refine Text.trimmed_ne_nil_iff.mp fun hnil => ?_
  have hv := calculate_trimmed h
  rw [hnil] at hv
  cases hv

/-! ## The number of a line -/

/-- The number of a line among those with content, by the lines in front of it. -/
def Text.numberAfter (before : List Text) : Nat := (before.filter hasContent).length + 1

theorem Text.contentLines_split {t l : Text} {before after : List Text}
    (h : lines t = before ++ l :: after) (hl : l.hasContent = true) :
    contentLines t = (before.filter hasContent).map trimmed
      ++ l.trimmed :: (after.filter hasContent).map trimmed := by
  rw [contentLines_eq, h, List.filter_append, List.filter_cons_of_pos hl, List.map_append,
    List.map_cons]

namespace Batch

theorem exists_job_after (e : Text) (es' : List Text) : ∀ (es : List Text) (k : Nat),
    ∃ j ∈ jobsAfter k (es ++ e :: es'), j.line.val = k + es.length + 1 ∧ j.expression = e
  | [], k => ⟨_, List.mem_cons_self .., rfl, rfl⟩
  | e' :: es, k => by
      obtain ⟨j, hj, hline, he⟩ := exists_job_after e es' es (k + 1)
      refine ⟨j, List.mem_cons_of_mem _ hj, ?_, he⟩
      rw [hline, List.length_cons]
      omega

/-- The job of a line has the number of the line among those with content. -/
theorem exists_job_of_line {t l : Text} {before after : List Text}
    (h : Text.lines t = before ++ l :: after) (hl : l.hasContent = true) :
    ∃ j ∈ jobs (Text.contentLines t),
      j.line.val = Text.numberAfter before ∧ j.expression = l.trimmed := by
  rw [Text.contentLines_split h hl]
  obtain ⟨j, hj, hline, he⟩ := exists_job_after l.trimmed
    ((after.filter Text.hasContent).map Text.trimmed)
    ((before.filter Text.hasContent).map Text.trimmed) 0
  refine ⟨j, hj, ?_, he⟩
  rw [hline, List.length_map, Text.numberAfter, Nat.zero_add]

/-! ## The outcome of a line -/

/-- One outcome has the number, and it is the value, without an error. -/
def Delivers (os : List Outcome) (n : Nat) (v : Int) : Prop :=
  ∃ o ∈ os, o.line.val = n ∧ o.result? = some v ∧ o.error? = none ∧ o.kind = none
    ∧ ∀ p ∈ os, p.line.val = n → p = o

theorem delivers_of_perm {es : List Text} {os : List Outcome} {ending : Job → Ending}
    (h : os.Perm ((jobs es).map fun j => outcomeOf j (ending j))) {j : Job} (hj : j ∈ jobs es)
    (hcrash : ∀ code, ending j ≠ .crashed code) {v : Int}
    (hv : calculate (some j.expression) = .ok v) : Delivers os j.line.val v := by
  have hmem := evaluate_mem h hj hcrash
  have heval : j.evaluate = j.succeed v := by rw [Job.evaluate_eq, hv]
  refine ⟨j.evaluate, hmem, by rw [line_evaluate], ?_, ?_, ?_, fun p hp hline => ?_⟩
  · rw [heval]
    rfl
  · rw [heval]
    rfl
  · rw [heval]
    rfl
  · obtain ⟨k, hk, rfl⟩ := List.mem_map.mp (h.subset hp)
    rw [line_outcomeOf] at hline
    obtain rfl := eq_of_line_eq hk hj hline
    cases he : ending k with
    | delivered => rfl
    | crashed code => exact absurd he (hcrash code)

theorem expressions_of_bytes {host : Host} {fs : Files} {p : Path} {bytes : Bytes} {t : Text}
    (hbytes : Source.bytes host fs p = .ok bytes) (ht : Utf8.decode bytes = .ok t) :
    Source.expressions host fs p = .ok (Text.contentLines t) := by
  have htext : Source.text host fs p = .ok (Text.withLineFeeds t) := by
    rw [Source.text_of_bytes hbytes, Source.decoded, ht]
  rw [Source.expressions, htext]
  exact congrArg Except.ok (Text.contentLines_withLineFeeds t)

/-- **A batch answers as a calculation does.** Take any line of the text that the input
file holds, as it stands there, blanks and all. If it has a value by itself, then every
run that returns its outcomes, and finds no worker of that line crashed, returns exactly
one with the number of the line among those with content: the value, and no error. And
if the results file can be opened and every worker ends at some time without a crash, a
run does return its outcomes. -/
theorem run_delivers {b : Batch} {host : Host} {fs : Files} {bytes : Bytes} {t l : Text}
    {before after : List Text} {v : Int} (hbytes : Source.bytes host fs b.input = .ok bytes)
    (ht : Utf8.decode bytes = .ok t) (hl : Text.lines t = before ++ l :: after)
    (hv : calculate (some l) = .ok v) :
    (∀ (schedule : List Job → Schedule) (os : List Outcome),
        (b.run host fs schedule).result = .ok os →
        (∀ j code, j.line.val = Text.numberAfter before → (j, .crashed code) ∉
          b.visits host.processors (schedule (jobs (Text.contentLines t)))
            (Text.contentLines t)) →
        Delivers os (Text.numberAfter before) v)
      ∧ ∀ place, fs.target b.output = .ok place → 0 < host.processors →
          (∀ w, b.workers = some w → 0 < w) →
          ∀ arrivals : Arrivals, arrivals.Fair → (∀ m j code, arrivals m j ≠ .crashed code) →
            ∃ n os, (b.run host fs fun _ => arrivals.first n).result = .ok os
              ∧ Delivers os (Text.numberAfter before) v := by
  have hes := expressions_of_bytes hbytes ht
  have hdeliver : ∀ (schedule : List Job → Schedule) (os : List Outcome),
      (b.run host fs schedule).result = .ok os →
      (∀ j code, j.line.val = Text.numberAfter before → (j, .crashed code) ∉
        b.visits host.processors (schedule (jobs (Text.contentLines t)))
          (Text.contentLines t)) →
      Delivers os (Text.numberAfter before) v := by
    intro schedule os hos hcrash
    obtain ⟨rfl, hperm⟩ := outcomes_of_run hes hos
    obtain ⟨ending, hout, hfound⟩ := exists_ending hperm
    obtain ⟨j, hj, hline, he⟩ := exists_job_of_line hl (hasContent_of_ok hv)
    rw [← hline]
    refine delivers_of_perm hout hj (fun code hc => ?_) (by rw [he]; exact calculate_trimmed hv)
    refine hcrash j code hline ((hfound j hj (.crashed code) fun h => by cases h).mpr ?_)
    rw [hc]
    rfl
  refine ⟨hdeliver, fun place hplace hp hw arrivals hfair hcrash => ?_⟩
  obtain ⟨n, hcomplete⟩ := process_of_fair hp hw (Text.contentLines t) hfair
  obtain ⟨os, hos⟩ :=
    exists_outcomes_of_complete (fun _ => arrivals.first n) hes hplace hcomplete
  refine ⟨n, os, hos, hdeliver _ _ hos fun j code _ hmem => ?_⟩
  obtain ⟨arrival, harrival, hj⟩ := State.exists_arrival_of_visit hmem
  obtain ⟨m, -, rfl⟩ := List.mem_map.mp harrival
  exact hcrash m j code hj

/-- Line ends of two characters, and a line with nothing but wide spaces. -/
def spacedText : Text := "9 / 0\r\n\u3000\r\n  2 * 3 \r\n4 - 5".toList

def spacedFiles : Files where
  entries := [(["in.txt".toList], .file (Utf8.encode spacedText))]

/-- The worker of the first line is killed; the others deliver after it. -/
def spacedSchedule (_ : List Job) : Schedule :=
  [fun j => if j.line.val = 1 then .crashed (-9) else .running, fun _ => .delivered]

/-- The third line is the second with content. -/
theorem run_delivers_sample :
    calculate (some "  2 * 3 ".toList) = .ok 6
      ∧ ∃ os, (sample.run sampleHost spacedFiles spacedSchedule).result = .ok os
        ∧ Delivers os 2 6 := by
  have hbytes : Source.bytes sampleHost spacedFiles sample.input
      = .ok (Utf8.encode spacedText) := by decide +kernel
  have hl : Text.lines spacedText
      = ["9 / 0".toList, "\u3000".toList] ++ "  2 * 3 ".toList :: ["4 - 5".toList] := by decide
  have hv : calculate (some "  2 * 3 ".toList) = .ok 6 := by decide +kernel
  obtain ⟨os, hos⟩ : ∃ os, (sample.run sampleHost spacedFiles spacedSchedule).result = .ok os :=
    exists_ok_of_isSome (by decide +kernel)
  obtain ⟨hdeliver, -⟩ := run_delivers hbytes (Utf8.decode_encode _) hl hv
  refine ⟨hv, os, hos, hdeliver _ _ hos fun j code hline hmem => ?_⟩
  have htwo : j.line.val = 2 := hline
  obtain ⟨arrival, harrival, hj⟩ := State.exists_arrival_of_visit hmem
  rcases List.mem_cons.mp harrival with rfl | harrival
  · have hone : ¬j.line.val = 1 := by omega
    simp only [if_neg hone, reduceCtorEq] at hj
  · obtain rfl := List.mem_singleton.mp harrival
    cases hj

end Batch

end Reckon
