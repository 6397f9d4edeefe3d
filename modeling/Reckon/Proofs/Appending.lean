import Reckon.Proofs.ContentLines

/-!
# Lines added to a batch file

A batch file may grow at its end. Behind a line feed the new text is read by itself, and so
is the old one in front of it, whatever it ends with: if that is a carriage return, the two
make one boundary instead of two, and nothing is lost but an empty line
(`Text.contentLines_append_boundary`).

The numbers follow from the expressions. The jobs of the longer list are the jobs of the old
one and those of the new one with their numbers moved up (`jobs_append`), and the outcomes of
a run have the numbers and the expressions of its jobs (`numbered_of_run`).
-/

namespace Reckon

/-- The text is what the bytes under a path stand for. -/
def Source.Holds (host : Host) (fs : Files) (p : Path) (t : Text) : Prop :=
  ∃ bytes, Source.bytes host fs p = .ok bytes ∧ Utf8.decode bytes = .ok t

theorem Source.Holds.expressions_eq {host : Host} {fs : Files} {p : Path} {t : Text}
    (h : Holds host fs p t) : expressions host fs p = .ok (Text.contentLines t) := by
  obtain ⟨bytes, hbytes, ht⟩ := h
  exact Batch.expressions_of_bytes hbytes ht

/-- The job of the same expression so many lines further down. -/
def Job.moved (n : Nat) (j : Job) : Job :=
  ⟨⟨n + j.line.val, Nat.add_pos_right n j.line.property⟩, j.expression⟩

namespace Batch

/-! ## Jobs -/

theorem jobsAfter_add (n : Nat) : ∀ (k : Nat) (es : List Text),
    jobsAfter (n + k) es = (jobsAfter k es).map (Job.moved n)
  | _, [] => rfl
  | k, e :: es => by
      rw [jobsAfter, jobsAfter, List.map_cons, ← jobsAfter_add n (k + 1) es]
      rfl

theorem jobsAfter_append (es₂ : List Text) : ∀ (k : Nat) (es₁ : List Text),
    jobsAfter k (es₁ ++ es₂) = jobsAfter k es₁ ++ jobsAfter (es₁.length + k) es₂
  | k, [] => by rw [List.nil_append, jobsAfter, List.nil_append, List.length_nil, Nat.zero_add]
  | k, e :: es₁ => by
      rw [List.cons_append, jobsAfter, jobsAfter_append es₂ (k + 1) es₁, jobsAfter,
        List.cons_append, List.length_cons, Nat.add_right_comm, Nat.add_assoc]

/-- The jobs of earlier lines stay, and those of later lines move up by the number of the
earlier ones. -/
theorem jobs_append (es₁ es₂ : List Text) :
    jobs (es₁ ++ es₂) = jobs es₁ ++ (jobs es₂).map (Job.moved es₁.length) := by
  rw [jobs, jobsAfter_append, jobsAfter_add]
  rfl

/-! ## Outcomes -/

/-- The numbers of the outcomes, with the expressions that they are about. -/
def numbered (os : List Outcome) : List (Nat × Text) :=
  os.map fun o => (o.line.val, o.expression)

/-- The numbers of the jobs, with their expressions. -/
def numberedJobs (js : List Job) : List (Nat × Text) :=
  js.map fun j => (j.line.val, j.expression)

theorem numberedJobs_append (js ks : List Job) :
    numberedJobs (js ++ ks) = numberedJobs js ++ numberedJobs ks := List.map_append

theorem numberedJobs_moved (n : Nat) (js : List Job) :
    numberedJobs (js.map (Job.moved n)) = (numberedJobs js).map (Prod.map (n + ·) id) := by
  rw [numberedJobs, numberedJobs, List.map_map, List.map_map]
  rfl

theorem numbered_of_run {b : Batch} {host : Host} {fs : Files}
    {schedule : List Job → Schedule} {es : List Text} {os : List Outcome}
    (hes : Source.expressions host fs b.input = .ok es)
    (hos : (b.run host fs schedule).result = .ok os) :
    (numbered os).Perm (numberedJobs (jobs es)) := by
  obtain ⟨rfl, hperm⟩ := outcomes_of_run hes hos
  obtain ⟨ending, hout, -⟩ := exists_ending hperm
  have hmap : numbered ((jobs es).map fun j => outcomeOf j (ending j))
      = numberedJobs (jobs es) := by
    rw [numbered, numberedJobs, List.map_map]
    refine List.map_congr_left fun j _ => ?_
    rw [Function.comp_apply, line_outcomeOf, expression_outcomeOf]
  rw [← hmap]
  exact hout.map _

/-- **Added lines leave the earlier ones alone.** Take a batch file with a line feed
somewhere in it, and two files with what is in front of the line feed and what is behind it.
The expressions of the first are those of the second and then those of the third, whatever
the front part ends with. Every run from the file that returns its outcomes has, for the
expressions in front, the numbers that a run from the front part gives them, and for those
behind the numbers from the part behind and on top of them the number of lines in front that
hold more than blanks. -/
theorem expressions_append {b b₁ b₂ : Batch} {host host₁ host₂ : Host}
    {fs fs₁ fs₂ : Files} {t₁ t₂ : Text}
    (h : Source.Holds host fs b.input (t₁ ++ '\n' :: t₂))
    (h₁ : Source.Holds host₁ fs₁ b₁.input t₁) (h₂ : Source.Holds host₂ fs₂ b₂.input t₂) :
    ∃ es₁ es₂, Source.expressions host₁ fs₁ b₁.input = .ok es₁
      ∧ Source.expressions host₂ fs₂ b₂.input = .ok es₂
      ∧ Source.expressions host fs b.input = .ok (es₁ ++ es₂)
      ∧ es₁.length = ((Text.lines t₁).filter Text.hasContent).length
      ∧ jobs (es₁ ++ es₂) = jobs es₁ ++ (jobs es₂).map (Job.moved es₁.length)
      ∧ ∀ (schedule schedule₁ schedule₂ : List Job → Schedule) (os os₁ os₂ : List Outcome),
          (b.run host fs schedule).result = .ok os →
          (b₁.run host₁ fs₁ schedule₁).result = .ok os₁ →
          (b₂.run host₂ fs₂ schedule₂).result = .ok os₂ →
          (numbered os).Perm
            (numbered os₁ ++ (numbered os₂).map (Prod.map (es₁.length + ·) id)) := by
  have hes := h.expressions_eq
  rw [Text.contentLines_append_boundary (by decide)] at hes
  refine ⟨_, _, h₁.expressions_eq, h₂.expressions_eq, hes, ?_, jobs_append _ _, ?_⟩
  · rw [Text.contentLines_eq, List.length_map]
  · intro schedule schedule₁ schedule₂ os os₁ os₂ hos hos₁ hos₂
    have hperm := numbered_of_run hes hos
    rw [jobs_append, numberedJobs_append, numberedJobs_moved] at hperm
    have hfront := numbered_of_run h₁.expressions_eq hos₁
    have hbehind := (numbered_of_run h₂.expressions_eq hos₂).map
      (Prod.map ((Text.contentLines t₁).length + ·) id)
    exact hperm.trans (hfront.append hbehind).symm

/-- The files with a text in the place of the input. -/
def filesOf (t : Text) : Files where
  entries := [(["in.txt".toList], .file (Utf8.encode t))]

/-- A list whose last line is a wide space and whose last line end is a carriage return. -/
def grownText : Text := "1 / 0\r\u3000\r".toList

/-- Lines to add, the first of them blank. -/
def addedText : Text := " \n2 * 3\n4 - 5".toList

/-- The first pass finds the last worker gone, the second finds all others. -/
def grownSchedule (js : List Job) : Schedule :=
  [fun j => if j.line.val = js.length then .delivered else .running, fun _ => .delivered,
    fun _ => .delivered]

/-- The two lines that are added have the numbers 2 and 3. -/
theorem expressions_append_sample :
    ∃ os, (sample.run sampleHost (filesOf (grownText ++ '\n' :: addedText))
        grownSchedule).result = .ok os
      ∧ (numbered os).Perm [(1, "1 / 0".toList), (2, "2 * 3".toList), (3, "4 - 5".toList)] := by
  have hholds : ∀ t : Text, Source.Holds sampleHost (filesOf t) sample.input t := fun t =>
    ⟨_, rfl, Utf8.decode_encode t⟩
  obtain ⟨es₁, es₂, hes₁, hes₂, -, -, -, hnumbers⟩ :=
    expressions_append (hholds (grownText ++ '\n' :: addedText)) (hholds grownText)
      (hholds addedText)
  obtain ⟨os, hos⟩ : ∃ os, (sample.run sampleHost (filesOf (grownText ++ '\n' :: addedText))
      grownSchedule).result = .ok os := exists_ok_of_isSome (by decide +kernel)
  obtain ⟨os₁, hos₁⟩ : ∃ os,
      (sample.run sampleHost (filesOf grownText) grownSchedule).result = .ok os :=
    exists_ok_of_isSome (by decide +kernel)
  obtain ⟨os₂, hos₂⟩ : ∃ os,
      (sample.run sampleHost (filesOf addedText) grownSchedule).result = .ok os :=
    exists_ok_of_isSome (by decide +kernel)
  have hfront : Source.expressions sampleHost (filesOf grownText) sample.input
      = .ok ["1 / 0".toList] := by decide +kernel
  have hbehind : Source.expressions sampleHost (filesOf addedText) sample.input
      = .ok ["2 * 3".toList, "4 - 5".toList] := by decide +kernel
  obtain rfl := Except.ok.inj (hes₁.symm.trans hfront)
  obtain rfl := Except.ok.inj (hes₂.symm.trans hbehind)
  refine ⟨os, hos, (hnumbers _ _ _ os os₁ os₂ hos hos₁ hos₂).trans ?_⟩
  exact (numbered_of_run hes₁ hos₁).append ((numbered_of_run hes₂ hos₂).map _)

end Batch

end Reckon
