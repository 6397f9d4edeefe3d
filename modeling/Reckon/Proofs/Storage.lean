import Mathlib.Data.List.Basic
import Reckon.Proofs.Unpacking
import Reckon.Proofs.Window

/-!
# What a run does to the files

A run reads before it writes, and before it starts a worker. So a run that cannot read its
expressions, or cannot open its results file, leaves the files as they are and starts
nothing; and any other run changes the files at one place, the location of its results
(`Files.entry?_put_of_ne`).

What a run returns goes back to the expressions alone, and from there on the outcomes are
told by how the worker of each job ends (`perm_of_same_crashes`). The expressions go back
to the input file, with one exception: if the input is an archive whose text has a name that
leads out of it, then another file is read in its place (`outside_file_decides`).
-/

namespace Reckon

namespace Batch

/-! ## What a run returns -/

theorem exists_open_of_run {b : Batch} {host : Host} {fs : Files}
    {schedule : List Job → Schedule} {os : List Outcome}
    (hos : (b.run host fs schedule).result = .ok os) :
    ∃ es l, Source.expressions host fs b.input = .ok es ∧ fs.target b.output = .ok l := by
  rw [run_eq] at hos
  split at hos
  case h_1 => cases hos
  case h_2 es hes =>
    split at hos
    case h_1 => cases hos
    case h_2 l hl => exact ⟨es, l, hes, hl⟩

/-- The outcomes of a run are those of the endings that its visits find, and every job
has one of them. -/
theorem outcomes_of_run {b : Batch} {host : Host} {fs : Files}
    {schedule : List Job → Schedule} {es : List Text} {os : List Outcome}
    (hes : Source.expressions host fs b.input = .ok es)
    (hos : (b.run host fs schedule).result = .ok os) :
    os = outcomesOf (endingsIn (b.visits host.processors (schedule (jobs es)) es))
      ∧ (jobs es).Perm
          ((endingsIn (b.visits host.processors (schedule (jobs es)) es)).map Prod.fst) := by
  obtain ⟨-, l, -, hl⟩ := exists_open_of_run hos
  obtain ⟨s, hs, hc, rfl, -⟩ := exists_complete_of_run hes hl hos
  obtain ⟨s', hs', hout, -, hperm⟩ := process_eq_ok b host.processors (schedule (jobs es)) es
  rw [hs] at hs'
  obtain rfl := Except.ok.inj hs'
  rw [State.left_eq_nil hc, List.append_nil] at hperm
  exact ⟨hout, hperm⟩

/-- The outcomes of the jobs of a batch are told by which of their workers crash. -/
theorem perm_of_same_crashes {es : List Text} {vs ws : List (Job × Arrival)}
    (hv : (jobs es).Perm ((endingsIn vs).map Prod.fst))
    (hw : (jobs es).Perm ((endingsIn ws).map Prod.fst))
    (h : ∀ j code, (j, .crashed code) ∈ ws ↔ (j, .crashed code) ∈ vs) :
    (outcomesOf (endingsIn ws)).Perm (outcomesOf (endingsIn vs)) := by
  obtain ⟨ending, hout, hfound⟩ := exists_ending hv
  obtain ⟨ending', hout', hfound'⟩ := exists_ending hw
  have hsame : ∀ j ∈ jobs es, ending' j = ending j := by
    intro j hj
    have hcrashed : ∀ code, ending' j = .crashed code ↔ ending j = .crashed code := by
      intro code
      have hv' := hfound j hj (.crashed code) (fun hr => by cases hr)
      have hw' := hfound' j hj (.crashed code) (fun hr => by cases hr)
      have harrival : ∀ e : Ending, Arrival.crashed code = e.arrival ↔ e = .crashed code := by
        intro e
        cases e <;> simp [Ending.arrival, eq_comm]
      rw [← harrival, ← harrival, ← hv', ← hw']
      exact h j code
    cases he : ending j with
    | crashed code => exact (hcrashed code).mpr he
    | delivered =>
        cases he' : ending' j with
        | delivered => rfl
        | crashed code =>
            rw [(hcrashed code).mp he'] at he
            cases he
  have hmap : (jobs es).map (fun j => outcomeOf j (ending' j))
      = (jobs es).map fun j => outcomeOf j (ending j) :=
    List.map_congr_left fun j hj => by rw [hsame j hj]
  rw [hmap] at hout'
  exact hout'.trans hout.symm

/-- A run that returns outcomes has started a worker for each of its jobs. -/
theorem started_of_run {b : Batch} {host : Host} {fs : Files} {schedule : List Job → Schedule}
    {es : List Text} {os : List Outcome} (hes : Source.expressions host fs b.input = .ok es)
    (hos : (b.run host fs schedule).result = .ok os) :
    (b.run host fs schedule).started = jobs es := by
  obtain ⟨-, l, -, hl⟩ := exists_open_of_run hos
  obtain ⟨s, hs, hc, -, -⟩ := exists_complete_of_run hes hl hos
  simp only [run_eq, hes, hl, writeResults, hs, if_pos hc]
  exact started_of_process hs hc

/-- **A run reads before it writes.** If the expressions cannot be read, or the results
file cannot be opened, the run ends there, whatever the schedule: it changes no file and
starts no worker. Otherwise nothing is changed at any location but that of the results
file, and a worker has been started for each expression by the time outcomes are returned.
And the outcomes go back to the bytes of the input file before the run, unless it is an
archive whose text has a name that leads out of it: another run from the same bytes under
the same path, into any results file, the input file included, with any limit, any other
files and any schedule by which the same workers crash, returns the same outcomes in some
order. -/
theorem run_reads_first (b : Batch) (host : Host) (fs : Files)
    (schedule : List Job → Schedule) :
    (∀ f, Source.expressions host fs b.input = .error f →
        b.run host fs schedule = ⟨fs, [], [], .error (.source f)⟩)
      ∧ (∀ es f, Source.expressions host fs b.input = .ok es → fs.target b.output = .error f →
          b.run host fs schedule
            = ⟨fs, [], [b.loadedEntry es.length], .error (.output f b.output)⟩)
      ∧ (∀ es l, Source.expressions host fs b.input = .ok es → fs.target b.output = .ok l →
          (∀ k, k ≠ l → Files.entry? (b.run host fs schedule).files k = fs.entry? k)
            ∧ (∃ t, Files.entry? (b.run host fs schedule).files l
                = some (.file (Utf8.encode t)))
            ∧ ∀ os, (b.run host fs schedule).result = .ok os →
                (b.run host fs schedule).started = jobs es)
      ∧ ∀ bytes es os, fs.read b.input = .ok bytes →
          Source.Inward host.library b.input bytes →
          Source.expressions host fs b.input = .ok es →
          (b.run host fs schedule).result = .ok os →
          ∀ (b' : Batch) (host' : Host) (fs' : Files) (schedule' : List Job → Schedule)
            (os' : List Outcome), b'.input = b.input → host'.library = host.library →
            fs'.read b.input = .ok bytes → (b'.run host' fs' schedule').result = .ok os' →
            (∀ j code, (j, .crashed code) ∈ b'.visits host'.processors (schedule' (jobs es)) es
              ↔ (j, .crashed code) ∈ b.visits host.processors (schedule (jobs es)) es) →
            os'.Perm os := by
  refine ⟨fun f hf => ?_, fun es f hes hf => ?_, fun es l hes hl => ?_, ?_⟩
  · simp only [run_eq, hf]
  · simp only [run_eq, hes, hf]
  · obtain ⟨s, -, hfiles, -⟩ := run_of_open schedule hes hl
    have hw : fs.Writable l := (Files.writable_of_target hl).2
    refine ⟨fun k hk => ?_, ⟨s.written, ?_⟩, fun os hos => started_of_run hes hos⟩
    · rw [hfiles]
      exact Files.entry?_put_of_ne hw hk
    · rw [hfiles]
      exact Files.entry?_put_self hw.not_given
  · intro bytes es os hread hinward hes hos b' host' fs' schedule' os' hinput hlibrary hread' hos'
      hcrashes
    obtain ⟨es', -, hes', -⟩ := exists_open_of_run hos'
    have hsame : es' = es := by
      rw [hinput] at hes'
      exact Source.expressions_unique hlibrary hread hread' hinward hes hes'
    subst hsame
    obtain ⟨rfl, hperm⟩ := outcomes_of_run hes hos
    obtain ⟨rfl, hperm'⟩ := outcomes_of_run hes' hos'
    exact perm_of_same_crashes hperm hperm' hcrashes

theorem exists_ok_of_isSome {α ε : Type} {x : Except ε α} (h : x.toOption.isSome = true) :
    ∃ a, x = .ok a := by
  cases x with
  | error f => cases h
  | ok a => exact ⟨a, rfl⟩

/-- The batch whose results file is its input file. -/
def overwriting : Batch := { sample with output := sample.input }

/-- A file that is no archive by its content, beside old results. -/
def brokenFiles : Files where
  entries := [(["in.zip".toList], .file [0x6E, 0x6F]),
    (["out.txt".toList], .file (Utf8.encode "1 = 1\n".toList))]

/-- Old results outlive an archive that cannot be opened, and a batch that overwrites its
input has the outcomes it would have had beside it. -/
theorem run_reads_first_sample :
    ({ sample with input := Path.ofText "in.zip".toList : Batch }.run sampleHost brokenFiles
        sampleSchedule).files = brokenFiles
      ∧ ∃ os os', (sample.run sampleHost sampleFiles sampleSchedule).result = .ok os
          ∧ (overwriting.run sampleHost sampleFiles sampleSchedule).result = .ok os'
          ∧ os'.Perm os := by
  constructor
  · have hbroken : Source.expressions sampleHost brokenFiles (Path.ofText "in.zip".toList)
        = .error (.library (Archive.notArchive .zip)) := by decide
    obtain ⟨hunread, -⟩ := run_reads_first { sample with input := Path.ofText "in.zip".toList }
      sampleHost brokenFiles sampleSchedule
    rw [hunread _ hbroken]
  · have hes : Source.expressions sampleHost sampleFiles sample.input = .ok sampleLines := by decide
    obtain ⟨os, hos⟩ : ∃ os, (sample.run sampleHost sampleFiles sampleSchedule).result = .ok os :=
      exists_ok_of_isSome (by decide +kernel)
    obtain ⟨os', hos'⟩ :
        ∃ os, (overwriting.run sampleHost sampleFiles sampleSchedule).result = .ok os :=
      exists_ok_of_isSome (by decide +kernel)
    have hread : sampleFiles.read sample.input
        = .ok (Utf8.encode "1 / 0\n\n2 * 3\n4 - 5\n".toList) := rfl
    have hinward : Source.Inward sampleHost.library sample.input
        (Utf8.encode "1 / 0\n\n2 * 3\n4 - 5\n".toList) := fun format archive name hformat =>
      absurd rfl (Source.suffix_ne_of_format? hformat)
    obtain ⟨-, -, -, hsame⟩ := run_reads_first sample sampleHost sampleFiles sampleSchedule
    exact ⟨os, os', hos, hos', hsame _ _ _ hread hinward hes hos overwriting sampleHost sampleFiles
      sampleSchedule os' rfl rfl hread hos' fun _ _ => Iff.rfl⟩

/-! ### An archive whose text has an absolute name -/

theorem exists_ok_of_map {α β ε : Type} {x : Except ε α} {f : α → β} {b : β}
    (h : x.map f = .ok b) : ∃ a, x = .ok a ∧ f a = b := by
  cases x with
  | error e => cases h
  | ok a => exact ⟨a, rfl, Except.ok.inj h⟩

/-- The archive holds one file, which is unpacked without the slash in front of its name. -/
def absoluteArchive : Archive.Opened where
  listing := [⟨"/other.txt".toList, true⟩]
  unpack _ := .ok [⟨["other.txt".toList], Utf8.encode "1 + 1".toList, by decide⟩]

/-- A host with a library that knows the one archive. -/
def absoluteHost : Host where
  processors := 8
  library format b :=
    if format = .zip ∧ b = [0x50, 0x4B] then .ok absoluteArchive
    else .error (Archive.notArchive format)
  scratch := Path.ofText "/unpacked".toList
  refusal? _ _ := none

/-- The archive, and a file with one line in the root directory. -/
def absoluteFiles (line : Text) : Files where
  entries := [(["in.zip".toList], .file [0x50, 0x4B]),
    ([['/'], "other.txt".toList], .file (Utf8.encode line))]

/-- A batch over the archive. -/
def absolute : Batch := { sample with input := Path.ofText "in.zip".toList }

/-- What an archive holds does not decide the outcomes, if its text has an absolute name:
two runs from the same file return different outcomes, and neither is about the line in the
archive. What decides is another file, under that name. -/
theorem outside_file_decides :
    (absoluteFiles "2 + 2".toList).read absolute.input
        = (absoluteFiles "3 * 3".toList).read absolute.input
      ∧ ∃ os os', (absolute.run absoluteHost (absoluteFiles "2 + 2".toList)
            Schedule.inOrder).result = .ok os
          ∧ (absolute.run absoluteHost (absoluteFiles "3 * 3".toList)
            Schedule.inOrder).result = .ok os'
          ∧ os.map Outcome.toLine = ["2 + 2 = 4".toList]
          ∧ os'.map Outcome.toLine = ["3 * 3 = 9".toList]
          ∧ ¬os'.Perm os := by
  have htwo : (absolute.run absoluteHost (absoluteFiles "2 + 2".toList)
      Schedule.inOrder).result.map (List.map Outcome.toLine) = .ok ["2 + 2 = 4".toList] := by
    decide +kernel
  have hthree : (absolute.run absoluteHost (absoluteFiles "3 * 3".toList)
      Schedule.inOrder).result.map (List.map Outcome.toLine) = .ok ["3 * 3 = 9".toList] := by
    decide +kernel
  obtain ⟨os, hos, hlines⟩ := exists_ok_of_map htwo
  obtain ⟨os', hos', hlines'⟩ := exists_ok_of_map hthree
  refine ⟨rfl, os, os', hos, hos', hlines, hlines', fun hperm => ?_⟩
  have hmapped := hperm.map Outcome.toLine
  rw [hlines, hlines'] at hmapped
  exact absurd (List.perm_singleton.mp hmapped) (by decide)

end Batch

end Reckon
