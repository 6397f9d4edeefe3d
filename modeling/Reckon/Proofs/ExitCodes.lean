import Reckon.CommandLine.Run
import Reckon.Proofs.Completion
import Reckon.Proofs.Reading
import Reckon.Proofs.Storage

/-!
# How the program ends on a file

A request for a file comes down to two questions, whether the expressions can be read and
whether the results file can be opened. Once both are answered with yes, nothing can go
wrong in the batch any more: no record of a worker stops a pass, and every worker ends at
some time (`Batch.process_of_fair`). So there is something to print in the end, the path of
the results or an error (`Says`), and the stream for it may still refuse the text.

There is one kind of failure that the program does not expect: an archive library raises an
exception that is neither a value error nor an error of the operating system, when it opens
the file or when it unpacks the text (`Unopenable`). Such an exception goes past the
program, although every other fault of the input is reported.
-/

namespace Reckon

/-! ## Accepted requests -/

theorem Checked.both_eq_ok {α β : Type} {x : Checked α} {y : Checked β} {a : α} {b : β}
    (h : x.both y = .ok (a, b)) : x = .ok a ∧ y = .ok b := by
  unfold both at h
  split at h
  case h_1 a' b' =>
    obtain ⟨rfl, rfl⟩ := Prod.mk.inj (Except.ok.inj h)
    exact ⟨rfl, rfl⟩
  all_goals cases h

theorem Record.exists_of_optional {α : Type} {r : Record} {name : Text} {reader : Reader α}
    {a : α} (h : r.optional name reader = .ok (some a)) : ∃ v, reader v = .ok a := by
  unfold optional at h
  split at h
  case h_1 => cases h
  case h_2 => cases h
  case h_3 v _ _ =>
    refine ⟨v, ?_⟩
    cases hv : reader v with
    | error fs =>
        rw [hv] at h
        cases h
    | ok a' =>
        rw [hv] at h
        obtain rfl := Option.some.inj (Except.ok.inj h)
        rfl

theorem Record.Reader.of_filePath {fs : Files} {v : Value} {p : Path}
    (h : filePath fs v = .ok p) : (∃ t, p = Path.ofText t) ∧ fs.isFile p = true := by
  unfold filePath at h
  split at h
  case h_2 => cases h
  case h_1 p' hp =>
    split at h
    case isFalse => cases h
    case isTrue hfile =>
      obtain rfl := Except.ok.inj h
      unfold path at hp
      split at hp
      case h_1 t => exact ⟨⟨t, (Except.ok.inj hp).symm⟩, hfile⟩
      case h_2 => cases hp

namespace CommandLine

theorem Request.of_fields {expression : Option Text} {file output output' : Option Path}
    {workers workers' : Option Nat} {input : Path}
    (h : ofFields expression file output workers = .ok (.file input output' workers')) :
    file = some input ∧ output = output' ∧ workers = workers' := by
  unfold ofFields at h
  split at h
  case h_1 => split at h <;> cases h
  case h_2 =>
    obtain ⟨rfl, rfl, rfl⟩ := Request.file.inj (Except.ok.inj h)
    exact ⟨rfl, rfl, rfl⟩
  case h_3 => cases h

/-- What an accepted request for a file says about its fields. -/
theorem Request.of_file {fs : Files} {r : Record} {input : Path} {output : Option Path}
    {workers : Option Nat} (h : ofRecord fs r = .ok (.file input output workers)) :
    (∃ t, input = Path.ofText t) ∧ fs.isFile input = true ∧ ∀ w, workers = some w → 0 < w := by
  unfold ofRecord Record.unobstructed at h
  split at h
  case h_1 => cases h
  case h_2 =>
    cases hc : checked fs r with
    | error faults =>
        rw [hc] at h
        cases h
    | ok request =>
        rw [hc] at h
        obtain rfl := Except.ok.inj h
        unfold checked at hc
        simp only at hc
        split at hc
        case h_2 => cases hc
        case h_1 expression file output' workers' hboth =>
          obtain ⟨rfl, -, rfl⟩ := Request.of_fields hc
          obtain ⟨-, hrest⟩ := Checked.both_eq_ok hboth
          obtain ⟨hfile, -⟩ := Checked.both_eq_ok hrest
          obtain ⟨v, hv⟩ := Record.exists_of_optional hfile
          obtain ⟨htext, hisFile⟩ := Record.Reader.of_filePath hv
          refine ⟨htext, hisFile, fun w hw => ?_⟩
          obtain ⟨n, -, rfl⟩ := Option.map_eq_some_iff.mp hw
          exact n.property

end CommandLine

theorem Files.find_of_isFile {fs : Files} {p : Path} (h : fs.isFile p = true) :
    ∃ b, fs.find p = .ok (.file b) := by
  unfold isFile at h
  split at h
  case h_1 b hfile => exact ⟨b, hfile⟩
  case h_2 => cases h

theorem Files.names_ne_nil_of_isFile {fs : Files} {p : Path} (h : fs.isFile p = true) :
    p.names ≠ [] := by
  intro hnames
  have hgiven : isGiven (start p) = true := by
    unfold start
    split <;> rfl
  have hdir : fs.entry? (start p) = some .directory := entry?_of_given hgiven
  unfold isFile find locate at h
  rw [hnames, walk] at h
  split_ifs at h
  simp [hdir] at h

/-- A file has a name, and so there is a path for its results beside it. -/
theorem Path.exists_results {fs : Files} {t : Text} (h : fs.isFile (ofText t) = true) :
    ∃ results, (ofText t).results? = some results := by
  have hnames := Files.names_ne_nil_of_isFile h
  have hlast := List.getLast_mem hnames
  have hname : (ofText t).name ≠ [] := by
    rw [name, List.getLast?_eq_some_getLast hnames, Option.getD_some]
    have hfilter := (List.mem_filter.mp hlast).2
    simp only [decide_eq_true_eq] at hfilter
    exact hfilter.1
  exact ⟨_, if_neg hname⟩

namespace CommandLine

/-! ## Exceptions that are not expected -/

/-- A library raises an exception on a file: it does not open it as an archive of the
format, or does not unpack the text of the archive. -/
inductive Raises (library : Archive.Library) (format : Archive.Format) (b : Bytes)
    (trouble : Trouble) : Prop where
  | opening (refused : library format b = .error trouble) : Raises library format b trouble
  | unpacking {archive : Archive.Opened} {name : Text} (opened : library format b = .ok archive)
      (named : Archive.firstText? (archive.names format) = some name)
      (refused : archive.unpack name = .error trouble) : Raises library format b trouble

/-- A library raises an exception that the program does not expect, on the input file as an
archive of the format that its name tells. -/
structure Unopenable (host : Host) (fs : Files) (input : Path) (trouble : Trouble) : Prop where
  unexpected : trouble.isExpected = false
  /-- There is a place for what is unpacked. -/
  place : ∃ made, fs.makeDirectory host.scratch = .ok made
  raises : ∃ format b, Source.format? input = some format ∧ fs.read input = .ok b
    ∧ Raises host.library format b trouble

theorem decoded_ne_library (b : Bytes) (trouble : Trouble) :
    Source.decoded b ≠ .error (.library trouble) := by
  rw [Source.decoded]
  cases Utf8.decode b <;> simp

theorem contentAt_ne_library (fs : Files) (p : Path) (trouble : Trouble) :
    Source.contentAt fs p ≠ .error (.library trouble) := by
  rw [Source.contentAt]
  cases fs.read p <;> simp

section

variable {host : Host} {fs : Files} {p : Path} {trouble : Trouble}

/-- Behind the bytes nothing is asked of a library. -/
theorem expressions_library_iff : Source.expressions host fs p = .error (.library trouble)
    ↔ Source.bytes host fs p = .error (.library trouble) := by
  rw [Source.expressions]
  cases hbytes : Source.bytes host fs p with
  | error f =>
      rw [Source.text_of_bytes_error hbytes]
      simp [Except.map]
  | ok b =>
      rw [Source.text_of_bytes hbytes]
      simp only [reduceCtorEq, iff_false]
      exact fun h => decoded_ne_library b trouble (eq_error_of_map h)

theorem opened_library_iff {format : Archive.Format} :
    Source.opened host fs p format = .error (.library trouble)
      ↔ ∃ b, fs.read p = .ok b ∧ host.library format b = .error trouble := by
  rw [Source.opened, Source.contentAt]
  cases fs.read p with
  | error f => simp [bind, Except.bind]
  | ok b =>
      simp only [bind, Except.bind, Except.ok.injEq, exists_eq_left']
      cases host.library format b <;> simp [Except.mapError]

theorem unpacked_library_iff {archive : Archive.Opened} {format : Archive.Format} :
    Source.unpacked archive format = .error (.library trouble)
      ↔ ∃ name, Archive.firstText? (archive.names format) = some name
        ∧ archive.unpack name = .error trouble := by
  rw [Source.unpacked]
  cases Archive.firstText? (archive.names format) with
  | none => simp
  | some name => cases h : archive.unpack name <;> simp [h]

/-- In the directory for it, an archive is read unless its library raises an exception. -/
theorem takeText_library_iff {made : Files} {l : Location} {format : Archive.Format} :
    (Source.takeText host made l p format).2 = .error (.library trouble)
      ↔ ∃ b, made.read p = .ok b ∧ Raises host.library format b trouble := by
  constructor
  · intro h
    unfold Source.takeText at h
    split at h
    case h_1 f hopened =>
      obtain rfl := Except.error.inj h
      obtain ⟨b, hread, hopen⟩ := opened_library_iff.mp hopened
      exact ⟨b, hread, .opening hopen⟩
    case h_2 archive hopened =>
      obtain ⟨b, hread, hopen⟩ := Source.opened_eq_ok_iff.mp hopened
      split at h
      case h_1 f hunpacked =>
        obtain rfl := Except.error.inj h
        obtain ⟨name, hname, hrefused⟩ := unpacked_library_iff.mp hunpacked
        exact ⟨b, hread, .unpacking hopen hname hrefused⟩
      case h_2 => exact absurd h (contentAt_ne_library _ _ trouble)
  · rintro ⟨b, hread, ⟨hopen⟩ | ⟨hopen, hname, hrefused⟩⟩
    · rw [Source.takeText, opened_library_iff.mpr ⟨b, hread, hopen⟩]
    · rw [Source.takeText, Source.opened_eq_ok_iff.mpr ⟨b, hread, hopen⟩]
      dsimp only
      rw [unpacked_library_iff.mpr ⟨_, hname, hrefused⟩]

/-- The expressions of a file are lost to a library exactly if there is a place for what is
unpacked and the library raises an exception on the file. -/
theorem library_iff (hfile : fs.isFile p = true) :
    Source.expressions host fs p = .error (.library trouble)
      ↔ (∃ made, fs.makeDirectory host.scratch = .ok made)
        ∧ ∃ format b, Source.format? p = some format ∧ fs.read p = .ok b
          ∧ Raises host.library format b trouble := by
  rw [expressions_library_iff]
  cases hformat : Source.format? p with
  | none =>
      simp only [reduceCtorEq, false_and, exists_false, and_false, iff_false]
      rw [Source.bytes, Source.load]
      split
      · exact contentAt_ne_library fs p trouble
      · simp [Source.format, hformat]
  | some format =>
      cases hmade : fs.makeDirectory host.scratch with
      | error f =>
          rw [Source.bytes_of_format hformat, Source.archiveBytes, hmade]
          simp
      | ok found =>
          obtain ⟨l, made⟩ := found
          obtain ⟨content, hcontent⟩ := Files.find_of_isFile hfile
          rw [Source.bytes_of_made hformat hmade, takeText_library_iff,
            Files.read_made hmade hcontent]
          simp

end

theorem unopenable_iff {host : Host} {fs : Files} {p : Path} {trouble : Trouble}
    (hfile : fs.isFile p = true) : Unopenable host fs p trouble
      ↔ Source.expressions host fs p = .error (.library trouble) ∧ trouble.isExpected = false := by
  rw [library_iff hfile]
  constructor
  · exact fun h => ⟨⟨h.place, h.raises⟩, h.unexpected⟩
  · rintro ⟨⟨hplace, hraises⟩, hunexpected⟩
    exact ⟨hunexpected, hplace, hraises⟩

/-! ## The ending of a batch -/

/-- What the program has to say about a batch in the end: the path of the results, or an
error. -/
inductive Says (host : Host) (fs : Files) (input results : Path) : Ending → Prop where
  | path {es : List Text} {l : Location} (read : Source.expressions host fs input = .ok es)
      (opened : fs.target results = .ok l) :
      Says host fs input results (.printed (results.text ++ ['\n']))
  | unread {f : Source.Fault} (fault : Source.expressions host fs input = .error f)
      (reported : ∀ trouble, f = .library trouble → trouble.isExpected = true) :
      Says host fs input results (.failed f.message)
  | unopened {es : List Text} {f : PathFault} (read : Source.expressions host fs input = .ok es)
      (fault : fs.target results = .error f) :
      Says host fs input results (.failed (f.message results))

/-- What goes past the program: an exception of a library that it does not expect, or one
that a stream raises on what there is to say. -/
inductive Escapes (host : Host) (fs : Files) (input results : Path) : Abort → Prop where
  | library {trouble : Trouble} (h : Unopenable host fs input trouble) :
      Escapes host fs input results (.library trouble)
  | stream {e : Ending} {trouble : Trouble} (said : Says host fs input results e)
      (refused : host.refusal? e.prints.1 e.prints.2 = some trouble) :
      Escapes host fs input results (.stream trouble)

/-- The ending that the files of a batch come to. -/
def endingOn (host : Host) (fs : Files) (input results : Path) : Ending :=
  match Source.expressions host fs input with
  | .error f => endingOf host (.source f)
  | .ok _ =>
    match fs.target results with
    | .error f => finish host (.failed (f.message results))
    | .ok _ => finish host (.printed (results.text ++ ['\n']))

section

variable {host : Host} {fs : Files} {input results : Path}

theorem endingOf_source {f : Source.Fault}
    (h : ∀ trouble, f = .library trouble → trouble.isExpected = true) :
    endingOf host (.source f) = finish host (.failed f.message) := by
  cases f with
  | library trouble => rw [endingOf, if_pos (h trouble rfl)]; rfl
  | _ => rfl

theorem endingOn_of_said {e : Ending} (h : Says host fs input results e) :
    endingOn host fs input results = finish host e := by
  rw [endingOn]
  cases h with
  | path hes hl => rw [hes, hl]
  | unread hf hreported =>
      rw [hf]
      exact endingOf_source hreported
  | unopened hes hf => rw [hes, hf]

theorem endingOn_of_unopenable (hfile : fs.isFile input = true) {trouble : Trouble}
    (h : Unopenable host fs input trouble) :
    endingOn host fs input results = .aborted (.library trouble) := by
  obtain ⟨hf, hunexpected⟩ := (unopenable_iff hfile).mp h
  rw [endingOn, hf]
  dsimp only
  rw [endingOf, hunexpected]
  rfl

/-- Either a library has the last word, or there is something to say. -/
theorem unopenable_or_said (hfile : fs.isFile input = true) :
    (∃ trouble, Unopenable host fs input trouble) ∨ ∃ e, Says host fs input results e := by
  cases hes : Source.expressions host fs input with
  | error f =>
      by_cases hreported : ∀ trouble, f = .library trouble → trouble.isExpected = true
      · exact Or.inr ⟨_, .unread hes hreported⟩
      · obtain ⟨trouble, himp⟩ := not_forall.mp hreported
        obtain ⟨rfl, hunexpected⟩ := Classical.not_imp.mp himp
        exact Or.inl ⟨trouble, (unopenable_iff hfile).mpr ⟨hes, Bool.eq_false_iff.mpr hunexpected⟩⟩
  | ok es =>
      cases hl : fs.target results with
      | error f => exact Or.inr ⟨_, .unopened hes hl⟩
      | ok l => exact Or.inr ⟨_, .path hes hl⟩

/-- What is to be printed is printed, or the stream refuses it. -/
theorem finish_cases (host : Host) (e : Ending) :
    (host.refusal? e.prints.1 e.prints.2 = none ∧ finish host e = e)
      ∨ ∃ trouble, host.refusal? e.prints.1 e.prints.2 = some trouble
        ∧ finish host e = .aborted (.stream trouble) := by
  rw [finish]
  cases h : host.refusal? e.prints.1 e.prints.2 with
  | none => exact Or.inl ⟨rfl, rfl⟩
  | some trouble => exact Or.inr ⟨trouble, rfl, rfl⟩

theorem Says.ne_aborted {e : Ending} (h : Says host fs input results e) (cause : Abort) :
    e ≠ .aborted cause := by
  cases h <;> exact nofun

theorem aborted_iff_escapes (hfile : fs.isFile input = true) (cause : Abort) :
    endingOn host fs input results = .aborted cause ↔ Escapes host fs input results cause := by
  constructor
  · intro h
    rcases unopenable_or_said hfile with ⟨trouble, htrouble⟩ | ⟨e, he⟩
    · rw [endingOn_of_unopenable hfile htrouble] at h
      obtain rfl := Ending.aborted.inj h
      exact .library htrouble
    · rw [endingOn_of_said he] at h
      rcases finish_cases host e with ⟨-, hfinish⟩ | ⟨trouble, hrefused, hfinish⟩
      · exact absurd (hfinish.symm.trans h) (he.ne_aborted cause)
      · obtain rfl := Ending.aborted.inj (hfinish.symm.trans h)
        exact .stream he hrefused
  · intro h
    cases h with
    | library htrouble => exact endingOn_of_unopenable hfile htrouble
    | stream he hrefused => rw [endingOn_of_said he, finish, hrefused]

theorem exitCode_eq_zero_iff (hfile : fs.isFile input = true) :
    (endingOn host fs input results).exitCode = 0
      ↔ ∃ es l, Source.expressions host fs input = .ok es ∧ fs.target results = .ok l
        ∧ host.refusal? .out (results.text ++ ['\n']) = none := by
  constructor
  · intro h
    rcases unopenable_or_said hfile with ⟨trouble, htrouble⟩ | ⟨e, he⟩
    · rw [endingOn_of_unopenable hfile htrouble] at h
      cases h
    · rw [endingOn_of_said he] at h
      rcases finish_cases host e with ⟨hrefusal, hfinish⟩ | ⟨trouble, -, hfinish⟩
      · rw [hfinish] at h
        cases he with
        | path hes hl => exact ⟨_, _, hes, hl, hrefusal⟩
        | unread => cases h
        | unopened => cases h
      · rw [hfinish] at h
        cases h
  · rintro ⟨es, l, hes, hl, hrefusal⟩
    have hprints : host.refusal? (Ending.printed (results.text ++ ['\n'])).prints.1
      (Ending.printed (results.text ++ ['\n'])).prints.2 = none := hrefusal
    rw [endingOn_of_said (.path hes hl), finish, hprints]
    rfl

/-- What is not aborted is reported. -/
theorem reported_of_file (hfile : fs.isFile input = true) :
    (∃ cause, endingOn host fs input results = .aborted cause)
      ∨ ((endingOn host fs input results).exitCode = 0
          ∧ (endingOn host fs input results).stdout = results.text ++ ['\n']
          ∧ (endingOn host fs input results).stderr = [])
      ∨ ((endingOn host fs input results).exitCode = 1
          ∧ (endingOn host fs input results).stdout = []
          ∧ ∃ m, (endingOn host fs input results).stderr = "error: ".toList ++ m ++ ['\n']) := by
  rcases unopenable_or_said hfile with ⟨trouble, htrouble⟩ | ⟨e, he⟩
  · exact Or.inl ⟨_, endingOn_of_unopenable hfile htrouble⟩
  · rw [endingOn_of_said he]
    rcases finish_cases host e with ⟨-, hfinish⟩ | ⟨trouble, -, hfinish⟩
    · rw [hfinish]
      cases he with
      | path => exact Or.inr (Or.inl ⟨rfl, rfl, rfl⟩)
      | unread => exact Or.inr (Or.inr ⟨rfl, rfl, _, rfl⟩)
      | unopened => exact Or.inr (Or.inr ⟨rfl, rfl, _, rfl⟩)
    · exact Or.inl ⟨_, hfinish⟩

end

/-! ## The ending of a run -/

/-- How the program ends on what a run returns. -/
def endingOfRun (host : Host) (results : Path) : Except Batch.Failure (List Outcome) → Ending
  | .ok _ => finish host (.printed (results.text ++ ['\n']))
  | .error f => endingOf host f

theorem ending_runBatch (host : Host) (fs : Files) (b : Batch) :
    (runBatch host fs b).ending
      = endingOfRun host b.output (b.run host fs Batch.Schedule.inOrder).result := by
  unfold runBatch
  cases h : (b.run host fs Batch.Schedule.inOrder).result <;> simp only [h] <;> rfl

section

variable {host : Host} {fs : Files} {b : Batch}

/-- If a run comes to its end, where its files can be opened, the files decide how the
program ends. -/
theorem endingOfRun_eq {schedule : List Job → Batch.Schedule}
    (hcomplete : ∀ es, Source.expressions host fs b.input = .ok es →
      ∃ s, Batch.process (Batch.limitFor b.workers host.processors es.length)
        (schedule (Batch.jobs es)) (Batch.jobs es) = .ok s ∧ s.isComplete = true) :
    endingOfRun host b.output (b.run host fs schedule).result
      = endingOn host fs b.input b.output := by
  rw [endingOn]
  cases hes : Source.expressions host fs b.input with
  | error f =>
      rw [Batch.run_eq, hes]
      rfl
  | ok es =>
      cases hl : fs.target b.output with
      | error f =>
          rw [Batch.run_eq, hes]
          simp only [hl]
          rfl
      | ok l =>
          obtain ⟨os, hos⟩ := Batch.exists_outcomes_of_complete schedule hes hl (hcomplete es hes)
          rw [hos]
          rfl

theorem ending_of_batch (hp : 0 < host.processors) (hw : ∀ w, b.workers = some w → 0 < w) :
    (runBatch host fs b).ending = endingOn host fs b.input b.output := by
  rw [ending_runBatch]
  exact endingOfRun_eq fun es _ => Batch.process_inOrder hp hw es

/-- If each worker ends at some time, the batch ends as its files have it. -/
theorem exists_ending_of_fair (hp : 0 < host.processors) (hw : ∀ w, b.workers = some w → 0 < w)
    {arrivals : Batch.Arrivals} (hfair : arrivals.Fair) :
    ∃ n, endingOfRun host b.output (b.run host fs fun _ => arrivals.first n).result
      = endingOn host fs b.input b.output := by
  cases hes : Source.expressions host fs b.input with
  | error f =>
      refine ⟨0, endingOfRun_eq fun es h => ?_⟩
      rw [hes] at h
      cases h
  | ok es =>
      obtain ⟨n, hcomplete⟩ := Batch.process_of_fair hp hw es hfair
      refine ⟨n, endingOfRun_eq fun es' h => ?_⟩
      rw [hes] at h
      obtain rfl := Except.ok.inj h
      exact hcomplete

end

/-- **How the program ends on a file that it accepts.** It is aborted by what goes past it,
and by nothing else: an exception that a library raises on the input file as an archive, if
it is of no expected kind, or one that a stream raises on what there is to say. Otherwise it
prints the path of the results and nothing else, with exit code 0, or it prints an error and
no path, with exit code 1; and the former exactly if the expressions can be read, the
results file can be opened and the path can be printed. It does end so, whatever the workers
do, if each of them ends at some time. -/
theorem ending_of_file {host : Host} {fs : Files} {arguments : List Text} {settings : Settings}
    {input : Path} {output : Option Path} {workers : Option Nat}
    (hp : 0 < host.processors) (hs : Settings.ofWords arguments = .ok settings)
    (hr : Request.ofRecord fs settings.toRecord = .ok (.file input output workers)) :
    ∃ results ending, output.or input.results? = some results
      ∧ (run host fs arguments).ending = ending
      ∧ (∀ cause, ending = .aborted cause ↔ Escapes host fs input results cause)
      ∧ ((∃ cause, ending = .aborted cause)
          ∨ (ending.exitCode = 0 ∧ ending.stdout = results.text ++ ['\n'] ∧ ending.stderr = [])
          ∨ (ending.exitCode = 1 ∧ ending.stdout = []
              ∧ ∃ m, ending.stderr = "error: ".toList ++ m ++ ['\n']))
      ∧ (ending.exitCode = 0
          ↔ ∃ es l, Source.expressions host fs input = .ok es ∧ fs.target results = .ok l
            ∧ host.refusal? .out (results.text ++ ['\n']) = none)
      ∧ ∀ arrivals : Batch.Arrivals, arrivals.Fair →
          ∃ n, endingOfRun host results
            (Batch.run ⟨input, results, workers⟩ host fs fun _ => arrivals.first n).result
              = ending := by
  obtain ⟨⟨t, rfl⟩, hfile, hw⟩ := Request.of_file hr
  obtain ⟨beside, hbeside⟩ := Path.exists_results hfile
  obtain ⟨results, hresults⟩ : ∃ results, output.or (Path.ofText t).results? = some results := by
    rw [hbeside]
    cases output with
    | none => exact ⟨beside, rfl⟩
    | some p => exact ⟨p, rfl⟩
  have hrun : (run host fs arguments).ending = endingOn host fs (Path.ofText t) results := by
    simp only [run, hs, hr, runRequest, hresults]
    exact ending_of_batch hp hw
  refine ⟨results, _, hresults, rfl, ?_⟩
  rw [hrun]
  exact ⟨aborted_iff_escapes hfile, reported_of_file hfile, exitCode_eq_zero_iff hfile,
    fun arrivals hfair => exists_ending_of_fair hp hw hfair⟩

/-- A file that is no archive, for all its name: the request is accepted, and the program
is aborted. -/
theorem broken_archive_aborts :
    ∃ settings, Settings.ofWords ["-f".toList, "in.zip".toList] = .ok settings
      ∧ Request.ofRecord Batch.brokenFiles settings.toRecord
          = .ok (.file (Path.ofText "in.zip".toList) none none)
      ∧ (run Batch.sampleHost Batch.brokenFiles ["-f".toList, "in.zip".toList]).ending
          = .aborted (.library (Archive.notArchive .zip)) :=
  ⟨⟨none, .argument "in.zip".toList, .unused, .unused, false, []⟩, by decide, by decide, by decide⟩

/-- A text file is accepted and worked off, and the path of its results is printed. -/
theorem ending_of_file_sample :
    0 < Batch.sampleHost.processors
      ∧ ∃ settings, Settings.ofWords ["-f".toList, "in.txt".toList] = .ok settings
      ∧ Request.ofRecord Batch.sampleFiles settings.toRecord
          = .ok (.file (Path.ofText "in.txt".toList) none none)
      ∧ (run Batch.sampleHost Batch.sampleFiles ["-f".toList, "in.txt".toList]).ending.exitCode = 0
      ∧ (run Batch.sampleHost Batch.sampleFiles ["-f".toList, "in.txt".toList]).ending.stdout
          = "in_txt_results.txt\n".toList := by
  have hs : Settings.ofWords ["-f".toList, "in.txt".toList]
      = .ok ⟨none, .argument "in.txt".toList, .unused, .unused, false, []⟩ := by decide
  have hr : Request.ofRecord Batch.sampleFiles
      (Settings.toRecord ⟨none, .argument "in.txt".toList, .unused, .unused, false, []⟩)
        = .ok (.file (Path.ofText "in.txt".toList) none none) := by decide
  refine ⟨by decide, _, hs, hr, ?_⟩
  obtain ⟨results, ending, hresults, rfl, -, hreported, hzero, -⟩ :=
    ending_of_file (by decide : 0 < Batch.sampleHost.processors) hs hr
  have hbeside : (none : Option Path).or (Path.ofText "in.txt".toList).results?
      = some (Path.ofText "in_txt_results.txt".toList) := by decide
  rw [hbeside] at hresults
  obtain rfl := Option.some.inj hresults
  have hexit := hzero.mpr
    ⟨Batch.sampleLines, ["in_txt_results.txt".toList], by decide, by decide, rfl⟩
  refine ⟨hexit, ?_⟩
  rcases hreported with ⟨cause, hcause⟩ | ⟨-, hstdout, -⟩ | ⟨hone, -⟩
  · rw [hcause] at hexit
    cases hexit
  · exact hstdout
  · rw [hexit] at hone
    cases hone

end CommandLine

end Reckon
