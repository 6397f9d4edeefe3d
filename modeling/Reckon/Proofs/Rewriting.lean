import Reckon.Proofs.ContentLines

/-!
# Writing a batch file anew

The expressions of a file are entries: not empty, without blanks at their ends, and each
within a line. Entries can be written to a text file in many ways, and all of them are read
back as the same entries (`expressions_of_laid`). So a batch file can be put into any
newline convention, or rid of its blank lines, and the batch stays as it is. For the text
this is a matter of rows (`contentLines_joined`).

For the batch it takes a little more, because its run looks at the files. But a file in the
place of a file leaves every path leading where it led (`locate_put_file`,
`target_put_file`), and the run has read its input before it writes anything.
-/

namespace Reckon

namespace Text

/-! ## Rows -/

/-- The newline conventions. -/
def newlines : List Text := [['\n'], ['\r', '\n'], ['\r']]

/-- Rows with a newline between any two, and perhaps one behind the last. -/
def joined (newline : Text) (terminated : Bool) (rows : List Text) : Text :=
  newline.intercalate rows ++ if terminated then newline else []

/-- The rows hold the entries in their order, each with blanks around it, and between them
rows of nothing but blanks. -/
inductive Laid : List Text → List Text → Prop where
  | nil : Laid [] []
  | blank {es rows : List Text} {w : Text} (hw : w.IsBlanks) (h : Laid es rows) :
    Laid es (w :: rows)
  | entry {es rows : List Text} {s e s' : Text} (hs : s.IsBlanks) (hs' : s'.IsBlanks)
    (h : Laid es rows) : Laid (e :: es) ((s ++ (e ++ s')) :: rows)

theorem isBlanks_nil : IsBlanks [] := fun _ h => by cases h

/-- Entries without anything around them are a layout of themselves. -/
theorem Laid.self : ∀ es : List Text, Laid es es
  | [] => .nil
  | e :: es => by
      have h := Laid.entry (e := e) isBlanks_nil isBlanks_nil (Laid.self es)
      rwa [List.nil_append, List.append_nil] at h

section

variable {newline : Text} (hn : newline ∈ newlines)
include hn

theorem exists_newline : ∃ b w, newline = b :: w ∧ isLineBoundary b = true ∧ IsBlanks w := by
  simp only [newlines, List.mem_cons, List.not_mem_nil, or_false] at hn
  rcases hn with rfl | rfl | rfl
  · exact ⟨'\n', [], rfl, rfl, isBlanks_nil⟩
  · exact ⟨'\r', ['\n'], rfl, rfl, by simp [IsBlanks]; rfl⟩
  · exact ⟨'\r', [], rfl, rfl, isBlanks_nil⟩

theorem contentLines_append_newline (s t : Text) :
    contentLines (s ++ (newline ++ t)) = contentLines s ++ contentLines t := by
  obtain ⟨b, w, rfl, hb, hw⟩ := exists_newline hn
  rw [List.cons_append, contentLines_append_boundary hb, contentLines_blanks_append hw]

theorem contentLines_intercalate (rows : List Text) :
    contentLines (newline.intercalate rows) = rows.flatMap contentLines := by
  induction rows with
  | nil => rfl
  | cons row rows ih =>
      cases rows with
      | nil => rw [List.intercalate_singleton, List.flatMap_cons, List.flatMap_nil, List.append_nil]
      | cons next rows =>
          rw [List.intercalate_cons_cons, List.append_assoc, contentLines_append_newline hn, ih]
          rfl

/-- Rows are read by themselves, however they are joined. -/
theorem contentLines_joined (terminated : Bool) (rows : List Text) :
    contentLines (joined newline terminated rows) = rows.flatMap contentLines := by
  cases terminated with
  | false => rw [joined, if_neg Bool.false_ne_true, List.append_nil, contentLines_intercalate hn]
  | true =>
      have hend := contentLines_append_newline hn (newline.intercalate rows) []
      rw [List.append_nil] at hend
      rw [joined, if_pos rfl, hend, contentLines_intercalate hn]
      exact List.append_nil _

end

theorem Laid.flatMap_contentLines {es rows : List Text} (h : Laid es rows)
    (hes : ∀ e ∈ es, e.IsEntry) : rows.flatMap contentLines = es := by
  induction h with
  | nil => rfl
  | blank hw _ ih => rw [List.flatMap_cons, contentLines_of_isBlanks hw, ih hes, List.nil_append]
  | entry hs hs' _ ih =>
      obtain ⟨he, hes⟩ := List.forall_mem_cons.mp hes
      rw [List.flatMap_cons, he.contentLines_between hs hs', ih hes, List.singleton_append]

end Text

/-! ## A file in the place of a file -/

namespace Files

variable {fs : Files} {l : Location} {b b' : Bytes} (hl : fs.entry? l = some (.file b))
include hl

theorem writable_of_file : fs.Writable l := Or.inl ⟨b, hl⟩

theorem entry?_put_file : entry? (fs.put l b') l = some (.file b') :=
  entry?_put_self (writable_of_file hl).not_given

theorem walk_put_file : ∀ (names : List Text) (s : Location),
    (fs.put l b').walk s names = fs.walk s names
  | [], _ => rfl
  | name :: names, s => by
      have hpermits : (fs.put l b').permits .search s = fs.permits .search s := rfl
      rw [walk, walk, hpermits]
      by_cases hs : s = l
      · rw [hs, entry?_put_file hl, hl]
      · rw [entry?_put_of_ne (writable_of_file hl) hs]
        simp only [walk_put_file names]

theorem locate_put_file (p : Path) : (fs.put l b').locate p = fs.locate p := by
  unfold locate
  rw [walk_put_file hl]

theorem isDirectory_put_file (k : Location) :
    Files.entry? (fs.put l b') k = some .directory ↔ fs.entry? k = some .directory := by
  by_cases hk : k = l
  · rw [hk, entry?_put_file hl, hl]
    simp
  · rw [entry?_put_of_ne (writable_of_file hl) hk]

theorem target_put_file (p : Path) : (fs.put l b').target p = fs.target p := by
  have hpermits : ∀ m, (fs.put l b').permits .write m = fs.permits .write m := fun _ => rfl
  unfold target
  rw [locate_put_file hl]
  cases fs.locate p with
  | error f => rfl
  | ok m =>
      by_cases hm : m = l
      · simp only [hm, entry?_put_file hl, hl, hpermits]
      · simp only [entry?_put_of_ne (writable_of_file hl) hm, isDirectory_put_file hl, hpermits]

end Files

namespace Source

theorem exists_read_of_expressions {host : Host} {fs : Files} {p : Path} {es : List Text}
    (hsuffix : p.suffix = ".txt".toList) (h : expressions host fs p = .ok es) :
    ∃ b, fs.read p = .ok b := by
  obtain ⟨b, hbytes, -⟩ := exists_bytes_of_expressions h
  rw [bytes_of_text hsuffix] at hbytes
  exact ⟨b, contentAt_eq_ok_iff.mp hbytes⟩

/-- However entries are laid out in a text file, they are read back. -/
theorem expressions_of_laid {host : Host} {fs : Files} {p : Path} {es rows : List Text}
    {newline : Text} {terminated : Bool} (hes : ∀ e ∈ es, e.IsEntry) (hrows : Text.Laid es rows)
    (hn : newline ∈ Text.newlines) (hsuffix : p.suffix = ".txt".toList)
    (hread : fs.read p = .ok (Utf8.encode (Text.joined newline terminated rows))) :
    expressions host fs p = .ok es := by
  have hbytes : bytes host fs p = .ok (Utf8.encode (Text.joined newline terminated rows)) :=
    bytes_of_plain hsuffix hread
  have h := Batch.expressions_of_bytes hbytes (Utf8.decode_encode _)
  rwa [Text.contentLines_joined hn, hrows.flatMap_contentLines hes] at h

theorem isEntry_of_mem_expressions {host : Host} {fs : Files} {p : Path} {es : List Text}
    (h : expressions host fs p = .ok es) : ∀ e ∈ es, e.IsEntry := by
  obtain ⟨t, -, rfl⟩ := Batch.exists_text_of_expressions h
  exact fun e he => Text.isEntry_of_mem_contentLines he

end Source

namespace Batch

/-! ## The batch -/

theorem writeResults_congr (b : Batch) (fs fs' : Files) (processors : Nat) (schedule : Schedule)
    (es : List Text) (m : Location) :
    (b.writeResults fs' processors schedule es m).result
        = (b.writeResults fs processors schedule es m).result
      ∧ (b.writeResults fs' processors schedule es m).log
        = (b.writeResults fs processors schedule es m).log
      ∧ (b.writeResults fs' processors schedule es m).started
        = (b.writeResults fs processors schedule es m).started
      ∧ ∃ bytes, (b.writeResults fs processors schedule es m).files = fs.put m bytes
        ∧ (b.writeResults fs' processors schedule es m).files = fs'.put m bytes := by
  unfold writeResults
  cases process (limitFor b.workers processors es.length) schedule (jobs es) with
  | error halt => exact ⟨rfl, rfl, rfl, _, rfl, rfl⟩
  | ok s =>
      dsimp only
      split_ifs
      · exact ⟨rfl, rfl, rfl, _, rfl, rfl⟩
      · exact ⟨rfl, rfl, rfl, _, rfl, rfl⟩

/-- A run is the same after another file of the same expressions has taken the place of
its input. What is found at the location of the input is the new file, unless the run
has written its results there. -/
theorem run_put_input {b : Batch} {host : Host} {fs : Files} {l : Location}
    {content bytes : Bytes} {es : List Text} (hl : fs.entry? l = some (.file content))
    (hes : Source.expressions host fs b.input = .ok es)
    (hes' : Source.expressions host (fs.put l bytes) b.input = .ok es)
    (schedule : List Job → Schedule) :
    (b.run host (fs.put l bytes) schedule).result = (b.run host fs schedule).result
      ∧ (b.run host (fs.put l bytes) schedule).log = (b.run host fs schedule).log
      ∧ (b.run host (fs.put l bytes) schedule).started = (b.run host fs schedule).started
      ∧ ∀ k, k ≠ l ∨ fs.target b.output = .ok k →
        Files.entry? (b.run host (fs.put l bytes) schedule).files k
          = Files.entry? (b.run host fs schedule).files k := by
  have hw := Files.writable_of_file hl
  simp only [run_eq, hes, hes', Files.target_put_file hl]
  cases hm : fs.target b.output with
  | error f =>
      refine ⟨rfl, rfl, rfl, fun k hk => ?_⟩
      rcases hk with hk | hk
      · exact Files.entry?_put_of_ne hw hk
      · cases hk
  | ok m =>
      obtain ⟨hresult, hlog, hstarted, written, hfiles, hfiles'⟩ :=
        writeResults_congr b fs (fs.put l bytes) host.processors (schedule (jobs es)) es m
      obtain ⟨-, hwm⟩ := Files.writable_of_target hm
      obtain ⟨-, hwm'⟩ := Files.writable_of_target ((Files.target_put_file hl b.output).trans hm)
      refine ⟨hresult, hlog, hstarted, fun k hk => ?_⟩
      rw [hfiles, hfiles']
      by_cases hkm : k = m
      · rw [hkm, Files.entry?_put_self hwm.not_given, Files.entry?_put_self hwm.not_given]
      · have hkl : k ≠ l := hk.resolve_right fun h => hkm (Except.ok.inj h).symm
        rw [Files.entry?_put_of_ne hwm hkm, Files.entry?_put_of_ne hwm' hkm,
          Files.entry?_put_of_ne hw hkl]

/-- **A batch file may be written anew.** The expressions that are read under a path are
entries. Entries that are laid out in rows of a text file, with blanks around them and blank
rows between them, in any newline convention, with or without a newline at the end, are read
back as these entries in their order. So the input of a batch may be written anew as the list
of its expressions, and the batch starts the same workers, returns what it returned before,
with the same log, and leaves the same files but for its input. -/
theorem expressions_read_back :
    (∀ host fs p es, Source.expressions host fs p = .ok es → ∀ e ∈ es, Text.IsEntry e)
      ∧ (∀ es rows, (∀ e ∈ es, Text.IsEntry e) → Text.Laid es rows →
          ∀ newline ∈ Text.newlines, ∀ (terminated : Bool) (host : Host) (fs : Files) (p : Path),
            p.suffix = ".txt".toList →
            fs.read p = .ok (Utf8.encode (Text.joined newline terminated rows)) →
            Source.expressions host fs p = .ok es)
      ∧ ∀ (b : Batch) (host : Host) (fs : Files) (es : List Text),
          b.input.suffix = ".txt".toList → Source.expressions host fs b.input = .ok es →
          ∃ l content, fs.locate b.input = .ok l ∧ fs.entry? l = some (.file content)
            ∧ ∀ newline ∈ Text.newlines, ∀ (terminated : Bool) (fs' : Files),
              fs' = fs.put l (Utf8.encode (Text.joined newline terminated es)) →
              ∀ schedule : List Job → Schedule,
                (b.run host fs' schedule).result = (b.run host fs schedule).result
                  ∧ (b.run host fs' schedule).log = (b.run host fs schedule).log
                  ∧ (b.run host fs' schedule).started = (b.run host fs schedule).started
                  ∧ ∀ k, k ≠ l ∨ fs.target b.output = .ok k →
                    Files.entry? (b.run host fs' schedule).files k
                      = Files.entry? (b.run host fs schedule).files k := by
  refine ⟨fun host fs p es => Source.isEntry_of_mem_expressions, ?_, ?_⟩
  · intro es rows hes hrows newline hn terminated host fs p hsuffix hread
    exact Source.expressions_of_laid hes hrows hn hsuffix hread
  · intro b host fs es hsuffix hes
    obtain ⟨content, hread⟩ := Source.exists_read_of_expressions hsuffix hes
    obtain ⟨l, hlocate, hl, hpermits⟩ := Files.read_eq_ok_iff.mp hread
    refine ⟨l, content, hlocate, hl, ?_⟩
    rintro newline hn terminated fs' rfl schedule
    have hread' : (fs.put l (Utf8.encode (Text.joined newline terminated es))).read b.input
        = .ok (Utf8.encode (Text.joined newline terminated es)) :=
      Files.read_eq_ok_iff.mpr ⟨l, (Files.locate_put_file hl b.input).trans hlocate,
        Files.entry?_put_file hl, hpermits⟩
    have hes' : Source.expressions host
        (fs.put l (Utf8.encode (Text.joined newline terminated es))) b.input = .ok es :=
      Source.expressions_of_laid (Source.isEntry_of_mem_expressions hes) (.self es) hn hsuffix
        hread'
    exact run_put_input hl hes hes' schedule

/-- Two entries. The second has an information separator in it, which is a blank but no
boundary. -/
def tidyLines : List Text := ["1 / 0".toList, "2\x1F* 3".toList]

/-- The entries with a good deal around them. -/
def untidyRows : List Text :=
  ["\u2028\t".toList, "\u3000 1 / 0\x1F".toList, [], "2\x1F* 3\x0B".toList]

def untidyFiles : Files where
  entries := [(["in.txt".toList],
    .file (Utf8.encode (Text.joined "\r\n".toList true untidyRows)))]

/-- The file is read as the two entries, and a batch does not tell the difference when they
are written anew with carriage returns. -/
theorem expressions_read_back_sample :
    Source.expressions sampleHost untidyFiles sample.input = .ok tidyLines
      ∧ ∃ l, untidyFiles.locate sample.input = .ok l
        ∧ (sample.run sampleHost
            (untidyFiles.put l (Utf8.encode (Text.joined ['\r'] false tidyLines)))
            sampleSchedule).result
          = (sample.run sampleHost untidyFiles sampleSchedule).result := by
  obtain ⟨-, hlaid, hanew⟩ := expressions_read_back
  have hentries : ∀ e ∈ tidyLines, Text.IsEntry e := by
    intro e he
    rcases List.mem_cons.mp he with rfl | he
    · exact ⟨List.cons_ne_nil _ _, by rintro c ⟨⟩; rfl, by rintro c ⟨⟩; rfl, .words rfl⟩
    · obtain rfl := List.mem_singleton.mp he
      exact ⟨List.cons_ne_nil _ _, by rintro c ⟨⟩; rfl, by rintro c ⟨⟩; rfl, .words rfl⟩
  have hblanks : ∀ {w : Text}, w.all Text.isBlank = true → w.IsBlanks := List.all_eq_true.mp
  have hfirst : Text.IsBlanks "\u2028\t".toList := hblanks rfl
  have hfront : Text.IsBlanks "\u3000 ".toList := hblanks rfl
  have hbehind : Text.IsBlanks ['\x1F'] := hblanks rfl
  have hlast : Text.IsBlanks ['\x0B'] := hblanks rfl
  have hrows : Text.Laid tidyLines untidyRows :=
    .blank hfirst (.entry hfront hbehind (.blank Text.isBlanks_nil
      (.entry Text.isBlanks_nil hlast .nil)))
  have hes : Source.expressions sampleHost untidyFiles sample.input = .ok tidyLines :=
    hlaid tidyLines untidyRows hentries hrows "\r\n".toList (by decide) true sampleHost untidyFiles
      _ rfl rfl
  obtain ⟨l, content, hl, -, hrun⟩ := hanew sample sampleHost untidyFiles tidyLines rfl hes
  exact ⟨hes, l, hl, (hrun ['\r'] (by decide) false _ rfl sampleSchedule).1⟩

end Batch

end Reckon
