import Reckon.Proofs.Frames
import Reckon.Proofs.Suffixes

/-!
# Unpacking an archive

Reading an archive makes a directory, unpacks the text into it, reads the text there and
removes the directory. So whatever becomes of it, the files are in the end what they were
before (`load_files`).

What is read depends on the file of the archive alone, as long as the name of the text
leads to a place inside the directory (`Inward`): nothing but what has been unpacked is
found there, whatever other files there are and wherever the directory was made
(`bytes_unique`). A name that leads elsewhere leads to some other file, and it is that file
that is read (`bytes_of_absolute`).
-/

namespace Reckon

namespace Files

variable {fs fs' made made' : Files} {l l' : Location} {p : Path} {e : Entry} {b : Bytes}

/-! ## Below a directory -/

theorem foldl_next {names : List Text} (h : parentName ∉ names) (l : Location) :
    names.foldl next l = l ++ names := by
  induction names generalizing l with
  | nil => rw [List.foldl_nil, List.append_nil]
  | cons name names ih =>
      have hname : name ≠ parentName := fun heq => h (heq ▸ List.mem_cons_self ..)
      have hnames : parentName ∉ names := fun hmem => h (List.mem_cons_of_mem _ hmem)
      rw [List.foldl_cons, next, if_neg hname, ih hnames, List.append_assoc, List.singleton_append]

/-- At two locations, and below them, the same is listed. -/
def SameBelow (fs : Files) (l : Location) (fs' : Files) (l' : Location) : Prop :=
  ∀ names, fs'.entries.lookup (l' ++ names) = fs.entries.lookup (l ++ names)

theorem SameBelow.put (h : SameBelow fs l fs' l') (names : List Text) (b : Bytes) :
    SameBelow (fs.put (l ++ names) b) l (fs'.put (l' ++ names) b) l' := by
  intro others
  by_cases hsame : others = names
  · rw [hsame, Files.put, Files.put, lookup_insert_self, lookup_insert_self]
  · have hl : l ++ others ≠ l ++ names := fun heq => hsame (List.append_cancel_left heq)
    have hl' : l' ++ others ≠ l' ++ names := fun heq => hsame (List.append_cancel_left heq)
    rw [Files.put, Files.put, lookup_insert_of_ne hl, lookup_insert_of_ne hl']
    exact h others

theorem SameBelow.lay (unpacked : List Archive.Unpacked) : ∀ {fs fs' : Files},
    SameBelow fs l fs' l' → SameBelow (fs.lay l unpacked) l (fs'.lay l' unpacked) l' := by
  induction unpacked with
  | nil => exact id
  | cons f unpacked ih => exact fun h => ih (h.put f.names f.content)

theorem lookup_below_made (h : fs.makeDirectory p = .ok (l, made)) (names : List Text) :
    made.entries.lookup (l ++ names) = if names = [] then some .directory else none := by
  obtain ⟨-, hnone, -, rfl⟩ := of_makeDirectory h
  split
  case isTrue hnil => rw [hnil, List.append_nil, lookup_insert_self]
  case isFalse hne =>
    have hl : l ++ names ≠ l := fun heq => hne (List.self_eq_append_right.mp heq.symm)
    rw [lookup_insert_of_ne hl]
    exact lookup_of_none (entry?_below_of_none hnone (List.prefix_append l names))

theorem sameBelow_made {p' : Path} (h : fs.makeDirectory p = .ok (l, made))
    (h' : fs'.makeDirectory p' = .ok (l', made')) : SameBelow made l made' l' := fun names =>
  (lookup_below_made h' names).trans (lookup_below_made h names).symm

/-- Making a directory does not change what is read of a file. -/
theorem read_made (h : fs.makeDirectory p = .ok (l, made)) {q : Path}
    (hfile : fs.find q = .ok (.file b)) : made.read q = fs.read q := by
  obtain ⟨-, hnone, hparent, rfl⟩ := of_makeDirectory h
  have hw : fs.Writable l := Or.inr ⟨hnone, hparent⟩
  rw [find] at hfile
  cases hq : fs.locate q with
  | error f => simp only [hq] at hfile; cases hfile
  | ok m =>
      simp only [hq] at hfile
      have hm : m ≠ l := by
        rintro rfl
        simp only [hnone] at hfile
        cases hfile
      rw [read, read, locate_insert hw.ne_directory hq, hq]
      dsimp only
      rw [entry?_insert_of_ne hw hm]
      rfl

/-- A file that is there before a directory is made is read as before, whatever has been
unpacked into the directory. -/
theorem read_laid (h : fs.makeDirectory p = .ok (l, made)) (unpacked : List Archive.Unpacked)
    {q : Path} (hread : fs.read q = .ok b) : (made.lay l unpacked).read q = .ok b := by
  obtain ⟨m, hq, hm, hpermits⟩ := read_eq_ok_iff.mp hread
  obtain ⟨-, hnone, -, rfl⟩ := of_makeDirectory h
  have hbarred : ((fs.insert l .directory).lay l unpacked).barred = fs.barred :=
    barred_lay unpacked _
  have houtside : ∀ {k e}, fs.entry? k = some e → ¬l <+: k := by
    intro k e hk hpre
    rw [entry?_below_of_none hnone hpre] at hk
    cases hk
  have hdir : ∀ k, fs.entry? k = some .directory →
      Files.entry? ((fs.insert l .directory).lay l unpacked) k = some .directory := by
    intro k hk
    refine directory_lay (houtside hk) unpacked (directory_insert ?_ hk)
    exact fun heq => houtside hk (heq ▸ List.prefix_rfl)
  refine read_eq_ok_iff.mpr ⟨m, locate_mono hbarred hdir hq, ?_, ?_⟩
  · have hne : m ≠ l := fun heq => houtside hm (heq ▸ List.prefix_rfl)
    have hlookup : ((fs.insert l .directory).lay l unpacked).entries.lookup m
        = some (.file b) := by
      rw [lookup_lay (houtside hm), lookup_insert_of_ne hne]
      exact lookup_of_file hm
    have hgiven : isGiven m = false := by
      cases hg : isGiven m with
      | false => rfl
      | true =>
          rw [entry?_of_given hg] at hm
          cases hm
    unfold Files.entry?
    rw [hgiven, if_neg Bool.false_ne_true, hlookup]
  · rwa [permits, hbarred]

theorem not_given_below_made (h : fs.makeDirectory p = .ok (l, made)) (names : List Text) :
    isGiven (l ++ names) = false := by
  obtain ⟨-, hnone, -, -⟩ := of_makeDirectory h
  cases hg : isGiven (l ++ names) with
  | false => rfl
  | true =>
      have hl := isGiven_of_isPrefix (List.prefix_append l names) hg
      rw [not_given_of_none hnone] at hl
      cases hl

/-- A file that is put below a directory has directories on the way. -/
theorem directory_above_put (h : fs.makeDirectory p = .ok (l, made)) {names : List Text}
    {part : Text} {rest : List Text} (b : Bytes) :
    Files.entry? (made.put (l ++ (names ++ part :: rest)) b) (l ++ names) = some .directory := by
  have hne : l ++ names ≠ l ++ (names ++ part :: rest) := fun heq => by
    have hnil := List.self_eq_append_right.mp (List.append_cancel_left heq)
    cases hnil
  have hany : (made.put (l ++ (names ++ part :: rest)) b).entries.any
      (fun x => (l ++ names).isPrefixOf x.1) = true := by
    refine List.any_eq_true.mpr ⟨_, List.mem_append_right _ (List.mem_singleton_self _), ?_⟩
    rw [List.isPrefixOf_iff_prefix, ← List.append_assoc]
    exact List.prefix_append _ _
  unfold Files.entry?
  rw [if_neg (by rw [not_given_below_made h]; exact Bool.false_ne_true), Files.put,
    lookup_insert_of_ne hne, lookup_below_made h]
  split
  case h_1 e he =>
    split at he
    · exact he.symm
    · cases he
  case h_2 => exact if_pos hany

/-- Names can be followed to a file that has been put below a directory. -/
theorem walk_below (h : fs.makeDirectory p = .ok (l, made))
    (hfree : ∀ a k, l <+: k → fs.permits a k = true) {names : List Text} (b : Bytes) :
    ∀ (before : List Text) {rest : List Text}, names = before ++ rest → parentName ∉ rest →
      (∀ part ∈ rest, (Utf8.encode part).length ≤ nameLimit) →
      (made.put (l ++ names) b).walk (l ++ before) rest = .ok (l ++ names)
  | before, [], heq, _, _ => by rw [heq, List.append_nil, walk]
  | before, part :: rest, heq, hinward, hshort => by
      obtain ⟨-, -, -, hmade⟩ := of_makeDirectory h
      have hpart : part ≠ parentName := fun hp => hinward (hp ▸ List.mem_cons_self ..)
      have hsearch : (made.put (l ++ names) b).permits .search (l ++ before) = true := by
        rw [hmade]
        exact hfree _ _ (List.prefix_append _ _)
      have hdir : Files.entry? (made.put (l ++ names) b) (l ++ before) = some .directory := by
        rw [heq]
        exact directory_above_put h b
      rw [walk, hdir]
      dsimp only
      rw [if_neg (by rw [hsearch]; exact fun hf => by cases hf),
        if_neg (Nat.not_lt.mpr (hshort part (List.mem_cons_self ..))), next, if_neg hpart,
        List.append_assoc]
      refine walk_below h hfree b (before ++ [part]) ?_ ?_ ?_
      · rw [heq, List.append_assoc, List.singleton_append]
      · exact fun hmem => hinward (List.mem_cons_of_mem _ hmem)
      · exact fun part' hmem => hshort part' (List.mem_cons_of_mem _ hmem)

/-- The path can be given to the system: it has no null character and is not too long. -/
def IsPossible (p : Path) : Prop :=
  '\x00' ∉ p.text ∧ (Utf8.encode p.text).length ≤ pathLimit

/-- What has been unpacked into a directory can be read there. -/
theorem read_unpacked (h : fs.makeDirectory p = .ok (l, made))
    (hfree : ∀ a k, l <+: k → fs.permits a k = true) {names : List Text} (hne : names ≠ [])
    (hinward : parentName ∉ names) (hshort : ∀ part ∈ names, (Utf8.encode part).length ≤ nameLimit)
    (hpossible : IsPossible { p with names := p.names ++ names }) (b : Bytes) :
    (made.put (l ++ names) b).read { p with names := p.names ++ names } = .ok b := by
  obtain ⟨hp, hnone, -, hmade⟩ := of_makeDirectory h
  have hnew : made.entry? (l ++ names) ≠ some .directory := by
    intro hdir
    obtain ⟨x, hx, hpre⟩ := exists_listed hdir (not_given_below_made h names)
    rw [hmade] at hx
    rcases List.mem_append.mp hx with hx | hx
    · exact not_prefix_of_none hnone (List.mem_filter.mp hx).1
        ((List.prefix_append l names).trans hpre)
    · obtain rfl := List.mem_singleton.mp hx
      have hlength : (l ++ names).length ≤ l.length := hpre.length_le
      rw [List.length_append] at hlength
      have hpos := List.length_pos_iff.mpr hne
      omega
  have hwalk : (made.put (l ++ names) b).walk (start p) p.names = .ok l := by
    have hlocate := locate_insert (e := .directory) (by rw [hnone]; exact fun hf => by cases hf) hp
    rw [← hmade] at hlocate
    unfold locate at hlocate
    split_ifs at hlocate
    exact walk_insert hnew hlocate
  refine read_eq_ok_iff.mpr ⟨l ++ names, ?_, entry?_put_self (not_given_below_made h names), ?_⟩
  · rw [locate, if_neg hpossible.1, if_neg (Nat.not_lt.mpr hpossible.2)]
    refine (walk_append names hwalk).trans ?_
    have hbelow := walk_below h hfree b [] rfl hinward hshort
    rwa [List.append_nil] at hbelow
  · rw [hmade]
    exact hfree _ _ (List.prefix_append _ _)

theorem find_of_read (h : fs.read p = .ok b) : fs.find p = .ok (.file b) := by
  obtain ⟨l, hp, hl, -⟩ := read_eq_ok_iff.mp h
  rw [find, hp]
  dsimp only
  rw [hl]

end Files

namespace Source

variable {host host' : Host} {fs fs' made : Files} {p : Path} {format : Archive.Format}
  {l : Location} {b content content' : Bytes} {archive : Archive.Opened}

/-! ## The files in the end -/

theorem takeText_files (host : Host) (made : Files) (l : Location) (p : Path)
    (format : Archive.Format) :
    ∃ files, (takeText host made l p format).1 = made.lay l files := by
  unfold takeText
  cases opened host made p format with
  | error f => exact ⟨[], rfl⟩
  | ok archive =>
      dsimp only
      cases unpacked archive format with
      | error f => exact ⟨[], rfl⟩
      | ok found => exact ⟨found.2, rfl⟩

theorem archiveBytes_files (host : Host) (fs : Files) (p : Path) (format : Archive.Format) :
    (archiveBytes host fs p format).1 = fs := by
  unfold archiveBytes
  cases hmade : fs.makeDirectory host.scratch with
  | error f => rfl
  | ok found =>
      obtain ⟨l, made⟩ := found
      obtain ⟨files, hfiles⟩ := takeText_files host made l p format
      show (takeText host made l p format).1.removeTree l = fs
      rw [hfiles, Files.removeTree_of_makeDirectory hmade]

/-- **Reading changes nothing.** -/
theorem load_files (host : Host) (fs : Files) (p : Path) : (load host fs p).1 = fs := by
  unfold load
  split
  · rfl
  · cases Source.format p with
    | error f => rfl
    | ok format => exact archiveBytes_files host fs p format

/-! ## What is read -/

theorem contentAt_eq_ok_iff : contentAt fs p = .ok b ↔ fs.read p = .ok b := by
  unfold contentAt
  cases fs.read p <;> simp

theorem text_of_bytes (h : bytes host fs p = .ok content) :
    text host fs p = decoded content := by
  rw [text, h]
  rfl

theorem text_of_bytes_error {f : Fault} (h : bytes host fs p = .error f) :
    text host fs p = .error f := by
  rw [text, h]
  rfl

theorem exists_bytes_of_expressions {es : List Text} (h : expressions host fs p = .ok es) :
    ∃ content, bytes host fs p = .ok content
      ∧ (decoded content).map Text.contentLines = .ok es := by
  cases hbytes : bytes host fs p with
  | error f =>
      rw [expressions, text_of_bytes_error hbytes] at h
      cases h
  | ok content =>
      rw [expressions, text_of_bytes hbytes] at h
      exact ⟨content, rfl, h⟩

theorem bytes_of_text (hsuffix : p.suffix = ".txt".toList) :
    bytes host fs p = contentAt fs p := by
  rw [bytes, load, if_pos hsuffix]

theorem bytes_of_format (hformat : format? p = some format) :
    bytes host fs p = (archiveBytes host fs p format).2 := by
  rw [bytes, load, if_neg (suffix_ne_of_format? hformat), Source.format, hformat]

theorem bytes_of_made (hformat : format? p = some format)
    (hmade : fs.makeDirectory host.scratch = .ok (l, made)) :
    bytes host fs p = (takeText host made l p format).2 := by
  rw [bytes_of_format hformat, archiveBytes, hmade]

theorem opened_eq_ok_iff : opened host fs p format = .ok archive
    ↔ ∃ file, fs.read p = .ok file ∧ host.library format file = .ok archive := by
  rw [opened, contentAt]
  cases fs.read p with
  | error f => simp [bind, Except.bind]
  | ok file =>
      simp only [bind, Except.bind, Except.ok.injEq, exists_eq_left']
      cases host.library format file <;> simp [Except.mapError]

theorem bytes_of_opened (hformat : format? p = some format)
    (hmade : fs.makeDirectory host.scratch = .ok (l, made)) (hread : made.read p = .ok b)
    (hopen : host.library format b = .ok archive) :
    bytes host fs p = match unpacked archive format with
      | .error f => .error f
      | .ok (name, files) =>
        contentAt (made.lay l files) (host.scratch.join (Path.ofText name)) := by
  rw [bytes_of_made hformat hmade, takeText, opened_eq_ok_iff.mpr ⟨b, hread, hopen⟩]
  dsimp only
  cases unpacked archive format <;> rfl

theorem unpacked_eq_ok_iff {name : Text} {files : List Archive.Unpacked} :
    unpacked archive format = .ok (name, files)
      ↔ Archive.firstText? (archive.names format) = some name
        ∧ archive.unpack name = .ok files := by
  unfold unpacked
  cases Archive.firstText? (archive.names format) with
  | none => simp
  | some name' =>
      dsimp only
      constructor
      · intro h
        split at h
        case h_1 files' hunpack =>
          obtain ⟨rfl, rfl⟩ := Prod.mk.inj (Except.ok.inj h)
          exact ⟨rfl, hunpack⟩
        case h_2 => cases h
      · rintro ⟨hname, hunpack⟩
        obtain rfl := Option.some.inj hname
        rw [hunpack]

/-- The steps by which the text of an archive has been read. -/
structure Taken (host : Host) (fs : Files) (p : Path) (format : Archive.Format)
    (content : Bytes) where
  l : Location
  made : Files
  file : Bytes
  archive : Archive.Opened
  name : Text
  files : List Archive.Unpacked
  makes : fs.makeDirectory host.scratch = .ok (l, made)
  reads : made.read p = .ok file
  opens : host.library format file = .ok archive
  first : Archive.firstText? (archive.names format) = some name
  unpacks : archive.unpack name = .ok files
  takes : (made.lay l files).read (host.scratch.join (Path.ofText name)) = .ok content

theorem exists_of_takeText (h : (takeText host made l p format).2 = .ok content) :
    ∃ archive name files, opened host made p format = .ok archive
      ∧ unpacked archive format = .ok (name, files)
      ∧ contentAt (made.lay l files) (host.scratch.join (Path.ofText name)) = .ok content := by
  unfold takeText at h
  split at h
  case h_1 => cases h
  case h_2 archive hopened =>
    split at h
    case h_1 => cases h
    case h_2 name files hunpacked => exact ⟨archive, name, files, hopened, hunpacked, h⟩

theorem exists_taken (hformat : format? p = some format) (h : bytes host fs p = .ok content) :
    Nonempty (Taken host fs p format content) := by
  cases hmade : fs.makeDirectory host.scratch with
  | error f =>
      rw [bytes_of_format hformat, archiveBytes, hmade] at h
      cases h
  | ok found =>
      obtain ⟨l, made⟩ := found
      rw [bytes_of_made hformat hmade] at h
      obtain ⟨archive, name, files, hopened, hunpacked, htakes⟩ := exists_of_takeText h
      obtain ⟨file, hread, hopen⟩ := opened_eq_ok_iff.mp hopened
      obtain ⟨hfirst, hunpack⟩ := unpacked_eq_ok_iff.mp hunpacked
      exact ⟨⟨l, made, file, archive, name, files, hmade, hread, hopen, hfirst, hunpack,
        contentAt_eq_ok_iff.mp htakes⟩⟩

/-! ## Inside the directory -/

/-- Read as a path, the name is relative and does not lead back. -/
structure LeadsInward (name : Text) : Prop where
  relative : (Path.ofText name).anchor = []
  inward : Files.parentName ∉ (Path.ofText name).names

/-- If the bytes are those of an archive with the format that the path tells, then the name
of its text leads inward. -/
def Inward (library : Archive.Library) (p : Path) (b : Bytes) : Prop :=
  ∀ format archive name, format? p = some format → library format b = .ok archive →
    Archive.firstText? (archive.names format) = some name → LeadsInward name

/-- A path below a directory leads to a location below that of the directory. -/
theorem LeadsInward.eq_of_locate {name : Text} (h : LeadsInward name) {q : Path} {m : Location}
    (hl : fs.locate q = .ok l) (hm : made.locate (q.join (Path.ofText name)) = .ok m) :
    m = l ++ (Path.ofText name).names := by
  rw [Path.join, if_pos h.relative] at hm
  have hplace : m = (q.names ++ (Path.ofText name).names).foldl Files.next (Files.start q) :=
    Files.eq_of_locate hm
  rw [hplace, List.foldl_append, ← Files.eq_of_locate hl, Files.foldl_next h.inward]

/-- An absolute name leads out of the directory. What is read then is a file that has
nothing to do with the archive, if there is one under that name. -/
theorem bytes_of_absolute {name : Text} {files : List Archive.Unpacked}
    (hformat : format? p = some format) (hmade : fs.makeDirectory host.scratch = .ok (l, made))
    (hread : fs.read p = .ok b) (hopen : host.library format b = .ok archive)
    (hfirst : Archive.firstText? (archive.names format) = some name)
    (hunpack : archive.unpack name = .ok files) (habsolute : (Path.ofText name).anchor ≠ [])
    (hother : fs.read (Path.ofText name) = .ok content) : bytes host fs p = .ok content := by
  have hmade' := (Files.read_made hmade (Files.find_of_read hread)).trans hread
  rw [bytes_of_opened hformat hmade hmade' hopen, unpacked_eq_ok_iff.mpr ⟨hfirst, hunpack⟩]
  dsimp only
  rw [Path.join, if_neg habsolute, contentAt_eq_ok_iff]
  exact Files.read_laid hmade files hother

theorem Taken.file_eq (t : Taken host fs p format content) (hread : fs.read p = .ok b) :
    t.file = b := by
  have hmade := Files.read_made t.makes (Files.find_of_read hread)
  rw [hread, t.reads] at hmade
  exact Except.ok.inj hmade

/-- Two readings of one archive come to the same, if the name of its text leads inward. -/
theorem Taken.unique (t : Taken host fs p format content)
    (t' : Taken host' fs' p format content') (hlibrary : host'.library = host.library)
    (hfile : t'.file = t.file) (hleads : LeadsInward t.name) : content' = content := by
  have hopens := t'.opens
  rw [hfile, hlibrary, t.opens] at hopens
  have harchive : t'.archive = t.archive := (Except.ok.inj hopens).symm
  have hfirst := t'.first
  rw [harchive, t.first] at hfirst
  have hname : t'.name = t.name := (Option.some.inj hfirst).symm
  have hunpacks := t'.unpacks
  rw [harchive, hname, t.unpacks] at hunpacks
  have hfiles : t'.files = t.files := (Except.ok.inj hunpacks).symm
  -- both texts stand at the same place below their directories
  obtain ⟨m, hm, hentry, -⟩ := Files.read_eq_ok_iff.mp t.takes
  obtain ⟨m', hm', hentry', -⟩ := Files.read_eq_ok_iff.mp t'.takes
  rw [hname] at hm'
  rw [hfiles] at hm' hentry'
  obtain rfl := hleads.eq_of_locate (Files.of_makeDirectory t.makes).1 hm
  obtain rfl := hleads.eq_of_locate (Files.of_makeDirectory t'.makes).1 hm'
  have hsame := (Files.sameBelow_made t.makes t'.makes).lay t.files (Path.ofText t.name).names
  rw [Files.lookup_of_file hentry, Files.lookup_of_file hentry'] at hsame
  exact Entry.file.inj (Option.some.inj hsame)

/-- What is read of an archive inside the directory is told by the bytes of its file. -/
theorem bytes_unique (hlibrary : host'.library = host.library) (hread : fs.read p = .ok b)
    (hread' : fs'.read p = .ok b) (hinward : Inward host.library p b)
    (h : bytes host fs p = .ok content) (h' : bytes host' fs' p = .ok content') :
    content' = content := by
  cases hformat : format? p with
  | none =>
      -- then it is a text file, and its bytes are what is read
      have hsuffix : p.suffix = ".txt".toList := by
        by_contra hsuffix
        rw [bytes, load, if_neg hsuffix, Source.format, hformat] at h
        cases h
      rw [bytes_of_text hsuffix, contentAt_eq_ok_iff] at h h'
      rw [hread] at h
      rw [hread'] at h'
      obtain rfl := Except.ok.inj h
      exact (Except.ok.inj h').symm
  | some format =>
      obtain ⟨t⟩ := exists_taken hformat h
      obtain ⟨t'⟩ := exists_taken hformat h'
      have hopens : host.library format b = .ok t.archive := t.file_eq hread ▸ t.opens
      exact t.unique t' hlibrary ((t'.file_eq hread').trans (t.file_eq hread).symm)
        (hinward format t.archive t.name hformat hopens t.first)

theorem expressions_unique {es es' : List Text} (hlibrary : host'.library = host.library)
    (hread : fs.read p = .ok b) (hread' : fs'.read p = .ok b)
    (hinward : Inward host.library p b) (h : expressions host fs p = .ok es)
    (h' : expressions host' fs' p = .ok es') : es' = es := by
  obtain ⟨content, hbytes, hes⟩ := exists_bytes_of_expressions h
  obtain ⟨content', hbytes', hes'⟩ := exists_bytes_of_expressions h'
  obtain rfl := bytes_unique hlibrary hread hread' hinward hbytes hbytes'
  exact Except.ok.inj (hes'.symm.trans hes)

end Source

end Reckon
