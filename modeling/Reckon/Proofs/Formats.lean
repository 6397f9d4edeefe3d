import Mathlib.Data.List.Nodup
import Reckon.Proofs.Unpacking

/-!
# The format of the input does not matter

A batch reads its text from a file, or from an archive in one of three formats. What the
archives hold is known to libraries only. What is taken for granted of a library is said
here, for a file that is to hold some members (`Holds`): that it opens the file, that it
lists the members in their order (`Lists`), where a directory is not offered as a text
file, and that the name of a file gives out that file and nothing else, if no other member
has the name.

Then the formats come to the same: the text of an archive is the content of the first of
its files whose name ends with `.txt` (`IsFirstText`), and nothing that stands before or
after that file has a part in it. It is read at the place where it is unpacked, so its name
has to be a possible one that leads to a place inside the directory (`IsOrdinary`).
-/

namespace Reckon

/-! ## Members -/

namespace Archive

inductive Member where
  | file (name : Text) (content : Bytes)
  | directory (name : Text)
deriving DecidableEq, Repr

def Member.name : Member → Text
  | .file name _ => name
  | .directory name => name

/-- No file has a name that ends with `.txt`. -/
def HasNoText (members : List Member) : Prop :=
  ∀ name content, .file name content ∈ members → ¬".txt".toList <:+ name

/-- The first file whose name ends with `.txt` has this content. -/
def IsFirstText (members : List Member) (content : Bytes) : Prop :=
  ∃ before name after, members = before ++ .file name content :: after
    ∧ ".txt".toList <:+ name ∧ HasNoText before

/-- A format lists members: the files under their names and in their order, and perhaps
something about a directory, which is told apart from a file or does not end with
`.txt`. -/
inductive Lists (format : Format) : List Member → List Listed → Prop where
  | nil : Lists format [] []
  | file {members : List Member} {listing : List Listed} (name : Text) (content : Bytes)
    (h : Lists format members listing) :
    Lists format (.file name content :: members) (⟨name, true⟩ :: listing)
  | omitted {members : List Member} {listing : List Listed} (name : Text)
    (h : Lists format members listing) : Lists format (.directory name :: members) listing
  | directory {members : List Member} {listing : List Listed} (name : Text) (listed : Listed)
    (hlisted : (format = .tarXz ∧ listed.isFile = false) ∨ ¬".txt".toList <:+ listed.name)
    (h : Lists format members listing) :
    Lists format (.directory name :: members) (listed :: listing)

/-- The library takes the bytes for an archive of these members. -/
structure Holds (library : Library) (format : Format) (b : Bytes) (members : List Member)
    (archive : Opened) : Prop where
  opens : library format b = .ok archive
  lists : Lists format members archive.listing
  unpacks : ∀ name content, .file name content ∈ members →
    (members.map Member.name).count name = 1 →
    ∃ f, archive.unpack name = .ok [f] ∧ f.names = (Path.ofText name).names ∧ f.content = content

/-! ## What is looked for -/

theorem names_cons (archive : Opened) {listed : Listed} {listing : List Listed}
    (h : archive.listing = listed :: listing) (format : Format) :
    archive.names format
      = (if format = .tarXz ∧ listed.isFile = false then [] else [listed.name])
        ++ ({ archive with listing } : Opened).names format := by
  cases format with
  | zip => simp [Opened.names, h]
  | sevenZip => simp [Opened.names, h]
  | tarXz => cases hfile : listed.isFile <;> simp [Opened.names, h, hfile]

theorem firstText?_append {names : List Text} (h : ∀ name ∈ names, ¬".txt".toList <:+ name)
    (rest : List Text) : firstText? (names ++ rest) = firstText? rest := by
  rw [firstText?, List.find?_append, List.find?_eq_none.mpr, Option.none_or, firstText?]
  exact fun name hname => fun hsuffix => h name hname (List.isSuffixOf_iff_suffix.mp hsuffix)

theorem HasNoText.tail {m : Member} {members : List Member} (h : HasNoText (m :: members)) :
    HasNoText members := fun name content hmem => h name content (List.mem_cons_of_mem _ hmem)

/-- Among members without a text, no text is found. -/
theorem firstText?_of_noText {format : Format} {members : List Member} {listing : List Listed}
    (hlists : Lists format members listing) : ∀ archive : Opened, archive.listing = listing →
    HasNoText members → firstText? (archive.names format) = none := by
  induction hlists with
  | nil =>
      intro archive hlisting _
      cases format <;> simp [Opened.names, hlisting, firstText?]
  | file name content h ih =>
      intro archive hlisting hnone
      have hname := hnone name content (List.mem_cons_self ..)
      rw [names_cons archive hlisting, firstText?_append, ih _ rfl hnone.tail]
      intro name' hname'
      split at hname'
      · cases hname'
      · rwa [List.mem_singleton.mp hname']
  | omitted name h ih => exact fun archive hlisting hnone => ih archive hlisting hnone.tail
  | directory name listed hlisted h ih =>
      intro archive hlisting hnone
      rw [names_cons archive hlisting, firstText?_append, ih _ rfl hnone.tail]
      intro name' hname'
      split at hname'
      case isTrue => cases hname'
      case isFalse hfile =>
        rw [List.mem_singleton.mp hname']
        exact hlisted.resolve_left hfile

/-- The name of the first text is found. -/
theorem firstText?_of_first {format : Format} {name : Text} {content : Bytes}
    {after : List Member} (hname : ".txt".toList <:+ name) {members : List Member}
    {listing : List Listed} (hlists : Lists format members listing) :
    ∀ (archive : Opened) (before : List Member), archive.listing = listing →
      members = before ++ .file name content :: after → HasNoText before →
      firstText? (archive.names format) = some name := by
  induction hlists with
  | nil =>
      intro archive before _ hsplit
      cases before <;> cases hsplit
  | @file members listing name' content' h ih =>
      intro archive before hlisting hsplit hnone
      rw [names_cons archive hlisting, if_neg (fun hf => by cases hf.2)]
      cases before with
      | nil =>
          obtain ⟨rfl, rfl⟩ := Member.file.inj (List.cons.inj hsplit).1
          rw [List.singleton_append, firstText?, List.find?_cons_of_pos]
          exact List.isSuffixOf_iff_suffix.mpr hname
      | cons m before =>
          obtain ⟨rfl, hrest⟩ := List.cons.inj hsplit
          have hname' := hnone name' content' (List.mem_cons_self ..)
          rw [firstText?_append, ih _ before rfl hrest hnone.tail]
          intro t ht
          rwa [List.mem_singleton.mp ht]
  | omitted name' h ih =>
      intro archive before hlisting hsplit hnone
      cases before with
      | nil => cases (List.cons.inj hsplit).1
      | cons m before => exact ih archive before hlisting (List.cons.inj hsplit).2 hnone.tail
  | directory name' listed hlisted h ih =>
      intro archive before hlisting hsplit hnone
      cases before with
      | nil => cases (List.cons.inj hsplit).1
      | cons m before =>
          rw [names_cons archive hlisting, firstText?_append,
            ih _ before rfl (List.cons.inj hsplit).2 hnone.tail]
          intro t ht
          split at ht
          case isTrue => cases ht
          case isFalse hfile =>
            rw [List.mem_singleton.mp ht]
            exact hlisted.resolve_left hfile

/-! ## Ordinary names -/

/-- The name leads inward and can be given to a file: it has no null character, and none of
its parts is too long. -/
structure IsOrdinary (name : Text) : Prop extends Source.LeadsInward name where
  noNull : '\x00' ∉ name
  short : ∀ part ∈ (Path.ofText name).names, (Utf8.encode part).length ≤ Files.nameLimit

instance (name : Text) : Decidable (IsOrdinary name) :=
  decidable_of_iff ((Path.ofText name).anchor = []
    ∧ (∀ part ∈ (Path.ofText name).names, part ≠ Files.parentName)
    ∧ '\x00' ∉ name
    ∧ ∀ part ∈ (Path.ofText name).names, (Utf8.encode part).length ≤ Files.nameLimit)
    ⟨fun ⟨hrelative, hinward, hnull, hshort⟩ =>
      ⟨⟨hrelative, fun hpart => hinward _ hpart rfl⟩, hnull, hshort⟩,
    fun h => ⟨h.relative, fun _ hpart heq => h.inward (heq ▸ hpart), h.noNull, h.short⟩⟩

end Archive

/-! ## Names and paths -/

theorem mem_intercalate {sep : Text} {c : Char} : ∀ {ts : List Text},
    c ∈ sep.intercalate ts → c ∈ sep ∨ ∃ t ∈ ts, c ∈ t
  | [], h => by cases h
  | [t], h => by
      rw [List.intercalate_singleton] at h
      exact Or.inr ⟨t, List.mem_singleton_self t, h⟩
  | t :: t' :: ts, h => by
      rw [List.intercalate_cons_cons, List.append_assoc] at h
      rcases List.mem_append.mp h with h | h
      · exact Or.inr ⟨t, List.mem_cons_self .., h⟩
      rcases List.mem_append.mp h with h | h
      · exact Or.inl h
      · rcases mem_intercalate h with h | ⟨u, hu, hc⟩
        · exact Or.inl h
        · exact Or.inr ⟨u, List.mem_cons_of_mem _ hu, hc⟩

theorem mem_intercalate_of_mem (sep : Text) {c : Char} : ∀ {ts : List Text} {t : Text}, t ∈ ts →
    c ∈ t → c ∈ sep.intercalate ts
  | [], _, ht, _ => by cases ht
  | [u], t, ht, hc => by
      rw [List.intercalate_singleton]
      exact List.mem_singleton.mp ht ▸ hc
  | u :: u' :: ts, t, ht, hc => by
      rw [List.intercalate_cons_cons, List.append_assoc]
      rcases List.mem_cons.mp ht with rfl | ht
      · exact List.mem_append_left _ hc
      · exact List.mem_append_right _ (List.mem_append_right _ (mem_intercalate_of_mem sep ht hc))

namespace Path

/-- The names of a path that is read from a text are made of its characters. -/
theorem mem_of_mem_names {t name : Text} (h : name ∈ (ofText t).names) {c : Char} (hc : c ∈ name) :
    c ∈ t := by
  have hpiece : name ∈ List.splitOn '/' t := (List.mem_filter.mp h).1
  have hwhole : ['/'].intercalate (List.splitOn '/' t) = t := List.intercalate_splitOn '/'
  rw [← hwhole]
  exact mem_intercalate_of_mem ['/'] hpiece hc

theorem mem_text_of_mem {p : Path} {c : Char}
    (h : c ∈ p.anchor ∨ ∃ name ∈ p.names, c ∈ name) : c ∈ p.text := by
  have hne : ¬(p.anchor = [] ∧ p.names = []) := by
    rintro ⟨hanchor, hnames⟩
    rw [hanchor, hnames] at h
    rcases h with h | ⟨name, hname, -⟩
    · cases h
    · cases hname
  rw [text, if_neg hne]
  rcases h with h | ⟨name, hname, hc⟩
  · exact List.mem_append_left _ h
  · exact List.mem_append_right _ (mem_intercalate_of_mem _ hname hc)

/-- Further names that have no null character bring none into the text of a path. -/
theorem null_not_mem_text {p : Path} (h : '\x00' ∉ p.text) {names : List Text}
    (hnames : ∀ name ∈ names, '\x00' ∉ name) :
    '\x00' ∉ ({ p with names := p.names ++ names } : Path).text := by
  intro hnull
  rw [text] at hnull
  split at hnull
  case isTrue => simp at hnull
  case isFalse =>
    rcases List.mem_append.mp hnull with hmem | hmem
    · exact h (mem_text_of_mem (Or.inl hmem))
    rcases mem_intercalate hmem with hmem | ⟨name, hname, hc⟩
    · simp at hmem
    rcases List.mem_append.mp hname with hname | hname
    · exact h (mem_text_of_mem (Or.inr ⟨name, hname, hc⟩))
    · exact hnames name hname hc

end Path

/-! ## Reading -/

namespace Source

open Archive

/-- There is room for unpacking the members: a directory can be made, nothing is barred in
it, and the paths of files below it are not too long. -/
structure HasRoom (host : Host) (fs : Files) (members : List Member) (l : Location)
    (made : Files) : Prop where
  makes : fs.makeDirectory host.scratch = .ok (l, made)
  free : ∀ a k, l <+: k → fs.permits a k = true
  short : ∀ name content, .file name content ∈ members →
    (Utf8.encode (host.scratch.join (Path.ofText name)).text).length ≤ Files.pathLimit

section

variable {host : Host} {fs : Files} {p : Path} {format : Format} {b : Bytes}
  {members : List Member} {archive : Opened} {l : Location} {made : Files}

theorem bytes_of_holds (hformat : format? p = some format) (hread : fs.read p = .ok b)
    (hholds : Holds host.library format b members archive) (room : HasRoom host fs members l made) :
    bytes host fs p = match unpacked archive format with
      | .error f => .error f
      | .ok (name, files) =>
        contentAt (made.lay l files) (host.scratch.join (Path.ofText name)) :=
  bytes_of_opened hformat room.makes
    ((Files.read_made room.makes (Files.find_of_read hread)).trans hread) hholds.opens

theorem bytes_of_noText (hformat : format? p = some format) (hread : fs.read p = .ok b)
    (hholds : Holds host.library format b members archive) (room : HasRoom host fs members l made)
    (hnone : HasNoText members) : bytes host fs p = .error (.noText format) := by
  rw [bytes_of_holds hformat hread hholds room, unpacked,
    firstText?_of_noText hholds.lists archive rfl hnone]

theorem bytes_of_first (hformat : format? p = some format) (hread : fs.read p = .ok b)
    (hholds : Holds host.library format b members archive) (room : HasRoom host fs members l made)
    (hdistinct : (members.map Member.name).Nodup)
    (hordinary : ∀ m ∈ members, IsOrdinary m.name) {content : Bytes}
    (hfirst : IsFirstText members content) : bytes host fs p = .ok content := by
  obtain ⟨before, name, after, hsplit, hname, hbefore⟩ := hfirst
  have hmem : .file name content ∈ members :=
    hsplit ▸ List.mem_append_right _ (List.mem_cons_self ..)
  have hord : IsOrdinary name := hordinary _ hmem
  obtain ⟨f, hunpack, hnames, hcontent⟩ := hholds.unpacks name content hmem
    (List.count_eq_one_of_mem hdistinct (List.mem_map.mpr ⟨_, hmem, rfl⟩))
  have hunpacked : unpacked archive format = .ok (name, [f]) :=
    unpacked_eq_ok_iff.mpr
      ⟨firstText?_of_first hname hholds.lists archive before rfl hsplit hbefore, hunpack⟩
  have hjoin : host.scratch.join (Path.ofText name)
      = { host.scratch with names := host.scratch.names ++ f.names } := by
    rw [hnames]
    exact if_pos hord.relative
  have hpossible : Files.IsPossible
      { host.scratch with names := host.scratch.names ++ f.names } := by
    refine ⟨Path.null_not_mem_text ?_ fun part hpart hnull => ?_, ?_⟩
    · intro hnull
      have hlocate := (Files.of_makeDirectory room.makes).1
      rw [Files.locate, if_pos hnull] at hlocate
      cases hlocate
    · exact hord.noNull (Path.mem_of_mem_names (hnames ▸ hpart) hnull)
    · rw [← hjoin]
      exact room.short name content hmem
  rw [bytes_of_holds hformat hread hholds room, hunpacked]
  dsimp only
  rw [hjoin, contentAt_eq_ok_iff, ← hcontent]
  exact Files.read_unpacked room.makes room.free f.isInside.1 f.isInside.2
    (hnames ▸ hord.short) hpossible f.content

end

theorem bytes_of_plain {host : Host} {fs : Files} {p : Path} {content : Bytes}
    (hsuffix : p.suffix = ".txt".toList) (hread : fs.read p = .ok content) :
    bytes host fs p = .ok content := by
  rw [bytes_of_text hsuffix, contentAt_eq_ok_iff]
  exact hread

/-- **The formats agree.** Let a file be an archive, as a library takes it, whose members
have distinct, ordinary names, and let there be room for unpacking. Then everything is read
of it as from a text file with the content of its first text file: the same text, the same
expressions, the same fault of the encoding, whatever the format and the other members. An
archive without a text file has no text in any format, and the fault names the format. -/
theorem text_of_format {host : Host} {fs : Files} {p : Path} {format : Format} {b : Bytes}
    {members : List Member} {archive : Opened} {l : Location} {made : Files}
    (hformat : format? p = some format) (hread : fs.read p = .ok b)
    (hholds : Holds host.library format b members archive) (room : HasRoom host fs members l made)
    (hdistinct : (members.map Member.name).Nodup)
    (hordinary : ∀ m ∈ members, IsOrdinary m.name) :
    (∀ content, IsFirstText members content →
        text host fs p = decoded content
          ∧ ∀ host' fs' p', p'.suffix = ".txt".toList → fs'.read p' = .ok content →
            text host fs p = text host' fs' p' ∧ expressions host fs p = expressions host' fs' p')
      ∧ (HasNoText members →
        text host fs p = .error (.noText format) ∧ expressions host fs p = .error (.noText format)
          ∧ (Fault.noText format).message
            = "📄❌ No .txt file found in ".toList ++ format.suffix ++ " archive".toList) := by
  constructor
  · intro content hfirst
    have hbytes := bytes_of_first hformat hread hholds room hdistinct hordinary hfirst
    have htext := text_of_bytes hbytes
    refine ⟨htext, fun host' fs' p' hsuffix hread' => ?_⟩
    have hsame : text host fs p = text host' fs' p' :=
      htext.trans (text_of_bytes (bytes_of_plain hsuffix hread')).symm
    exact ⟨hsame, by rw [expressions, expressions, hsame]⟩
  · intro hnone
    have htext := text_of_bytes_error (bytes_of_noText hformat hread hholds room hnone)
    refine ⟨htext, ?_, rfl⟩
    rw [expressions, htext]
    rfl

/-- A directory that is named like a text file, and a text file in a folder, behind a
file of another kind and in front of a second one; a byte of the first is no text. -/
def mixedMembers : List Member :=
  [.directory "list.txt".toList, .file "list.txt/notes.md".toList [0x39],
    .file "sums/list.txt".toList [0x31, 0x2B, 0x31, 0x0A, 0xFF], .file "late.txt".toList [0x32]]

/-- The bytes of an archive, and what is to be in it by itself. -/
def mixedFiles : Files where
  entries := [(["list.7z".toList], .file [0x37, 0x7A]),
    (["list.txt".toList], .file [0x31, 0x2B, 0x31, 0x0A, 0xFF])]

/-- The archive of the members, without their directory. -/
def mixedArchive : Opened where
  listing := [⟨"list.txt/notes.md".toList, true⟩, ⟨"sums/list.txt".toList, true⟩,
    ⟨"late.txt".toList, true⟩]
  unpack name :=
    if name = "list.txt/notes.md".toList then
      .ok [⟨["list.txt".toList, "notes.md".toList], [0x39], by decide⟩]
    else if name = "sums/list.txt".toList then
      .ok [⟨["sums".toList, "list.txt".toList], [0x31, 0x2B, 0x31, 0x0A, 0xFF], by decide⟩]
    else if name = "late.txt".toList then .ok [⟨["late.txt".toList], [0x32], by decide⟩]
    else .ok []

/-- A host with a library that knows the one archive. -/
def mixedHost : Host where
  processors := 8
  library format b :=
    if format = .sevenZip ∧ b = [0x37, 0x7A] then .ok mixedArchive else .error (notArchive format)
  scratch := Path.ofText "/unpacked".toList
  refusal? _ _ := none

theorem holds_mixed :
    Holds mixedHost.library .sevenZip [0x37, 0x7A] mixedMembers mixedArchive where
  opens := rfl
  lists := .omitted _ (.file _ _ (.file _ _ (.file _ _ .nil)))
  unpacks := by
    intro name content hmem _
    simp only [mixedMembers, List.mem_cons, List.not_mem_nil, or_false, reduceCtorEq, false_or,
      Member.file.injEq] at hmem
    rcases hmem with ⟨rfl, rfl⟩ | ⟨rfl, rfl⟩ | ⟨rfl, rfl⟩
    · exact ⟨_, rfl, by decide, rfl⟩
    · exact ⟨_, rfl, by decide, rfl⟩
    · exact ⟨_, rfl, by decide, rfl⟩

theorem text_of_format_sample :
    text mixedHost mixedFiles (Path.ofText "list.7z".toList)
        = text mixedHost mixedFiles (Path.ofText "list.txt".toList)
      ∧ text mixedHost mixedFiles (Path.ofText "list.7z".toList)
        = .error (.malformed ⟨4, [0xFF], .invalidStart⟩) := by
  have hformat : format? (Path.ofText "list.7z".toList) = some .sevenZip := by decide
  have hread : mixedFiles.read (Path.ofText "list.7z".toList) = .ok [0x37, 0x7A] := rfl
  have hplain : mixedFiles.read (Path.ofText "list.txt".toList)
      = .ok [0x31, 0x2B, 0x31, 0x0A, 0xFF] := rfl
  have hroom : HasRoom mixedHost mixedFiles mixedMembers [['/'], "unpacked".toList]
      (mixedFiles.insert [['/'], "unpacked".toList] .directory) := by
    refine ⟨rfl, fun _ _ _ => rfl, fun name content hmem => ?_⟩
    simp only [mixedMembers, List.mem_cons, List.not_mem_nil, or_false, reduceCtorEq, false_or,
      Member.file.injEq] at hmem
    rcases hmem with ⟨rfl, -⟩ | ⟨rfl, -⟩ | ⟨rfl, -⟩ <;> decide
  have hfirst : IsFirstText mixedMembers [0x31, 0x2B, 0x31, 0x0A, 0xFF] := by
    refine ⟨[.directory "list.txt".toList, .file "list.txt/notes.md".toList [0x39]], _, _, rfl,
      by decide, fun name content hmem => ?_⟩
    simp only [List.mem_cons, List.not_mem_nil, or_false, reduceCtorEq, false_or,
      Member.file.injEq] at hmem
    rw [hmem.1]
    decide
  obtain ⟨htext, hsame⟩ :=
    (text_of_format hformat hread holds_mixed hroom (by decide) (by decide)).1 _ hfirst
  exact ⟨(hsame mixedHost mixedFiles _ (by decide) hplain).1, htext.trans rfl⟩

end Source

end Reckon
