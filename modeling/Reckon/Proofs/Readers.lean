import Reckon.Proofs.Unpacking

/-!
# The name of a file decides how it is read

Whether a file is a text or an archive, and of which format, is decided by two rules for
suffixes that do not agree with each other (`Reckon.Proofs.Suffixes`), and that are tried
one after the other. Here the decision is put as plain conditions on how the name ends
(`format?_eq`, `text_of_name`). The name also decides that a file is not read at all: then
the fault is the same whatever the files are, so no file has a part in it.
-/

namespace Reckon

namespace FileName

/-- The name ends in `ending`, behind at least one character. -/
def EndsIn (ending name : Text) : Prop :=
  ∃ stem, stem ≠ [] ∧ name = stem ++ ending

/-- The name ends in `ending`, behind something that is not all dots. -/
def EndsInBehindName (ending name : Text) : Prop :=
  ∃ stem, name = stem ++ ending ∧ ∃ c ∈ stem, c ≠ '.'

theorem endsIn_iff {ending name : Text} : EndsIn ending name ↔ ending <:+ name ∧ name ≠ ending := by
  constructor
  · rintro ⟨stem, hstem, rfl⟩
    refine ⟨List.suffix_append stem ending, fun h => hstem ?_⟩
    exact List.self_eq_append_left.mp h.symm
  · rintro ⟨⟨stem, rfl⟩, hne⟩
    refine ⟨stem, ?_, rfl⟩
    rintro rfl
    exact hne rfl

theorem endsInBehindName_iff {ending name : Text} : EndsInBehindName ending name ↔
    ending <:+ name ∧ (name.take (name.length - ending.length)).any (· ≠ '.') = true := by
  simp only [List.any_eq_true, decide_eq_true_eq]
  constructor
  · rintro ⟨stem, rfl, hstem⟩
    refine ⟨List.suffix_append stem ending, ?_⟩
    rwa [List.length_append, Nat.add_sub_cancel, List.take_left]
  · rintro ⟨⟨stem, rfl⟩, hstem⟩
    rw [List.length_append, Nat.add_sub_cancel, List.take_left] at hstem
    exact ⟨stem, rfl, hstem⟩

instance (ending name : Text) : Decidable (EndsIn ending name) :=
  decidable_of_iff' _ endsIn_iff

instance (ending name : Text) : Decidable (EndsInBehindName ending name) :=
  decidable_of_iff' _ endsInBehindName_iff

end FileName

namespace Source

open FileName

theorem suffix_txt_iff (p : Path) :
    p.suffix = ".txt".toList ↔ EndsIn ".txt".toList p.name :=
  suffix_eq_iff (l := ['t', 'x', 't']) (by decide) (by decide)

theorem format?_eq (p : Path) : format? p =
    if EndsInBehindName ".tar.xz".toList p.name then some .tarXz
    else if EndsIn ".zip".toList p.name then some .zip
    else if EndsIn ".7z".toList p.name then some .sevenZip
    else none := by
  have htar : p.suffixes.drop (p.suffixes.length - 2) = [".tar".toList, ".xz".toList] ↔
      EndsInBehindName ".tar.xz".toList p.name :=
    @drop_suffixes_eq_iff p.name ['t', 'a', 'r'] ['x', 'z'] (by decide) (by decide) (by decide)
  have hzip : p.suffix = ".zip".toList ↔ EndsIn ".zip".toList p.name :=
    suffix_eq_iff (l := ['z', 'i', 'p']) (by decide) (by decide)
  have hseven : p.suffix = ".7z".toList ↔ EndsIn ".7z".toList p.name :=
    suffix_eq_iff (l := ['7', 'z']) (by decide) (by decide)
  rw [format?]
  simp only [htar, hzip, hseven]

/-- The text of a file that is read as it is. -/
def plainText (fs : Files) (p : Path) : Except Fault Text := do
  decoded (← contentAt fs p)

/-- The text that a file holds as an archive of this format. -/
def archiveText (host : Host) (fs : Files) (p : Path) (format : Archive.Format) :
    Except Fault Text := do
  decoded (← (archiveBytes host fs p format).2)

theorem text_of_plain (host : Host) (fs : Files) {p : Path} (h : EndsIn ".txt".toList p.name) :
    text host fs p = plainText fs p := by
  rw [text, bytes_of_text ((suffix_txt_iff p).mpr h), plainText]

theorem text_of_archive (host : Host) (fs : Files) {p : Path} {f : Archive.Format}
    (h : format? p = some f) : text host fs p = archiveText host fs p f := by
  rw [text, bytes_of_format h, archiveText]

theorem text_of_unsupported (host : Host) (fs : Files) {p : Path}
    (htxt : ¬EndsIn ".txt".toList p.name) (h : format? p = none) :
    text host fs p = .error (.unsupported (extension p.name)) := by
  rw [text, bytes, load, if_neg (mt (suffix_txt_iff p).mp htxt), format, h, ← flatten_suffixes]
  rfl

/-- **The name decides how a file is read.** It is read as a text if its name ends in `.txt`
behind at least one character; otherwise as an archive, by the first of these that holds:
the name ends in `.tar.xz` behind something that is not all dots, or it ends in `.zip`, or in
`.7z`, behind at least one character. In any other case there is no text, whatever the files
are, and the message ends with the part of the name from its first dot on, where leading dots
do not count. -/
theorem text_of_name (p : Path) :
    (∀ host fs, text host fs p =
      if EndsIn ".txt".toList p.name then plainText fs p
      else if EndsInBehindName ".tar.xz".toList p.name then archiveText host fs p .tarXz
      else if EndsIn ".zip".toList p.name then archiveText host fs p .zip
      else if EndsIn ".7z".toList p.name then archiveText host fs p .sevenZip
      else .error (.unsupported (extension p.name)))
      ∧ (Fault.unsupported (extension p.name)).message
        = "📄❌ Unsupported archive format: ".toList ++ extension p.name := by
  refine ⟨fun host fs => ?_, rfl⟩
  by_cases htxt : EndsIn ".txt".toList p.name
  · rw [if_pos htxt, text_of_plain host fs htxt]
  rw [if_neg htxt]
  have hformat := format?_eq p
  split at hformat
  case isTrue htar => rw [if_pos htar, text_of_archive host fs hformat]
  case isFalse htar =>
    rw [if_neg htar]
    split at hformat
    case isTrue hzip => rw [if_pos hzip, text_of_archive host fs hformat]
    case isFalse hzip =>
      rw [if_neg hzip]
      split at hformat
      case isTrue hseven => rw [if_pos hseven, text_of_archive host fs hformat]
      case isFalse hseven => rw [if_neg hseven, text_of_unsupported host fs htxt hformat]

/-- Dots in front do not keep a name from ending in `.zip`, but they do for `.tar.xz`. -/
example : format? (Path.ofText "..zip".toList) = some .zip
    ∧ format? (Path.ofText "..tar.xz".toList) = none
    ∧ FileName.extension "..tar.xz".toList = ".xz".toList := by decide

end Source

end Reckon
