import Mathlib.Data.List.Nodup
import Reckon.Proofs.Suffixes

/-!
# Where the results of a file go

The results of a file go beside it, under its name with underscores for the dots of its
suffixes. The name is cut by the length of all its suffixes, so it has to be seen that the
cut lies at the first dot that counts (`results_eq`, from `exists_first_piece`): then no dot
is changed in front of the cut, none is left behind it, and no character is lost.

Hence the name of a results file tells the name of its input file but for dots and
underscores (`underscored_eq_of_results`). So files that differ only in the suffix of their
format do not overwrite each other's results.
-/

namespace Reckon

namespace FileName

/-- An underscore in place of a dot. -/
def undotted (c : Char) : Char := if c = '.' then '_' else c

/-- The name with an underscore in place of every dot. -/
def underscored (name : Text) : Text := name.map undotted

/-- How many dots stand in front of everything else. -/
def leadingDots (name : Text) : Nat := (name.takeWhile (· = '.')).length

/-- The name of the results file without its ending. -/
def resultsStem (name : Text) : Text :=
  if name.getLast? = some '.' then name
  else name.takeWhile (· = '.') ++ underscored (name.dropWhile (· = '.'))

theorem underscored_append (t t' : Text) :
    underscored (t ++ t') = underscored t ++ underscored t' :=
  List.map_append

theorem underscored_of_no_dot {t : Text} (h : '.' ∉ t) : underscored t = t := by
  refine (List.map_congr_left fun c hc => ?_).trans (List.map_id t)
  have hne : c ≠ '.' := fun heq => h (heq ▸ hc)
  exact if_neg hne

theorem undotted_undotted (c : Char) : undotted (undotted c) = undotted c := by
  by_cases hc : c = '.'
  · rw [hc]
    rfl
  · have hkept : undotted c = c := if_neg hc
    rw [hkept, hkept]

/-- The cut by the length of the suffixes lies at the first dot that counts. -/
theorem results_eq (name : Text) : results name = resultsStem name ++ "_results.txt".toList := by
  have hresults : results name = name.take (name.length - (extension name).length)
      ++ underscored (extension name) ++ "_results.txt".toList := by
    rw [← flatten_suffixes]
    rfl
  rw [hresults, resultsStem]
  congr 1
  split
  case isTrue hend =>
    rw [extension, if_pos hend, List.length_nil, Nat.sub_zero, List.take_length]
    exact List.append_nil name
  case isFalse hend =>
    obtain ⟨piece, hpiece, hrest⟩ := exists_first_piece hend
    have hname : name = (name.takeWhile (· = '.') ++ piece) ++ extension name := by
      rw [List.append_assoc, ← hrest, List.takeWhile_append_dropWhile]
    have hlength := congrArg List.length hname
    rw [List.length_append] at hlength
    have hcut : name.take (name.length - (extension name).length)
        = name.takeWhile (· = '.') ++ piece :=
      (congrArg (List.take _) hname).trans (List.take_left' (by omega))
    rw [hcut, hrest, underscored_append, underscored_of_no_dot hpiece, List.append_assoc]

theorem length_resultsStem (name : Text) : (resultsStem name).length = name.length := by
  rw [resultsStem]
  split
  · rfl
  · rw [List.length_append, underscored, List.length_map, ← List.length_append,
      List.takeWhile_append_dropWhile]

theorem underscored_resultsStem (name : Text) :
    underscored (resultsStem name) = underscored name := by
  have hidem : undotted ∘ undotted = undotted := funext undotted_undotted
  rw [resultsStem]
  split
  · rfl
  · rw [underscored_append, underscored, underscored, underscored, List.map_map, hidem,
      ← List.map_append, List.takeWhile_append_dropWhile]
    rfl

theorem getElem?_resultsStem (name : Text) (i : Nat) : (resultsStem name)[i]? =
    if name.getLast? ≠ some '.' ∧ leadingDots name ≤ i ∧ name[i]? = some '.' then some '_'
    else name[i]? := by
  rw [resultsStem]
  by_cases hend : name.getLast? = some '.'
  · rw [if_pos hend, if_neg fun h => h.1 hend]
  rw [if_neg hend]
  have hname := List.takeWhile_append_dropWhile (p := (· = '.')) (l := name)
  by_cases hi : i < leadingDots name
  · have hget : (name.takeWhile (· = '.'))[i]? = name[i]? := by
      rw [← List.getElem?_append_left hi, hname]
    rw [List.getElem?_append_left hi, if_neg fun h => absurd h.2.1 (Nat.not_le.mpr hi), hget]
  · have hle : leadingDots name ≤ i := Nat.le_of_not_lt hi
    have hget : (name.dropWhile (· = '.'))[i - leadingDots name]? = name[i]? := by
      rw [leadingDots, ← List.getElem?_append_right hle, hname]
    rw [List.getElem?_append_right hle, underscored, List.getElem?_map, ← leadingDots, hget]
    by_cases hdot : name[i]? = some '.'
    · rw [if_pos ⟨hend, hle, hdot⟩, hdot]
      rfl
    · rw [if_neg fun h => hdot h.2.2]
      cases hc : name[i]? with
      | none => rfl
      | some c => exact congrArg some (if_neg fun heq => hdot (hc.trans (congrArg some heq)))

theorem underscored_eq_of_results {name name' : Text} (h : results name = results name') :
    underscored name = underscored name' := by
  rw [results_eq, results_eq] at h
  rw [← underscored_resultsStem name, List.append_cancel_right h, underscored_resultsStem]

end FileName

namespace Path

open FileName

/-- The path without its last name. -/
def folder (p : Path) : Path := { p with names := p.names.dropLast }

@[simp] theorem folder_withName (p : Path) (name : Text) : (p.withName name).folder = p.folder := by
  simp [folder, withName]

@[simp] theorem name_withName (p : Path) (name : Text) : (p.withName name).name = name := by
  simp [Path.name, withName]

theorem results?_eq_some_iff {p q : Path} :
    p.results? = some q ↔ p.name ≠ [] ∧ p.withName (results p.name) = q := by
  rw [results?]
  split
  case isTrue h => simp [h]
  case isFalse h => simp [h]

@[simp] theorem withName_withName (p : Path) (name name' : Text) :
    (p.withName name).withName name' = p.withName name' := by
  simp [withName]

theorem results_of_results? {p q : Path} (h : p.results? = some q) : q.name = results p.name := by
  obtain ⟨-, rfl⟩ := results?_eq_some_iff.mp h
  exact name_withName p _

/-- The endings of the names that a batch can be read from. -/
def inputEndings : List Text := [".txt".toList, ".zip".toList, ".7z".toList, ".tar.xz".toList]

theorem eq_of_underscored_ending :
    ∀ ending ∈ inputEndings, ∀ ending' ∈ inputEndings,
      underscored ending = underscored ending' → ending = ending' := by
  decide

theorem results?_ending (p : Path) (x : Text) {ending : Text} (h : ending ∈ inputEndings) :
    (p.withName (x ++ ending)).results? = some (p.withName (results (x ++ ending))) := by
  have hne : ending ≠ [] := by
    rintro rfl
    revert h
    decide
  have hname : (p.withName (x ++ ending)).name ≠ [] := by
    rw [name_withName]
    exact List.append_ne_nil_of_right_ne_nil x hne
  refine results?_eq_some_iff.mpr ⟨hname, ?_⟩
  rw [withName_withName, name_withName]

/-- Files that differ in their ending only have different results. -/
theorem nodup_results_endings (p : Path) (x : Text) :
    (inputEndings.map fun ending => p.withName (results (x ++ ending))).Nodup := by
  refine List.Nodup.map_on (fun ending h ending' h' heq => ?_) (by decide)
  have hnames := congrArg Path.name heq
  rw [name_withName, name_withName] at hnames
  have hunder := underscored_eq_of_results hnames
  rw [underscored_append, underscored_append] at hunder
  exact eq_of_underscored_ending ending h ending' h' (List.append_cancel_left hunder)

/-- **The results of a file go beside it, and over no other file's.** A path with a name has
a results path in the same folder, which is another path. Without its ending, the name of the
results is as long as that of the input and differs from it only in that the dots behind the
leading ones are underscores, and not even in that if the name ends with a dot. Two paths with
one results path lie in one folder, and their names are equal but for dots and underscores; so
one name with the four endings of an input has four results paths. -/
theorem results_beside {p : Path} (hp : p.name ≠ []) :
    ∃ q, p.results? = some q ∧ q.folder = p.folder ∧ q ≠ p
      ∧ (∃ stem, q.name = stem ++ "_results.txt".toList ∧ stem.length = p.name.length
        ∧ ∀ i, stem[i]? =
          if p.name.getLast? ≠ some '.' ∧ leadingDots p.name ≤ i ∧ p.name[i]? = some '.' then
            some '_'
          else p.name[i]?)
      ∧ (∀ p' : Path, p'.results? = some q →
        p'.folder = p.folder ∧ underscored p'.name = underscored p.name)
      ∧ ∀ x, ∃ qs : List Path, qs.Nodup
        ∧ inputEndings.map (fun ending => (p.withName (x ++ ending)).results?) = qs.map some := by
  have hresults : p.results? = some (p.withName (results p.name)) :=
    results?_eq_some_iff.mpr ⟨hp, rfl⟩
  refine ⟨_, hresults, folder_withName p _, fun heq => ?_, ⟨resultsStem p.name, ?_,
    length_resultsStem _, getElem?_resultsStem _⟩, fun p' hp' => ⟨?_, ?_⟩,
    fun x => ⟨_, nodup_results_endings p x, ?_⟩⟩
  · have hlength := congrArg (List.length ∘ Path.name) heq
    simp only [Function.comp_apply, name_withName, results_eq, List.length_append,
      length_resultsStem] at hlength
    exact absurd hlength (by simp)
  · rw [name_withName, results_eq]
  · obtain ⟨-, heq⟩ := results?_eq_some_iff.mp hp'
    rw [← folder_withName p (results p.name), ← heq, folder_withName]
  · refine underscored_eq_of_results ?_
    rw [← results_of_results? hp', name_withName]
  · rw [List.map_map]
    exact List.map_congr_left fun ending h => results?_ending p x h

/-- A hidden archive in a folder: its leading dots stay, so the file that is named without
them has other results. -/
theorem results_beside_hidden :
    ∃ q, (ofText "data/..ops.tar.xz".toList).results? = some q
      ∧ q.text = "data/..ops_tar_xz_results.txt".toList
      ∧ q ≠ ofText "data/..ops.tar.xz".toList ∧ q.folder = ofText "data".toList
      ∧ (ofText "data/ops.tar.xz".toList).results? ≠ some q := by
  obtain ⟨q, hq, hfolder, hne, -, hsame, -⟩ :=
    results_beside (p := ofText "data/..ops.tar.xz".toList) (by decide)
  refine ⟨q, hq, ?_, hne, hfolder.trans (by decide), fun h => ?_⟩
  · have htext : (ofText "data/..ops.tar.xz".toList).results?.map text
        = some "data/..ops_tar_xz_results.txt".toList := by decide
    rw [hq] at htext
    exact Option.some.inj htext
  · exact absurd (hsame _ h).2 (by decide)

end Path

end Reckon
