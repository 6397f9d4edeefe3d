import Mathlib.Data.List.TakeWhile
import Reckon.Source

/-!
# The suffixes of a name, without cutting it up

The suffixes of a name are found by dropping the dots in front and splitting the rest at
its dots, and the last suffix by a search from the end. Neither says at once what the
suffixes are as a part of the name, and the two do not agree on a name with several dots
in front: `..txt` has the last suffix `.txt`, and no suffixes at all.

Here each is put as a statement about the two ends of the name. All suffixes together
are the name from its first dot on (`flatten_suffixes`), where the dots in front do not
count. The last suffix is what the name ends in, behind at least one character
(`suffix_eq_iff`). The last two are what it ends in, behind something that is not all
dots (`drop_suffixes_eq_iff`).
-/

namespace Reckon.FileName

/-- The part of a name from its first dot on, where dots in front of everything else do
not count. A name that ends with a dot has no such part. -/
def extension (name : Text) : Text :=
  if name.getLast? = some '.' then [] else (name.dropWhile (· = '.')).dropWhile (· ≠ '.')

/-! ## All suffixes -/

theorem flatten_map_cons {α : Type} (x : α) : ∀ {ls : List (List α)}, ls ≠ [] →
    (ls.map (x :: ·)).flatten = x :: [x].intercalate ls
  | [], h => absurd rfl h
  | [l], _ => by simp
  | l :: l' :: ls, _ => by
      rw [List.map_cons, List.flatten_cons, flatten_map_cons x (List.cons_ne_nil l' ls),
        List.intercalate_cons_cons, List.cons_append, List.append_assoc, List.singleton_append]

theorem dropWhile_ne_dot {before : Text} (h : '.' ∉ before) (after : Text) :
    (before ++ '.' :: after).dropWhile (· ≠ '.') = '.' :: after := by
  have hall : ∀ c ∈ before, decide (c ≠ '.') = true := by
    intro c hc
    exact decide_eq_true fun heq => h (heq ▸ hc)
  rw [List.dropWhile_append_of_pos hall]
  rfl

/-- The pieces behind the first dot, each with its dot, are the rest of the text. -/
theorem flatten_pieces (t : Text) :
    (((List.splitOn '.' t).drop 1).map ('.' :: ·)).flatten = t.dropWhile (· ≠ '.') := by
  by_cases hdot : '.' ∈ t
  · obtain ⟨before, after, rfl, hbefore⟩ := List.eq_append_cons_of_mem hdot
    rw [List.splitOn_append_cons_self_of_not_mem hbefore, List.drop_one, List.tail_cons,
      flatten_map_cons _ (List.splitOn_ne_nil _ _), List.intercalate_splitOn,
      dropWhile_ne_dot hbefore]
  · have hnone : t.dropWhile (· ≠ '.') = [] := by
      refine List.dropWhile_eq_nil_iff.mpr fun c hc => ?_
      exact decide_eq_true fun heq => hdot (heq ▸ hc)
    rw [List.splitOn_eq_singleton hdot, hnone]
    rfl

theorem flatten_suffixes (name : Text) : (suffixes name).flatten = extension name := by
  rw [suffixes, extension]
  split
  · rfl
  · exact flatten_pieces _

/-- Behind its leading dots, a name that does not end with a dot is its first piece and
its suffixes. -/
theorem exists_first_piece {name : Text} (h : name.getLast? ≠ some '.') :
    ∃ piece, '.' ∉ piece ∧ name.dropWhile (· = '.') = piece ++ extension name := by
  refine ⟨(name.dropWhile (· = '.')).takeWhile (· ≠ '.'), fun hdot => ?_, ?_⟩
  · have hne := List.mem_takeWhile_imp (p := fun c : Char => decide (c ≠ '.')) hdot
    exact of_decide_eq_true hne rfl
  · rw [extension, if_neg h, List.takeWhile_append_dropWhile]

/-! ## The last suffix -/

theorem fromLastDot_append {l : Text} (hl : '.' ∉ l) (before : Text) :
    fromLastDot (before ++ '.' :: l) = '.' :: l := by
  have hall : ∀ c ∈ l.reverse, decide (c ≠ '.') = true := by
    intro c hc
    exact decide_eq_true fun h => hl (h ▸ List.mem_reverse.mp hc)
  rw [fromLastDot, List.reverse_append, List.reverse_cons, List.append_assoc,
    List.takeWhile_append_of_pos hall]
  simp

theorem exists_last_dot {t : Text} (h : '.' ∈ t) :
    ∃ before l, t = before ++ '.' :: l ∧ '.' ∉ l := by
  obtain ⟨as, bs, hrev, has⟩ := List.eq_append_cons_of_mem (List.mem_reverse.mpr h)
  refine ⟨bs.reverse, as.reverse, ?_, by simpa using has⟩
  rw [← List.reverse_reverse t, hrev]
  simp

theorem suffix_append {before l : Text} (hbefore : before ≠ []) (hl : '.' ∉ l) (hne : l ≠ []) :
    suffix (before ++ '.' :: l) = '.' :: l := by
  have hpos : 0 < before.length := List.length_pos_iff.mpr hbefore
  have hlpos : 0 < l.length := List.length_pos_iff.mpr hne
  rw [suffix, fromLastDot_append hl, if_pos]
  refine ⟨by simp, ?_, ?_⟩
  · simp only [List.length_append, List.length_cons]
    omega
  · rw [List.length_cons]
    omega

/-- The last one of all suffixes is the suffix. -/
theorem getLast?_suffixes {name : Text} (h : suffixes name ≠ []) :
    (suffixes name).getLast? = some (suffix name) := by
  unfold suffixes at h ⊢
  split at h
  case isTrue => exact absurd rfl h
  case isFalse hend =>
    rw [if_neg hend]
    by_cases hdot : '.' ∈ name.dropWhile (· = '.')
    · obtain ⟨before, l, hsplit, hl⟩ := exists_last_dot hdot
      have hname : name = (name.takeWhile (· = '.') ++ before) ++ '.' :: l := by
        rw [List.append_assoc, ← hsplit, List.takeWhile_append_dropWhile]
      have hbefore : before ≠ [] := by
        rintro rfl
        have hhead := List.head?_dropWhile_not (fun c : Char => decide (c = '.')) name
        rw [hsplit] at hhead
        simp at hhead
      have hne : l ≠ [] := by
        rintro rfl
        rw [hname] at hend
        simp at hend
      have hpieces := List.splitOn_ne_nil '.' before
      have hsuffix : suffix name = '.' :: l := by
        rw [hname]
        exact suffix_append (List.append_ne_nil_of_right_ne_nil _ hbefore) hl hne
      rw [hsuffix, hsplit, List.splitOn_append_cons_self, List.splitOn_eq_singleton hl,
        List.drop_append_of_le_length (List.length_pos_iff.mpr hpieces)]
      simp
    · rw [List.splitOn_eq_singleton hdot] at h
      exact absurd rfl h

theorem suffix_eq_iff {name l : Text} (hl : '.' ∉ l) (hne : l ≠ []) :
    suffix name = '.' :: l ↔ ∃ stem, stem ≠ [] ∧ name = stem ++ '.' :: l := by
  constructor
  · intro h
    rw [suffix] at h
    split at h
    case isFalse => cases h
    case isTrue hcond =>
      obtain ⟨hdot, hlength, -⟩ := hcond
      obtain ⟨before, l', hname, hl'⟩ := exists_last_dot hdot
      rw [hname, fromLastDot_append hl'] at h hlength
      obtain ⟨-, rfl⟩ := List.cons.inj h
      refine ⟨before, ?_, hname⟩
      rintro rfl
      exact absurd hlength (Nat.lt_irrefl _)
  · rintro ⟨stem, hstem, rfl⟩
    exact suffix_append hstem hl hne

/-! ## The last two suffixes -/

theorem dropWhile_append_of_mem {stem : Text} (h : ∃ c ∈ stem, c ≠ '.') (t : Text) :
    (stem ++ t).dropWhile (· = '.') = stem.dropWhile (· = '.') ++ t := by
  obtain ⟨c, hc, hne⟩ := h
  have hsome : ¬(stem.dropWhile (· = '.')).isEmpty = true := by
    rw [List.isEmpty_iff, List.dropWhile_eq_nil_iff]
    intro hall
    exact hne (of_decide_eq_true (hall c hc))
  rw [List.dropWhile_append, if_neg hsome]

/-- Behind its leading dots, a text does not begin with a dot. -/
theorem exists_ne_of_dropWhile {name stem t : Text}
    (h : name.dropWhile (· = '.') = stem ++ '.' :: t) : ∃ c ∈ stem, c ≠ '.' := by
  have hhead := List.head?_dropWhile_not (fun c : Char => decide (c = '.')) name
  cases stem with
  | nil =>
      rw [h] at hhead
      simp at hhead
  | cons c stem =>
      rw [h] at hhead
      exact ⟨c, List.mem_cons_self .., of_decide_eq_false hhead⟩

theorem drop_suffixes_eq_iff {name l l' : Text} (hl : '.' ∉ l) (hl' : '.' ∉ l') (hne : l' ≠ []) :
    (suffixes name).drop ((suffixes name).length - 2) = ['.' :: l, '.' :: l'] ↔
      ∃ stem, name = stem ++ ('.' :: l ++ '.' :: l') ∧ ∃ c ∈ stem, c ≠ '.' := by
  constructor
  · intro h
    have hend : name.getLast? ≠ some '.' := by
      intro hend
      rw [suffixes, if_pos hend] at h
      cases h
    obtain ⟨init, hinit⟩ : ∃ init, suffixes name = init ++ ['.' :: l, '.' :: l'] :=
      ⟨_, by rw [← h, List.take_append_drop]⟩
    obtain ⟨piece, -, hrest⟩ := exists_first_piece hend
    rw [← flatten_suffixes, hinit] at hrest
    replace hrest : name.dropWhile (· = '.')
        = (piece ++ init.flatten) ++ '.' :: (l ++ '.' :: l') := by
      rw [hrest]
      simp
    obtain ⟨c, hc, hne⟩ := exists_ne_of_dropWhile hrest
    refine ⟨name.takeWhile (· = '.') ++ _, ?_, c, List.mem_append_right _ hc, hne⟩
    have hname := List.takeWhile_append_dropWhile (p := (· = '.')) (l := name)
    rw [hrest] at hname
    simpa using hname.symm
  · rintro ⟨stem, rfl, hstem⟩
    have hend : (stem ++ ('.' :: l ++ '.' :: l')).getLast? ≠ some '.' := by
      intro hend
      rw [← List.append_assoc, List.append_cons, List.getLast?_append,
        List.getLast?_eq_some_getLast hne] at hend
      exact hl' (Option.some.inj hend ▸ List.getLast_mem hne)
    have hfirst : 1 ≤ (List.splitOn '.' (stem.dropWhile (· = '.'))).length :=
      List.length_pos_iff.mpr (List.splitOn_ne_nil _ _)
    rw [suffixes, if_neg hend, dropWhile_append_of_mem hstem,
      ← List.append_assoc, List.splitOn_append_cons_self, List.splitOn_append_cons_self,
      List.splitOn_eq_singleton hl, List.splitOn_eq_singleton hl', List.append_assoc,
      List.drop_append_of_le_length hfirst]
    simp

end Reckon.FileName

namespace Reckon.Source

/-- The name of an archive is not that of a text file. -/
theorem suffix_ne_of_format? {p : Path} {format : Archive.Format} (h : format? p = some format) :
    p.suffix ≠ ".txt".toList := by
  unfold format? at h
  split at h
  case isTrue hpair =>
    have hlast : p.suffixes.getLast? = some ".xz".toList := by
      have hdrop := congrArg List.getLast? hpair
      rw [List.getLast?_drop] at hdrop
      split at hdrop
      · cases hdrop
      · exact hdrop
    have hne : p.suffixes ≠ [] := by
      intro hnil
      rw [hnil] at hlast
      cases hlast
    have hsuffix := FileName.getLast?_suffixes hne
    rw [← Path.suffixes, hlast] at hsuffix
    rw [Path.suffix, ← Option.some.inj hsuffix]
    decide
  case isFalse =>
    split at h
    case isTrue hzip =>
      rw [hzip]
      decide
    case isFalse =>
      split at h
      case isTrue hseven =>
        rw [hseven]
        decide
      case isFalse => cases h

end Reckon.Source
