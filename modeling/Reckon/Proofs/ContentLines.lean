import Mathlib.Data.List.DropRight
import Reckon.Proofs.LineValues

/-!
# The lines of a batch, piece by piece

What a batch makes of a text is not changed by how its lines are ended or by the blanks in
it. A carriage return and the line feed after it are one boundary to `lines` and two to a
cut at every boundary (`pieces`), and a boundary at the end opens no line but a further
piece. The difference is made up of empty pieces, and a batch drops those. So
`contentLines` can be read off the pieces (`contentLines_eq_pieces`), and for pieces an
appended text is no trouble.

Everything else follows from that: at a boundary a text falls into two that are read by
themselves (`contentLines_append_boundary`), blanks in front of it and behind it make no
difference, boundary or not, and a line that begins and ends with something else
(`IsEntry`) is read back as it is.
-/

namespace Reckon.Text

/-! ## Pieces -/

/-- The text cut at every boundary, also between a carriage return and a line feed. -/
def pieces (t : Text) : List Text := t.splitOnP isLineBoundary

theorem pieces_of_isLine {t : Text} (h : t.IsLine) : pieces t = [t] :=
  List.splitOnP_eq_singleton h

theorem pieces_cons_boundary {c : Char} (hc : isLineBoundary c = true) (t : Text) :
    pieces (c :: t) = [] :: pieces t := by
  rw [pieces, List.splitOnP_cons_eq_if_modifyHead, if_pos hc, pieces]

theorem pieces_cons {c : Char} (hc : isLineBoundary c = false) (t : Text) :
    pieces (c :: t) = (c :: (pieces t).headD []) :: (pieces t).tail := by
  obtain ⟨p, ps, hp⟩ := List.exists_cons_of_ne_nil (List.splitOnP_ne_nil isLineBoundary t)
  rw [pieces, List.splitOnP_cons_eq_if_modifyHead, hc, if_neg Bool.false_ne_true, pieces, hp,
    List.modifyHead_cons, List.headD_cons, List.tail_cons]

theorem extendFirst_eq (c : Char) (ls : List Text) :
    extendFirst c ls = (c :: ls.headD []) :: ls.tail := by
  cases ls <;> rfl

/-- Whether there is an empty line at the front makes no difference. -/
theorem filter_hasContent_eq (ls : List Text) :
    ls.filter hasContent = (ls.headD [] :: ls.tail).filter hasContent := by
  cases ls <;> rfl

theorem filter_hasContent_congr {ls ps : List Text} (hhead : ls.headD [] = ps.headD [])
    (htail : ls.tail.filter hasContent = ps.tail.filter hasContent) :
    ls.filter hasContent = ps.filter hasContent := by
  rw [filter_hasContent_eq ls, filter_hasContent_eq ps, List.filter_cons, List.filter_cons, hhead,
    htail]

/-- The lines of a text are its pieces, but for empty ones. The first are told apart from
the others, so that a character in front goes to the same place in both. -/
theorem lines_pieces (t : Text) : (lines t).headD [] = (pieces t).headD []
    ∧ (lines t).tail.filter hasContent = (pieces t).tail.filter hasContent := by
  fun_induction lines t with
  | case1 => exact ⟨rfl, rfl⟩
  | case2 t ih =>
      have hrest := filter_hasContent_congr ih.1 ih.2
      rw [pieces_cons_boundary (by decide), pieces_cons_boundary (by decide)]
      exact ⟨rfl, hrest⟩
  | case3 c t hfeed hc ih =>
      have hrest := filter_hasContent_congr ih.1 ih.2
      rw [pieces_cons_boundary hc]
      exact ⟨rfl, hrest⟩
  | case4 c t hfeed hc ih =>
      rw [pieces_cons (by simpa using hc), extendFirst_eq, ih.1]
      exact ⟨rfl, ih.2⟩

theorem contentLines_eq_pieces (t : Text) :
    contentLines t = ((pieces t).filter hasContent).map trimmed := by
  obtain ⟨hhead, htail⟩ := lines_pieces t
  rw [contentLines_eq, filter_hasContent_congr hhead htail]

/-! ## Texts one behind the other -/

/-- At a boundary a text falls into two that are read by themselves, whatever stands in
front of the boundary and behind it. -/
theorem contentLines_append_boundary {b : Char} (hb : isLineBoundary b = true) (s t : Text) :
    contentLines (s ++ b :: t) = contentLines s ++ contentLines t := by
  rw [contentLines_eq_pieces, contentLines_eq_pieces, contentLines_eq_pieces, pieces,
    List.splitOnP_append_cons s t hb, List.filter_append, List.map_append, pieces, pieces]

theorem contentLines_cons_boundary {b : Char} (hb : isLineBoundary b = true) (t : Text) :
    contentLines (b :: t) = contentLines t :=
  contentLines_append_boundary hb [] t

theorem contentLines_of_isLine {l : Text} (h : l.IsLine) :
    contentLines l = if hasContent l then [trimmed l] else [] := by
  rw [contentLines_eq_pieces, pieces_of_isLine h, List.filter_cons]
  split <;> rfl

/-! ## Blanks -/

/-- The text is empty or has nothing but blanks, boundaries among them. -/
def IsBlanks (w : Text) : Prop := ∀ c ∈ w, isBlank c = true

theorem trimmed_cons_blank {c : Char} (hc : isBlank c = true) (t : Text) :
    trimmed (c :: t) = trimmed t := by
  rw [trimmed, trimmedBy, List.dropWhile_cons_of_pos hc, trimmed, trimmedBy]

theorem hasContent_cons_blank {c : Char} (hc : isBlank c = true) (t : Text) :
    hasContent (c :: t) = hasContent t := by
  rw [hasContent, List.any_cons, hc, Bool.not_true, Bool.false_or, hasContent]

theorem hasContent_append_blank {c : Char} (hc : isBlank c = true) (t : Text) :
    hasContent (t ++ [c]) = hasContent t := by
  rw [hasContent, List.any_append, List.any_cons, hc, List.any_nil, Bool.not_true, Bool.or_false,
    Bool.or_false, hasContent]

theorem trimmed_eq_rdropWhile (t : Text) :
    trimmed t = (t.dropWhile isBlank).rdropWhile isBlank := rfl

theorem trimmed_append_blank {c : Char} (hc : isBlank c = true) (t : Text) :
    trimmed (t ++ [c]) = trimmed t := by
  rw [trimmed_eq_rdropWhile, trimmed_eq_rdropWhile, List.dropWhile_append]
  split
  case isTrue h =>
    rw [List.isEmpty_iff.mp h, List.dropWhile_cons_of_pos hc]
    rfl
  case isFalse => rw [List.rdropWhile_concat_pos _ _ _ hc]

theorem contentLines_cons_blank {c : Char} (hc : isBlank c = true) (t : Text) :
    contentLines (c :: t) = contentLines t := by
  cases hb : isLineBoundary c with
  | true => exact contentLines_cons_boundary hb t
  | false =>
      rw [contentLines_eq_pieces, contentLines_eq_pieces, pieces_cons hb,
        filter_hasContent_eq (pieces t), List.filter_cons, List.filter_cons,
        hasContent_cons_blank hc]
      split
      · rw [List.map_cons, List.map_cons, trimmed_cons_blank hc]
      · rfl

theorem contentLines_blanks_append {w : Text} (hw : w.IsBlanks) (t : Text) :
    contentLines (w ++ t) = contentLines t := by
  induction w with
  | nil => rfl
  | cons c w ih =>
      obtain ⟨hc, hw⟩ := List.forall_mem_cons.mp hw
      rw [List.cons_append, contentLines_cons_blank hc, ih hw]

theorem contentLines_of_isBlanks {w : Text} (hw : w.IsBlanks) : contentLines w = [] := by
  have h := contentLines_blanks_append hw []
  rwa [List.append_nil] at h

/-- Behind a line, blanks make no difference. Those up to the first boundary become part of
the line, and are trimmed off it; the boundary and what is behind it make empty lines. -/
theorem contentLines_append_blanks {l w : Text} (hl : l.IsLine) (hw : w.IsBlanks) :
    contentLines (l ++ w) = contentLines l := by
  induction w generalizing l with
  | nil => rw [List.append_nil]
  | cons c w ih =>
      obtain ⟨hc, hw⟩ := List.forall_mem_cons.mp hw
      cases hb : isLineBoundary c with
      | true =>
          rw [contentLines_append_boundary hb, contentLines_of_isBlanks hw, List.append_nil]
      | false =>
          have hlc : IsLine (l ++ [c]) := hl.append (by simpa [IsLine] using hb)
          rw [List.append_cons, ih hlc hw, contentLines_of_isLine hlc, contentLines_of_isLine hl,
            hasContent_append_blank hc, trimmed_append_blank hc]

/-! ## Entries -/

/-- A text that a batch may work on: it is not empty, has no blank at its ends, and lies
within one line. -/
structure IsEntry (e : Text) : Prop where
  ne_nil : e ≠ []
  head : ∀ c ∈ e.head?, isBlank c = false
  last : ∀ c ∈ e.getLast?, isBlank c = false
  isLine : e.IsLine

theorem head_trimmed {t : Text} : ∀ c ∈ (trimmed t).head?, isBlank c = false := by
  intro c hc
  rw [trimmed_eq_rdropWhile] at hc
  -- the last blanks are taken off behind the first character
  obtain ⟨w, hw⟩ := List.rdropWhile_prefix isBlank (t.dropWhile isBlank)
  have hnot := List.head?_dropWhile_not isBlank t
  rw [← hw, List.head?_append, Option.mem_def.mp hc] at hnot
  simpa using hnot

theorem last_trimmed {t : Text} : ∀ c ∈ (trimmed t).getLast?, isBlank c = false := by
  intro c hc
  rw [trimmed, trimmedBy, List.getLast?_reverse] at hc
  have hnot := List.head?_dropWhile_not isBlank (t.dropWhile isBlank).reverse
  rw [Option.mem_def.mp hc] at hnot
  simpa using hnot

theorem isEntry_of_mem_contentLines {t e : Text} (h : e ∈ contentLines t) : e.IsEntry := by
  have hline := isLine_of_mem_contentLines h
  rw [contentLines_eq] at h
  obtain ⟨l, hl, rfl⟩ := List.mem_map.mp h
  exact ⟨trimmed_ne_nil_iff.mpr (List.mem_filter.mp hl).2, head_trimmed, last_trimmed, hline⟩

theorem IsEntry.trimmed_eq {e : Text} (h : e.IsEntry) : trimmed e = e := by
  have hdrop : ∀ {u : Text}, (∀ c ∈ u.head?, isBlank c = false) → u.dropWhile isBlank = u := by
    intro u hu
    cases u with
    | nil => rfl
    | cons c u => exact List.dropWhile_cons_of_neg (by simp [hu c rfl])
  rw [trimmed, trimmedBy, hdrop h.head, hdrop (by rw [List.head?_reverse]; exact h.last),
    List.reverse_reverse]

theorem IsEntry.contentLines_eq {e : Text} (h : e.IsEntry) : contentLines e = [e] := by
  have hcontent : hasContent e = true :=
    trimmed_ne_nil_iff.mp (by rw [h.trimmed_eq]; exact h.ne_nil)
  rw [contentLines_of_isLine h.isLine, if_pos hcontent, h.trimmed_eq]

/-- An entry with blanks around it is read as the entry alone. -/
theorem IsEntry.contentLines_between {e s s' : Text} (h : e.IsEntry) (hs : s.IsBlanks)
    (hs' : s'.IsBlanks) : contentLines (s ++ (e ++ s')) = [e] := by
  rw [contentLines_blanks_append hs, contentLines_append_blanks h.isLine hs', h.contentLines_eq]

end Reckon.Text
