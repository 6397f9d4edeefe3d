import Reckon.Proofs.IllegalCharacters

/-!
# Tokens at their places

What are the tokens of a text? Say it without a tokenizer: the text is cut into pieces with
nothing but spaces between them, each piece is a run of digits or a single other character,
and no run could be longer. `Cuts` says this of pieces that stand at their places in the
text, each behind a gap, and `tokenize_iff_cuts` says that the tokens are such pieces and
that there are no others.

That the gaps hold nothing but spaces is not a condition of its own: it is what is left when
all other characters are accounted for (`Cuts.isSpaces`). From there on one piece after the
other is read off the front (`tokenize_write`), where a run of digits is read to its end
because no digit comes after it. The other direction puts the tokens into their places, the
last one first (`Cuts.cons`).
-/

namespace Reckon

/-! ## Pieces of a text -/

/-- A run of digits, or one character that is neither a digit nor a space. -/
def Text.IsPiece (t : Text) : Prop :=
  t.IsNumeral ∨ ∃ c, t = [c] ∧ c ≠ ' ' ∧ c.isDigit = false

/-- A piece at its place: what stands between it and the piece before, and the piece. -/
structure Placed where
  gap : Text
  piece : Text

namespace Placed

/-- The text in which the pieces stand behind their gaps, with `rest` behind the last. -/
def write (ps : List Placed) (rest : Text) : Text :=
  ps.flatMap (fun p => p.gap ++ p.piece) ++ rest

@[simp] theorem write_nil (rest : Text) : write [] rest = rest := rfl

@[simp] theorem write_cons (p : Placed) (ps : List Placed) (rest : Text) :
    write (p :: ps) rest = p.gap ++ (p.piece ++ write ps rest) := by
  simp only [write, List.flatMap_cons, List.append_assoc]

end Placed

open Placed

/-- The pieces stand in the text `e`, they make up all of it but the spaces, and the runs of
digits among them are as long as can be. -/
structure Cuts (e : Text) (ps : List Placed) (rest : Text) : Prop where
  text : write ps rest = e
  lossless : ps.flatMap Placed.piece = e.filter (· ≠ ' ')
  shape : ∀ p ∈ ps, p.piece.IsPiece
  apart : ∀ before p q after, ps = before ++ p :: q :: after →
    p.piece.IsNumeral → q.piece.IsNumeral → ' ' ∈ q.gap
  maximal : ∀ before p after, ps = before ++ p :: after → p.piece.IsNumeral →
    (write before p.gap).endsWithDigit = false ∧ (write after rest).startsWithDigit = false

theorem Text.IsPiece.ne_nil {t : Text} (h : t.IsPiece) : t ≠ [] := by
  rcases h with hd | ⟨c, rfl, -, -⟩
  · exact hd.1
  · exact List.cons_ne_nil _ _

theorem Text.IsPiece.filter_eq {t : Text} (h : t.IsPiece) : t.filter (· ≠ ' ') = t := by
  refine List.filter_eq_self.mpr fun b hb => decide_eq_true ?_
  rcases h with hd | ⟨c, rfl, hc, -⟩
  · exact ne_space_of_isDigit (hd.2 b hb)
  · rw [List.mem_singleton.mp hb]
    exact hc

theorem Text.isSpaces_iff_filter {t : Text} : t.IsSpaces ↔ t.filter (· ≠ ' ') = [] := by
  rw [List.filter_eq_nil_iff]
  simp [IsSpaces]

theorem Text.IsSpaces.endsWithDigit {t : Text} (h : t.IsSpaces) : t.endsWithDigit = false := by
  refine endsWithDigit_eq_false_iff.mpr fun ht => ?_
  rw [h _ (List.getLast_mem ht)]
  decide

theorem Text.endsWithDigit_append (t : Text) {w : Text} (hw : w ≠ []) :
    (t ++ w).endsWithDigit = w.endsWithDigit := by
  rw [endsWithDigit, endsWithDigit, List.getLast?_append_of_ne_nil t hw]

/-! ## The gaps of a cut -/

/-- Without its spaces a text is at least as long as the pieces in it; if it is no longer,
all the gaps are spaces. -/
theorem isSpaces_of_length : ∀ {ps : List Placed} (rest : Text), (∀ p ∈ ps, p.piece.IsPiece) →
    (ps.flatMap Placed.piece).length ≤ ((write ps rest).filter (· ≠ ' ')).length
      ∧ (((write ps rest).filter (· ≠ ' ')).length ≤ (ps.flatMap Placed.piece).length →
          (∀ p ∈ ps, p.gap.IsSpaces) ∧ rest.IsSpaces)
  | [], rest, _ => by
      refine ⟨Nat.zero_le _, fun hle => ⟨(fun p hp => nomatch hp), ?_⟩⟩
      exact Text.isSpaces_iff_filter.mpr (List.eq_nil_of_length_eq_zero (Nat.le_zero.mp hle))
  | p :: ps, rest, h => by
      obtain ⟨hp, hps⟩ := List.forall_mem_cons.mp h
      obtain ⟨hle, hspaces⟩ := isSpaces_of_length rest hps
      have hlength : ((write (p :: ps) rest).filter (· ≠ ' ')).length
          = (p.gap.filter (· ≠ ' ')).length
            + (p.piece.length + ((write ps rest).filter (· ≠ ' ')).length) := by
        rw [write_cons, List.filter_append, List.filter_append, hp.filter_eq, List.length_append,
          List.length_append]
      rw [hlength, List.flatMap_cons, List.length_append]
      refine ⟨by omega, fun hle' => ?_⟩
      obtain ⟨hgaps, hrest⟩ := hspaces (by omega)
      have hgap : (p.gap.filter (· ≠ ' ')).length = 0 := by omega
      exact ⟨List.forall_mem_cons.mpr
        ⟨Text.isSpaces_iff_filter.mpr (List.eq_nil_of_length_eq_zero hgap), hgaps⟩, hrest⟩

theorem Cuts.isSpaces {e : Text} {ps : List Placed} {rest : Text} (h : Cuts e ps rest) :
    (∀ p ∈ ps, p.gap.IsSpaces) ∧ rest.IsSpaces := by
  refine (isSpaces_of_length rest h.shape).2 ?_
  rw [h.text, h.lossless]

/-! ## Reading the pieces -/

/-- A piece is read as one token, if a run of digits ends where no digit follows. -/
theorem exists_token_of_isPiece {t w : Text} (ht : t.IsPiece)
    (hw : t.IsNumeral → w.startsWithDigit = false) :
    ∃ k, k.text = t ∧ tokenize (t ++ w) = k :: tokenize w := by
  rcases ht with hd | ⟨c, rfl, hspace, hdigit⟩
  · exact ⟨.operand t, rfl, tokenize_numeral_append hd (hw hd)⟩
  · exact ⟨.ofChar c, Token.text_ofChar c, tokenize_nondigit hspace hdigit w⟩

theorem tokenize_write : ∀ {ps : List Placed} {rest : Text}, (∀ p ∈ ps, p.gap.IsSpaces) →
    rest.IsSpaces → (∀ p ∈ ps, p.piece.IsPiece) →
    (∀ before p after, ps = before ++ p :: after → p.piece.IsNumeral →
      (write after rest).startsWithDigit = false) →
    (tokenize (write ps rest)).map Token.text = ps.map Placed.piece
  | [], rest, _, hrest, _, _ => by
      rw [write_nil, tokenize_eq_nil_iff.mpr hrest]
      rfl
  | p :: ps, rest, hgaps, hrest, hshape, hmaximal => by
      obtain ⟨hgap, hgaps'⟩ := List.forall_mem_cons.mp hgaps
      obtain ⟨hp, hshape'⟩ := List.forall_mem_cons.mp hshape
      have ih := tokenize_write hgaps' hrest hshape' fun before q after hps hq =>
        hmaximal (p :: before) q after (by rw [hps]; rfl) hq
      obtain ⟨k, hk, htok⟩ := exists_token_of_isPiece hp (hmaximal [] p ps rfl)
      rw [write_cons, tokenize_spaces_append hgap, htok, List.map_cons, List.map_cons, ih, hk]

theorem Cuts.tokenize_eq {e : Text} {ps : List Placed} {rest : Text} (h : Cuts e ps rest) :
    (tokenize e).map Token.text = ps.map Placed.piece := by
  obtain ⟨hgaps, hrest⟩ := h.isSpaces
  rw [← h.text]
  exact tokenize_write hgaps hrest h.shape fun before p after hps hp =>
    (h.maximal before p after hps hp).2

/-! ## Placing the tokens -/

theorem tokenize_eq_other_cons {e : Text} {c : Char} {ts : List Token}
    (h : tokenize e = .other c :: ts) :
    ∃ s t, Text.IsSpaces s ∧ isLegal c = false ∧ e = s ++ c :: t ∧ tokenize t = ts := by
  have hother : .other c ∈ tokenize e := by
    rw [h]
    exact List.mem_cons_self ..
  obtain ⟨hmem, hc⟩ := other_mem_tokenize.mp hother
  obtain ⟨s, t, rfl, hnot⟩ := List.eq_append_cons_of_mem hmem
  rw [tokenize_at_illegal hc] at h
  cases hs : tokenize s with
  | nil =>
      rw [hs] at h
      exact ⟨s, t, tokenize_eq_nil_iff.mp hs, hc, rfl, (List.cons.inj h).2⟩
  | cons k ks =>
      -- then the character stands in front of its first place
      rw [hs] at h
      obtain rfl : k = .other c := (List.cons.inj h).1
      have hmem' : .other c ∈ tokenize s := by
        rw [hs]
        exact List.mem_cons_self ..
      exact absurd (other_mem_tokenize.mp hmem').1 hnot

/-- The first token stands behind spaces, and a number ends where no digit follows. -/
theorem tokenize_eq_cons {e : Text} {k : Token} {ts : List Token} (h : tokenize e = k :: ts) :
    ∃ s w, Text.IsSpaces s ∧ k.text.IsPiece ∧ (k.text.IsNumeral → w.startsWithDigit = false)
      ∧ e = s ++ (k.text ++ w) ∧ tokenize w = ts := by
  have hsingle : ∀ c : Char, c.isDigit = false → ¬Text.IsNumeral [c] := by
    intro c hc hd
    rw [hd.2 c (List.mem_singleton_self c)] at hc
    cases hc
  cases k with
  | operand d =>
      obtain ⟨s, w, hs, hd, hw, rfl, hts⟩ := tokenize_eq_operand_cons h
      exact ⟨s, w, hs, Or.inl hd, fun _ => hw, rfl, hts⟩
  | operator op =>
      obtain ⟨s, w, hs, rfl, hts⟩ := tokenize_eq_operator_cons h
      exact ⟨s, w, hs, Or.inr ⟨_, rfl, op.symbol_ne_space, op.symbol_not_digit⟩,
        fun hd => absurd hd (hsingle _ op.symbol_not_digit), rfl, hts⟩
  | other c =>
      obtain ⟨s, w, hs, hc, rfl, hts⟩ := tokenize_eq_other_cons h
      obtain ⟨hdigit, hspace, -⟩ := isLegal_eq_false_iff.mp hc
      exact ⟨s, w, hs, Or.inr ⟨c, rfl, hspace, hdigit⟩,
        fun hd => absurd hd (hsingle c hdigit), rfl, hts⟩

theorem cuts_of_isSpaces {e : Text} (h : e.IsSpaces) : Cuts e [] e where
  text := rfl
  lossless := (Text.isSpaces_iff_filter.mp h).symm
  shape := fun p hp => nomatch hp
  apart := fun before p q after hps => absurd hps (by simp)
  maximal := fun before p after hps => absurd hps (by simp)

/-- What stands first in a text begins with a digit, if it is a number with no gap. -/
theorem startsWithDigit_write {p : Placed} {ps : List Placed} {rest : Text}
    (hgap : p.gap = []) (hp : p.piece.IsNumeral) :
    (write (p :: ps) rest).startsWithDigit = true := by
  rw [write_cons, hgap, List.nil_append]
  cases hpiece : p.piece with
  | nil => exact absurd hpiece hp.1
  | cons c t => exact hp.2 c (by rw [hpiece]; exact List.mem_cons_self ..)

theorem write_eq_nil {ps : List Placed} {rest : Text} (hps : ∀ p ∈ ps, p.piece.IsPiece)
    (h : write ps rest = []) : ps = [] ∧ rest = [] := by
  cases ps with
  | nil => exact ⟨rfl, h⟩
  | cons p ps =>
      rw [write_cons, List.append_eq_nil_iff, List.append_eq_nil_iff] at h
      exact absurd h.2.1 (hps p (List.mem_cons_self ..)).ne_nil

/-- A piece in front puts a digit at the end of what stands behind it only if that is
nothing, and the piece is a number. -/
theorem endsWithDigit_write_cons {s t : Text} (ht : t.IsPiece) {ps : List Placed} {rest : Text}
    (hps : ∀ p ∈ ps, p.piece.IsPiece) (hends : (write ps rest).endsWithDigit = false)
    (hlast : t.IsNumeral → ps = [] → rest ≠ []) :
    (write (⟨s, t⟩ :: ps) rest).endsWithDigit = false := by
  rw [write_cons]
  by_cases hnil : write ps rest = []
  · obtain ⟨hnone, hrest⟩ := write_eq_nil hps hnil
    rw [hnil, List.append_nil, Text.endsWithDigit_append s ht.ne_nil]
    rcases ht with hd | ⟨c, rfl, -, hdigit⟩
    · exact absurd hrest (hlast hd hnone)
    · exact hdigit
  · rw [← List.append_assoc, Text.endsWithDigit_append _ hnil]
    exact hends

/-- One more piece in front: if it is a number, no digit follows. -/
theorem Cuts.cons {w : Text} {ps : List Placed} {rest : Text} (h : Cuts w ps rest) {s t : Text}
    (hs : s.IsSpaces) (ht : t.IsPiece) (hw : t.IsNumeral → w.startsWithDigit = false) :
    Cuts (s ++ (t ++ w)) (⟨s, t⟩ :: ps) rest where
  text := by rw [write_cons, h.text]
  lossless := by
    rw [List.filter_append, List.filter_append, Text.isSpaces_iff_filter.mp hs, ht.filter_eq,
      ← h.lossless]
    rfl
  shape := List.forall_mem_cons.mpr ⟨ht, h.shape⟩
  apart := by
    intro before p q after hps hp hq
    cases before with
    | cons b before => exact h.apart before p q after (List.cons.inj hps).2 hp hq
    | nil =>
        obtain ⟨rfl, rfl⟩ := List.cons.inj hps
        have hgap := h.isSpaces.1 q (List.mem_cons_self ..)
        cases hq' : q.gap with
        | nil =>
            have hstart := hw hp
            rw [← h.text, startsWithDigit_write hq' hq] at hstart
            cases hstart
        | cons c g =>
            rw [hq'] at hgap
            rw [hgap.tail.1]
            exact List.mem_cons_self ..
  maximal := by
    intro before p after hps hp
    cases before with
    | nil =>
        obtain ⟨rfl, rfl⟩ := List.cons.inj hps
        refine ⟨hs.endsWithDigit, ?_⟩
        rw [h.text]
        exact hw hp
    | cons b before =>
        obtain ⟨rfl, hps'⟩ := List.cons.inj hps
        obtain ⟨hleft, hright⟩ := h.maximal before p after hps' hp
        refine ⟨endsWithDigit_write_cons ht (fun q hq => ?_) hleft fun hd hbefore hgap => ?_,
          hright⟩
        · refine h.shape q ?_
          rw [hps']
          exact List.mem_append_left _ hq
        · -- nothing would stand between the new number and the number `p`
          subst hbefore
          have hfirst : ps = p :: after := hps'
          have hstart := hw hd
          rw [← h.text, hfirst, startsWithDigit_write hgap hp] at hstart
          cases hstart

theorem exists_cuts : ∀ {ts : List Token} {e : Text}, tokenize e = ts →
    ∃ ps rest, Cuts e ps rest ∧ ps.map Placed.piece = ts.map Token.text
  | [], e, h => ⟨[], e, cuts_of_isSpaces (tokenize_eq_nil_iff.mp h), rfl⟩
  | k :: ts, e, h => by
      obtain ⟨s, w, hs, hk, hw, rfl, hts⟩ := tokenize_eq_cons h
      obtain ⟨ps, rest, hcuts, hmap⟩ := exists_cuts hts
      exact ⟨⟨s, k.text⟩ :: ps, rest, hcuts.cons hs hk hw, by
        rw [List.map_cons, List.map_cons, hmap]⟩

/-! ## Tokens between single spaces -/

/-- A token of a text is read again in front of anything that does not begin with a digit. -/
theorem tokenize_text_append {e : Text} {k : Token} (hk : k ∈ tokenize e) {w : Text}
    (hw : w.startsWithDigit = false) : tokenize (k.text ++ w) = k :: tokenize w := by
  cases k with
  | operand d => exact tokenize_numeral_append (numeral_of_mem_tokenize hk) hw
  | operator op => exact tokenize_symbol op w
  | other c =>
      obtain ⟨-, hc⟩ := other_mem_tokenize.mp hk
      obtain ⟨hdigit, hspace, -⟩ := isLegal_eq_false_iff.mp hc
      rw [Token.text, List.singleton_append, tokenize_nondigit hspace hdigit,
        Token.ofChar_of_illegal hc]

theorem tokenize_intercalate {e : Text} : ∀ {ts : List Token}, (∀ k ∈ ts, k ∈ tokenize e) →
    tokenize (List.intercalate [' '] (ts.map Token.text)) = ts
  | [], _ => rfl
  | [k], h => by
      have hk := tokenize_text_append (h k (List.mem_cons_self ..)) (w := []) rfl
      rw [List.append_nil] at hk
      rw [List.map_singleton, List.intercalate_singleton, hk]
      rfl
  | k :: k' :: ts, h => by
      obtain ⟨hk, hrest⟩ := List.forall_mem_cons.mp h
      have ih := tokenize_intercalate hrest
      rw [List.map_cons] at ih
      rw [List.map_cons, List.map_cons, List.intercalate_cons_cons, List.append_assoc,
        tokenize_text_append hk rfl, List.singleton_append, tokenize_space, ih]

/-- **The tokens of a text, and no others.** The tokens can be placed in the text so that
together they are the text without its spaces, each of them is a run of digits or a single
character that is neither a digit nor a space, two runs that follow each other have a space
between them, and no run has a digit right before or right after it. Whatever can be placed
in the text like this is its tokens. And a text in which the tokens stand between single
spaces has the same tokens. -/
theorem tokenize_iff_cuts (e : Text) :
    (∀ ts : List Text, (tokenize e).map Token.text = ts
        ↔ ∃ ps rest, Cuts e ps rest ∧ ps.map Placed.piece = ts)
      ∧ tokenize (List.intercalate [' '] ((tokenize e).map Token.text)) = tokenize e := by
  refine ⟨fun ts => ⟨?_, ?_⟩, tokenize_intercalate fun k hk => hk⟩
  · rintro rfl
    exact exists_cuts rfl
  · rintro ⟨ps, rest, hcuts, rfl⟩
    exact hcuts.tokenize_eq

/-- A tab is a token, and so is a digit that is not an ASCII digit; a space between two runs
of digits keeps them apart. -/
example : (tokenize " 12 07\t+٣".toList).map Token.text
    = [['1', '2'], ['0', '7'], ['\t'], ['+'], ['٣']] := by decide

end Reckon
