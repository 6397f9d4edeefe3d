import Mathlib.Data.List.DropRight
import Reckon.Proofs.Answers

/-!
# Spaces between tokens and inside them

A text can be cut in two anywhere. Unless the cut goes through a number, the tokens
of the text are those of its parts (`tokenize_append`), and spaces put into the cut
change nothing (`tokenize_spaced`). A cut through a number is the one exception:
without spaces the two runs of digits are one operand, with spaces they are two
(`exists_cut`), and an operand that follows an operand is out of order whatever
stands around it.
-/

namespace Reckon

open Grammar Expression

def Text.endsWithDigit (t : Text) : Bool := t.getLast?.any Char.isDigit

/-! ## Tokens on both sides of a cut -/

theorem Token.consDigit_append (c : Char) (joins : Bool) {ts : List Token} (us : List Token)
    (h : ts ≠ [] ∨ joins = false) :
    Token.consDigit c joins (ts ++ us) = Token.consDigit c joins ts ++ us := by
  cases joins with
  | false => rw [consDigit_false, consDigit_false, List.cons_append]
  | true =>
      cases ts with
      | nil => simp at h
      | cons t ts => cases t <;> rfl

theorem Text.startsWithDigit_append {t : Text} (ht : t ≠ []) (w : Text) :
    startsWithDigit (t ++ w) = startsWithDigit t := by
  cases t with
  | nil => exact absurd rfl ht
  | cons c t => rfl

theorem tokenize_append : ∀ {u w : Text},
    ¬(u.endsWithDigit = true ∧ w.startsWithDigit = true) →
    tokenize (u ++ w) = tokenize u ++ tokenize w
  | [], _, _ => rfl
  | [c], w, h => by
      by_cases hs : c = ' '
      · subst hs
        rw [List.singleton_append, tokenize_space, tokenize_space]
        rfl
      cases hc : c.isDigit with
      | false =>
          rw [List.singleton_append, tokenize_nondigit hs hc, tokenize_nondigit hs hc]
          rfl
      | true =>
          have hw : w.startsWithDigit = false := by
            simpa [Text.endsWithDigit, hc] using h
          rw [List.singleton_append, tokenize_digit hc, tokenize_digit hc, hw,
            Token.consDigit_false]
          rfl
  | c :: c' :: u, w, h => by
      have ih : tokenize (c' :: u ++ w) = tokenize (c' :: u) ++ tokenize w :=
        tokenize_append (by simpa [Text.endsWithDigit] using h)
      rw [List.cons_append]
      by_cases hs : c = ' '
      · subst hs
        rw [tokenize_space, tokenize_space, ih]
      cases hc : c.isDigit with
      | false =>
          rw [tokenize_nondigit hs hc, tokenize_nondigit hs hc, ih, List.cons_append]
      | true =>
          rw [tokenize_digit hc, tokenize_digit hc, ih,
            Text.startsWithDigit_append (List.cons_ne_nil _ _)]
          refine Token.consDigit_append c _ _ ?_
          cases hj : Text.startsWithDigit (c' :: u) with
          | false => exact Or.inr rfl
          | true =>
              obtain ⟨d, ts, hts⟩ := tokenize_of_startsWithDigit hj
              exact Or.inl (by rw [hts]; exact List.cons_ne_nil _ _)

theorem Text.isSpaces_replicate (k : Nat) : Text.IsSpaces (List.replicate k ' ') :=
  fun _ hc => List.eq_of_mem_replicate hc

/-- Spaces in a cut change no token, unless they come between two digits. -/
theorem tokenize_spaced {u w : Text} {k : Nat}
    (h : 0 < k ∨ ¬(u.endsWithDigit = true ∧ w.startsWithDigit = true)) :
    tokenize (u ++ List.replicate k ' ' ++ w) = tokenize u ++ tokenize w := by
  cases k with
  | zero =>
      rw [List.replicate_zero, List.append_nil]
      exact tokenize_append (by simpa using h)
  | succ k =>
      have hspace : ¬(u.endsWithDigit = true
          ∧ Text.startsWithDigit (List.replicate (k + 1) ' ' ++ w) = true) :=
        fun hd => by cases hd.2
      rw [List.append_assoc, tokenize_append hspace,
        tokenize_spaces_append (Text.isSpaces_replicate _)]

/-! ## A cut through a number -/

theorem Text.endsWithDigit_eq_false_iff {t : Text} :
    t.endsWithDigit = false ↔ ∀ ht : t ≠ [], ¬(t.getLast ht).isDigit = true := by
  cases t with
  | nil => simp [endsWithDigit]
  | cons c t => simp [endsWithDigit, List.getLast?_eq_some_getLast]

/-- The digits at the end of a text, as far as they reach. -/
theorem exists_last_digits {u : Text} (h : u.endsWithDigit = true) :
    ∃ u' d, u = u' ++ d ∧ Text.IsNumeral d ∧ u'.endsWithDigit = false := by
  refine ⟨u.rdropWhile Char.isDigit, u.rtakeWhile Char.isDigit,
    (List.rdropWhile_append_rtakeWhile ..).symm, ⟨fun hnil => ?_, fun c hc => ?_⟩, ?_⟩
  · have hno := Text.endsWithDigit_eq_false_iff.mpr (List.rtakeWhile_eq_nil_iff.mp hnil)
    rw [h] at hno
    cases hno
  · exact List.mem_rtakeWhile_imp hc
  · exact Text.endsWithDigit_eq_false_iff.mpr fun ht => List.rdropWhile_last_not _ _ ht

/-- The digits at the beginning of a text, as far as they reach. -/
theorem exists_first_digits {w : Text} (h : w.startsWithDigit = true) :
    ∃ d w', w = d ++ w' ∧ Text.IsNumeral d ∧ w'.startsWithDigit = false := by
  obtain ⟨d, ts, hts⟩ := tokenize_of_startsWithDigit h
  obtain ⟨s, w', hs, hd, hw', rfl, -⟩ := tokenize_eq_operand_cons hts
  cases s with
  | nil => exact ⟨d, w', rfl, hd, hw'⟩
  | cons c s =>
      obtain ⟨rfl, -⟩ := hs.tail
      cases h

theorem tokenize_numeral {d : Text} (hd : d.IsNumeral) : tokenize d = [.operand d] := by
  have h := tokenize_numeral_append hd (t := []) rfl
  rwa [List.append_nil] at h

/-- A cut between two digits goes through one operand, of which either side keeps a
part. -/
theorem exists_cut {u w : Text} (hu : u.endsWithDigit = true) (hw : w.startsWithDigit = true) :
    ∃ before d₁ d₂ after, tokenize u = before ++ [.operand d₁]
      ∧ tokenize w = .operand d₂ :: after
      ∧ tokenize (u ++ w) = before ++ .operand (d₁ ++ d₂) :: after := by
  obtain ⟨u', d₁, rfl, hd₁, hu'⟩ := exists_last_digits hu
  obtain ⟨d₂, w', rfl, hd₂, hw'⟩ := exists_first_digits hw
  have hleft : ∀ t, tokenize (u' ++ t) = tokenize u' ++ tokenize t := fun t =>
    tokenize_append fun h => by rw [hu'] at h; cases h.1
  have hd : Text.IsNumeral (d₁ ++ d₂) :=
    ⟨by simp [hd₁.1], fun c hc => (List.mem_append.mp hc).elim (hd₁.2 c) (hd₂.2 c)⟩
  refine ⟨tokenize u', d₁, d₂, tokenize w', ?_, tokenize_numeral_append hd₂ hw', ?_⟩
  · rw [hleft, tokenize_numeral hd₁]
  · rw [List.append_assoc, hleft, ← List.append_assoc, tokenize_numeral_append hd hw']

/-- The second of two operands that used to be one is out of order. -/
theorem scan_of_cut {e d : Text} {steps : List (Operator × Text)} {before after : List Token}
    {d₁ d₂ : Text} (h : tokens d steps = before ++ .operand (d₁ ++ d₂) :: after)
    (hd : d.length ≤ 4300) (hsteps : ∀ s ∈ steps, s.2.length ≤ 4300) :
    scan e .operand (before ++ [.operand d₁] ++ .operand d₂ :: after)
      = .error (.missingOperator d₂ e) := by
  have hs := sound_tokens (e := e) hd hsteps
  rw [h] at hs
  obtain ⟨hbefore, hrest⟩ := sound_append.mp hs
  rw [Nat.zero_add] at hrest
  have heven : before.length % 2 = 0 := by
    rcases Nat.mod_two_eq_zero_or_one before.length with h0 | h1
    · exact h0
    · obtain ⟨op, hop⟩ := eq_operator_of_sound h1 hrest.head
      cases hop
  obtain ⟨d', hd', hlen⟩ := eq_operand_of_sound heven hrest.head
  obtain rfl := Token.operand.inj hd'
  rw [List.length_append] at hlen
  have hfirst : violation? e before.length (.operand d₁) = none := by
    rw [violation?, if_neg (by omega), if_neg (by omega)]
  have hsound : Sound e 0 (before ++ [.operand d₁]) :=
    sound_append.mpr ⟨hbefore, sound_singleton.mpr (by rwa [Nat.zero_add])⟩
  refine scan_of_first_violation (i := 0) hsound ?_ after
  rw [List.length_append, List.length_singleton, violation?, if_pos (by omega)]

theorem legal_of_spaced {u w : Text} {k : Nat} (h : ∀ c ∈ u ++ w, isLegal c = true) :
    ∀ c ∈ u ++ List.replicate k ' ' ++ w, isLegal c = true := by
  intro c hc
  rw [List.append_assoc, List.mem_append, List.mem_append] at hc
  rcases hc with hc | hc | hc
  · exact h c (List.mem_append_left _ hc)
  · rw [Text.isSpaces_replicate k c hc]
    rfl
  · exact h c (List.mem_append_right _ hc)

/-- **Spacing never matters, except inside a number.** Spaces put anywhere but
between two digits leave the answer as it was, whatever the text: the value is the
same, or the class of the failure is. Between two digits of a text that has a value
they leave an operator missing. -/
theorem answer_of_spacing (u w : Text) (k : Nat) :
    (u ++ w ≠ [] → ¬(u.endsWithDigit = true ∧ w.startsWithDigit = true) →
        answer (u ++ List.replicate k ' ' ++ w) = answer (u ++ w))
      ∧ (u.endsWithDigit = true → w.startsWithDigit = true → 0 < k →
        ∀ v, calculate (some (u ++ w)) = .ok v →
          ∃ r, calculate (some (u ++ List.replicate k ' ' ++ w)) = .error (.rejected r)
            ∧ r.kind = .missingOperator) := by
  constructor
  · intro hne hcut
    have hne' : u ++ List.replicate k ' ' ++ w ≠ [] := by
      intro hnil
      rw [List.append_assoc, List.append_eq_nil_iff, List.append_eq_nil_iff] at hnil
      exact hne (List.append_eq_nil_iff.mpr ⟨hnil.1, hnil.2.2⟩)
    refine answer_congr hne' hne ?_
    rw [tokenize_spaced (Or.inr hcut), tokenize_append hcut]
  · intro hu hw hk v hv
    obtain ⟨d, steps, ⟨hder, hd, hsteps⟩, -⟩ := readable_of_ok hv
    obtain ⟨-, -, hlegal⟩ := checkCharacters_eq_ok_iff.mp hder.checkCharacters_eq
    obtain ⟨before, d₁, d₂, after, hleft, hright, hjoined⟩ := exists_cut hu hw
    have hspaced : tokenize (u ++ List.replicate k ' ' ++ w)
        = before ++ [.operand d₁] ++ .operand d₂ :: after := by
      rw [tokenize_spaced (Or.inl hk), hleft, hright]
    have hcheck : checkCharacters (some (u ++ List.replicate k ' ' ++ w))
        = .ok (u ++ List.replicate k ' ' ++ w) := by
      refine checkCharacters_eq_ok_iff.mpr ⟨rfl, fun hnil => ?_, legal_of_spaced hlegal⟩
      rw [hnil] at hspaced
      simp [tokenize] at hspaced
    have hscan := scan_of_cut (e := u ++ List.replicate k ' ' ++ w)
      ((derives_iff.mp hder).1.symm.trans hjoined) hd hsteps
    rw [← hspaced] at hscan
    have hop : ∃ t ∈ tokenize (u ++ List.replicate k ' ' ++ w), t.isOperand = true := by
      rw [hspaced]
      exact ⟨.operand d₂, by simp, rfl⟩
    exact ⟨_, calculate_of_parse_error hcheck (parse_of_scan_error hop hscan), rfl⟩

/-- A division by zero stays one when its operator is moved; a number that is torn
apart does not stay a number. -/
theorem answer_of_spacing_sample :
    answer ("8 * 2/".toList ++ List.replicate 3 ' ' ++ "0".toList)
        = answer ("8 * 2/".toList ++ "0".toList)
      ∧ ∃ r, calculate (some ("3 *1".toList ++ List.replicate 2 ' ' ++ "4".toList))
          = .error (.rejected r) ∧ r.kind = .missingOperator := by
  have hvalue : calculate (some ("3 *1".toList ++ "4".toList)) = .ok 42 := by decide +kernel
  exact ⟨(answer_of_spacing _ _ 3).1 (by decide) (by decide),
    (answer_of_spacing _ _ 2).2 (by decide) (by decide) (by decide) 42 hvalue⟩

end Reckon
