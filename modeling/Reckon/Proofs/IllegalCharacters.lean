import Reckon.Proofs.Spacing

/-!
# Illegal characters

Two stages look for characters that do not belong into an expression. The check goes
through the characters of the text; the scan goes through its tokens, and looks the
character up in the text when it has met one. They report the same character at the
same position, for two reasons. An illegal character is a token of its own wherever it
stands (`tokenize_at_illegal`), so that the tokens are cut where the text is cut. And in
front of the first illegal character there are none, so that the first place where it
occurs in the text is the one that was met (`idxOf_first_illegal`).
-/

namespace Reckon

open Expression

theorem isLegal_iff {c : Char} :
    isLegal c = true ↔ c.isDigit = true ∨ c = ' ' ∨ ∃ op : Operator, c = op.symbol := by
  simp only [isLegal, Bool.or_eq_true, decide_eq_true_eq, Option.isSome_iff_exists,
    Operator.ofChar?_eq_some_iff, or_assoc]

/-! ## Tokens as texts -/

theorem Text.isOperand_iff {t : Text} : t.isOperand = true ↔ t.IsNumeral := by
  simp [isOperand, IsNumeral]

/-- The operands of a text are written in digits alone. -/
theorem numeral_of_mem_tokenize {e d : Text} (h : .operand d ∈ tokenize e) : d.IsNumeral := by
  induction e generalizing d with
  | nil => cases h
  | cons c t ih =>
      rcases mem_tokenize_cons h with hmem | ⟨-, heq⟩ | ⟨hc, heq⟩
      · exact ih hmem
      · exact absurd heq.symm (Token.ofChar_ne_operand c d)
      · rcases heq with heq | ⟨d', hd', heq⟩
        · obtain rfl := Token.operand.inj heq
          exact ⟨List.cons_ne_nil _ _, List.forall_mem_singleton.mpr hc⟩
        · obtain rfl := Token.operand.inj heq
          exact ⟨List.cons_ne_nil _ _, List.forall_mem_cons.mpr ⟨hc, (ih hd').2⟩⟩

/-- By its text, the token is a number or the symbol of an operator. -/
def Token.IsLegal (t : Token) : Prop :=
  t.text.isOperand = true ∨ ∃ op : Operator, t.text = [op.symbol]

/-- The text of a token tells what kind of token it is. -/
theorem Token.isLegal_iff {e : Text} {t : Token} (h : t ∈ tokenize e) :
    t.IsLegal ↔ t.isOther = false := by
  cases t with
  | operand d =>
      exact iff_of_true (Or.inl (Text.isOperand_iff.mpr (numeral_of_mem_tokenize h))) rfl
  | operator op => exact iff_of_true (Or.inr ⟨op, rfl⟩) rfl
  | other c =>
      obtain ⟨-, hc⟩ := other_mem_tokenize.mp h
      obtain ⟨hdigit, -, hop⟩ := isLegal_eq_false_iff.mp hc
      refine iff_of_false ?_ fun hother => by cases hother
      rintro (hd | ⟨op, hsymbol⟩)
      · have hc' := (Text.isOperand_iff.mp hd).2 c (List.mem_singleton_self c)
        rw [hdigit] at hc'
        cases hc'
      · obtain ⟨rfl, -⟩ := List.cons.inj hsymbol
        rw [Operator.ofChar?_symbol] at hop
        cases hop

/-! ## The first illegal character -/

/-- An illegal character is a token of its own. -/
theorem tokenize_at_illegal {c : Char} (hc : isLegal c = false) (before after : Text) :
    tokenize (before ++ c :: after) = tokenize before ++ .other c :: tokenize after := by
  obtain ⟨hdigit, hspace, -⟩ := isLegal_eq_false_iff.mp hc
  have hcut : ¬(before.endsWithDigit = true ∧ Text.startsWithDigit (c :: after) = true) := by
    rintro ⟨-, hd⟩
    rw [Text.startsWithDigit, hdigit] at hd
    cases hd
  rw [tokenize_append hcut, tokenize_nondigit hspace hdigit, Token.ofChar_of_illegal hc]

theorem isOther_of_legal {e : Text} (h : ∀ b ∈ e, isLegal b = true) :
    ∀ t ∈ tokenize e, t.isOther = false := by
  intro t ht
  cases t with
  | operand d => rfl
  | operator op => rfl
  | other c =>
      obtain ⟨hmem, hc⟩ := other_mem_tokenize.mp ht
      rw [h c hmem] at hc
      cases hc

/-- The place where the first illegal character is looked up is its own. -/
theorem idxOf_first_illegal {before after : Text} {c : Char}
    (hbefore : ∀ b ∈ before, isLegal b = true) (hc : isLegal c = false) :
    (before ++ c :: after).idxOf c = before.length := by
  have hnot : c ∉ before := by
    intro hmem
    rw [hbefore c hmem] at hc
    cases hc
  rw [List.idxOf_append_of_notMem hnot, List.idxOf_cons_self, Nat.add_zero]

theorem find?_isOther {before after : List Token} {t : Token}
    (hbefore : ∀ u ∈ before, u.isOther = false) (ht : t.isOther = true) :
    (before ++ t :: after).find? Token.isOther = some t :=
  List.find?_eq_some_iff_append.mpr
    ⟨ht, before, after, rfl, fun u hu => by rw [hbefore u hu]; rfl⟩

/-! ## What the scan reports -/

theorem violation?_invalidCharacter {e e' : Text} {i position : Nat} {t : Token} {c : Char}
    (h : violation? e i t = some (.invalidCharacter c position e')) :
    t = .other c ∧ position = e.idxOf c ∧ e' = e := by
  cases t with
  | other b =>
      simp only [violation?, Option.some.injEq, Rejection.invalidCharacter.injEq] at h
      obtain ⟨rfl, rfl, rfl⟩ := h
      exact ⟨rfl, rfl, rfl⟩
  | operator op =>
      rw [violation?] at h
      split at h <;> simp at h
  | operand d =>
      rw [violation?] at h
      split at h
      · simp at h
      · split at h <;> simp at h

theorem isOther_of_sound {e : Text} {ts : List Token} (h : Sound e 0 ts) :
    ∀ t ∈ ts, t.isOther = false := by
  intro t ht
  obtain ⟨i, hi⟩ := List.mem_iff_getElem?.mp ht
  have hsound := h i t hi
  cases t with
  | operand d => rfl
  | operator op => rfl
  | other c => cases hsound

/-- An illegal character that a text is rejected for is that of its first token that is
neither a number nor an operator. -/
theorem first_other_of_parse {e e' : Text} {c : Char} {position : Nat}
    (h : parse e = .error (.invalidCharacter c position e')) :
    (tokenize e).find? Token.isOther = some (.other c) ∧ position = e.idxOf c ∧ e' = e := by
  cases flaw_of_parse_error h with
  | violation split sound first =>
      obtain ⟨rfl, hposition, he'⟩ := violation?_invalidCharacter first
      refine ⟨?_, hposition, he'⟩
      rw [split]
      exact find?_isOther (isOther_of_sound sound) rfl

/-- **One notion of an illegal character.** The check of the characters accepts a text
exactly when each of its tokens is a number or an operator. It rejects a text for the
character at the reported position, which has nothing but digits, operators and spaces in
front of it, and which is the first token that is neither a number nor an operator. And
where the parser, given a text that has not been checked, meets an illegal character, it
rejects the text as the check does: for that character, at that position. -/
theorem checkCharacters_iff_tokens {e : Text} (he : e ≠ []) :
    (checkCharacters (some e) = .ok e ↔ ∀ t ∈ tokenize e, t.IsLegal)
      ∧ (∀ r, checkCharacters (some e) = .error r →
          ∃ c position, r = .invalidCharacter c position e ∧ e[position]? = some c
            ∧ (∀ i b, i < position → e[i]? = some b →
                b.isDigit = true ∨ b = ' ' ∨ ∃ op : Operator, b = op.symbol)
            ∧ ∃ before t after, tokenize e = before ++ t :: after ∧ t.text = [c]
                ∧ ¬t.IsLegal ∧ ∀ u ∈ before, u.IsLegal)
      ∧ ∀ c position e', parse e = .error (.invalidCharacter c position e') →
          checkCharacters (some e) = .error (.invalidCharacter c position e') := by
  refine ⟨⟨fun h t ht => ?_, fun h => ?_⟩, fun r hr => ?_, fun c position e' hparse => ?_⟩
  · obtain ⟨-, -, hlegal⟩ := checkCharacters_eq_ok_iff.mp h
    exact (Token.isLegal_iff ht).mpr (isOther_of_legal hlegal t ht)
  · refine checkCharacters_of_no_other he fun c hc => ?_
    have hother := (Token.isLegal_iff hc).mp (h _ hc)
    cases hother
  · rcases checkCharacters_eq_error_iff.mp hr with
      ⟨hgiven | hgiven, -⟩ | ⟨before, c, after, hgiven, hbefore, hc, rfl⟩
    · cases hgiven
    · exact absurd (Option.some.inj hgiven) he
    obtain rfl := Option.some.inj hgiven
    have htok := tokenize_at_illegal hc before after
    have hmem : ∀ t ∈ tokenize before ++ .other c :: tokenize after,
        t.IsLegal ↔ t.isOther = false := fun t ht => Token.isLegal_iff (htok ▸ ht)
    refine ⟨c, before.length, rfl, by simp, fun i b hi hb => ?_, tokenize before, .other c,
      tokenize after, htok, rfl, ?_, fun u hu => ?_⟩
    · rw [List.getElem?_append_left hi] at hb
      exact isLegal_iff.mp (hbefore b (List.mem_of_getElem? hb))
    · intro hlegal
      cases (hmem _ (by simp)).mp hlegal
    · exact (hmem u (List.mem_append_left _ hu)).mpr (isOther_of_legal hbefore u hu)
  · obtain ⟨hfirst, rfl, rfl⟩ := first_other_of_parse hparse
    have hother := List.mem_of_find?_eq_some hfirst
    obtain ⟨c', position, hcheck⟩ := checkCharacters_of_other hother
    rcases checkCharacters_eq_error_iff.mp hcheck with
      ⟨-, hr⟩ | ⟨before, c'', after, hgiven, hbefore, hc, hr⟩
    · cases hr
    obtain ⟨rfl, rfl, -⟩ := Rejection.invalidCharacter.inj hr
    obtain rfl := Option.some.inj hgiven
    -- the tokens are cut where the text is cut, so both have met the same character
    rw [tokenize_at_illegal hc, find?_isOther (isOther_of_legal hbefore) rfl,
      Option.some.injEq, Token.other.injEq] at hfirst
    obtain rfl := hfirst
    rw [hcheck, idxOf_first_illegal hbefore hc]

/-- The illegal character stands twice in the text, with another one behind it. -/
theorem checkCharacters_iff_tokens_sample :
    "7 + ×8 × ÷".toList ≠ []
      ∧ parse "7 + ×8 × ÷".toList = .error (.invalidCharacter '×' 4 "7 + ×8 × ÷".toList)
      ∧ checkCharacters (some "7 + ×8 × ÷".toList)
          = .error (.invalidCharacter '×' 4 "7 + ×8 × ÷".toList) := by
  have hne : "7 + ×8 × ÷".toList ≠ [] := by decide
  have hparse : parse "7 + ×8 × ÷".toList
      = .error (.invalidCharacter '×' 4 "7 + ×8 × ÷".toList) := by decide
  obtain ⟨-, -, hsame⟩ := checkCharacters_iff_tokens hne
  exact ⟨hne, hparse, hsame _ _ _ hparse⟩

end Reckon
