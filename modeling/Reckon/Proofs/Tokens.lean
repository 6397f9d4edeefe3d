import Reckon.Expression.Characters
import Reckon.Token

/-!
# Reading tokens off a text

`tokenize` reads a text from its right end. The lemmas here read it from the
left: what a text has to begin with for its first token to be a number, an
operator or any other character, and what is left for the tokens after it. Each
case is an equivalence, so nothing that is proved from them looks at the
definition again.

The only delicate case is the number. It ends where no digit follows, and
`Text.startsWithDigit` of the rest is what keeps two readings of the same digits
apart.
-/

namespace Reckon

/-- Spaces and nothing else. -/
def Text.IsSpaces (t : Text) : Prop := ∀ c ∈ t, c = ' '

/-- One or more digits and nothing else. -/
def Text.IsNumeral (t : Text) : Prop := t ≠ [] ∧ ∀ c ∈ t, c.isDigit = true

theorem Text.IsSpaces.cons {t : Text} (h : t.IsSpaces) : Text.IsSpaces (' ' :: t) :=
  List.forall_mem_cons.mpr ⟨rfl, h⟩

theorem Text.isSpaces_nil : Text.IsSpaces [] := fun _ hc => nomatch hc

theorem Text.IsSpaces.tail {c : Char} {t : Text} (h : Text.IsSpaces (c :: t)) :
    c = ' ' ∧ t.IsSpaces := List.forall_mem_cons.mp h

/-! ## Classes of characters -/

theorem Operator.symbol_not_digit (op : Operator) : op.symbol.isDigit = false := by
  cases op <;> rfl

theorem Operator.symbol_ne_space (op : Operator) : op.symbol ≠ ' ' := by
  cases op <;> decide

theorem ne_space_of_isDigit {c : Char} (h : c.isDigit = true) : c ≠ ' ' := by
  rintro rfl
  exact absurd h (by decide)

theorem Token.ofChar_symbol (op : Operator) : Token.ofChar op.symbol = .operator op := by
  simp [Token.ofChar]

/-- An illegal character is no digit, no space and no operator. -/
theorem isLegal_eq_false_iff {c : Char} :
    isLegal c = false ↔ c.isDigit = false ∧ c ≠ ' ' ∧ Operator.ofChar? c = none := by
  simp [isLegal, and_assoc]

theorem Token.ofChar_of_illegal {c : Char} (h : isLegal c = false) :
    Token.ofChar c = .other c := by
  rw [Token.ofChar, (isLegal_eq_false_iff.mp h).2.2]

theorem Token.text_ofChar (c : Char) : (ofChar c).text = [c] := by
  unfold ofChar
  split
  case h_1 op hop => rw [text, Operator.symbol_of_ofChar? hop]
  case h_2 => rfl

/-! ## One step of the tokenizer -/

theorem tokenize_space (t : Text) : tokenize (' ' :: t) = tokenize t := by
  rw [tokenize, if_pos rfl]

theorem tokenize_digit {c : Char} (h : c.isDigit = true) (t : Text) :
    tokenize (c :: t) = Token.consDigit c (Text.startsWithDigit t) (tokenize t) := by
  rw [tokenize, if_neg (ne_space_of_isDigit h), if_pos h]

theorem tokenize_nondigit {c : Char} (hs : c ≠ ' ') (h : c.isDigit = false) (t : Text) :
    tokenize (c :: t) = Token.ofChar c :: tokenize t := by
  rw [tokenize, if_neg hs, if_neg (by simp [h])]

theorem tokenize_symbol (op : Operator) (t : Text) :
    tokenize (op.symbol :: t) = .operator op :: tokenize t := by
  rw [tokenize_nondigit op.symbol_ne_space op.symbol_not_digit, Token.ofChar_symbol]

/-- A digit with no digit after it is a number of its own. -/
theorem Token.consDigit_false (c : Char) (ts : List Token) :
    Token.consDigit c false ts = .operand [c] :: ts := by
  cases ts with
  | nil => rfl
  | cons t ts => cases t <;> rfl

/-- A digit always ends up in a number at the front, alone or before the digits of a
number that was there. What follows it was there before. -/
theorem Token.consDigit_eq_cons (c : Char) (joins : Bool) (ts : List Token) :
    ∃ d rest, Token.consDigit c joins ts = .operand d :: rest ∧ (∀ t ∈ rest, t ∈ ts)
      ∧ (d = [c] ∨ ∃ d', .operand d' ∈ ts ∧ d = c :: d') := by
  fun_cases Token.consDigit
  · exact ⟨_, _, rfl, fun _ ht => List.mem_cons_of_mem _ ht,
      Or.inr ⟨_, List.mem_cons_self .., rfl⟩⟩
  · exact ⟨_, _, rfl, fun _ ht => ht, Or.inl rfl⟩
  · exact ⟨_, _, rfl, fun _ ht => ht, Or.inl rfl⟩

theorem Token.ofChar_ne_operand (c : Char) (d : Text) : Token.ofChar c ≠ .operand d := by
  rw [Token.ofChar]
  split <;> exact fun h => nomatch h

/-- A character in front of a text leaves a token as it is, or brings it: alone, or as
the first digit of a number that was there. -/
theorem mem_tokenize_cons {c : Char} {e : Text} {t : Token} (h : t ∈ tokenize (c :: e)) :
    t ∈ tokenize e ∨ (c.isDigit = false ∧ t = .ofChar c)
      ∨ (c.isDigit = true ∧
          (t = .operand [c] ∨ ∃ d, .operand d ∈ tokenize e ∧ t = .operand (c :: d))) := by
  by_cases hs : c = ' '
  · subst hs
    rw [tokenize_space] at h
    exact Or.inl h
  cases hc : c.isDigit with
  | false =>
      rw [tokenize_nondigit hs hc] at h
      rcases List.mem_cons.mp h with heq | hmem
      · exact Or.inr (Or.inl ⟨rfl, heq⟩)
      · exact Or.inl hmem
  | true =>
      obtain ⟨d, rest, heq, hrest, hfront⟩ :=
        Token.consDigit_eq_cons c (Text.startsWithDigit e) (tokenize e)
      rw [tokenize_digit hc, heq] at h
      rcases List.mem_cons.mp h with rfl | hmem
      · refine Or.inr (Or.inr ⟨rfl, ?_⟩)
        rcases hfront with rfl | ⟨d', hd', rfl⟩
        · exact Or.inl rfl
        · exact Or.inr ⟨d', hd', rfl⟩
      · exact Or.inl (hrest t hmem)

/-! ## Spaces and numbers at the left end -/

theorem tokenize_spaces_append : ∀ {s : Text}, s.IsSpaces → ∀ t : Text,
    tokenize (s ++ t) = tokenize t
  | [], _, _ => rfl
  | c :: s, h, t => by
      obtain ⟨rfl, hs⟩ := h.tail
      rw [List.cons_append, tokenize_space, tokenize_spaces_append hs]

/-- A whole run of digits is one token, if the run ends where the number does. -/
theorem tokenize_numeral_append : ∀ {d : Text}, d.IsNumeral → ∀ {t : Text},
    Text.startsWithDigit t = false → tokenize (d ++ t) = .operand d :: tokenize t
  | [], h, _, _ => absurd rfl h.1
  | [c], h, t, ht => by
      have hc : c.isDigit = true := h.2 c (List.mem_cons_self ..)
      rw [List.singleton_append, tokenize_digit hc, ht, Token.consDigit_false]
  | c :: c' :: d, h, t, ht => by
      obtain ⟨hc, hrest⟩ := List.forall_mem_cons.mp h.2
      have hd : Text.IsNumeral (c' :: d) := ⟨List.cons_ne_nil _ _, hrest⟩
      have hc' : Text.startsWithDigit ((c' :: d) ++ t) = true :=
        hd.2 c' (List.mem_cons_self ..)
      rw [List.cons_append, tokenize_digit hc, hc', tokenize_numeral_append hd ht]
      rfl

/-! ## Reading the first token

The other direction: what the tokens of a text tell about the text. -/

theorem tokenize_eq_nil_iff : ∀ {e : Text}, tokenize e = [] ↔ e.IsSpaces
  | [] => iff_of_true rfl Text.isSpaces_nil
  | c :: t => by
      constructor
      · intro h
        by_cases hs : c = ' '
        · subst hs
          rw [tokenize_space] at h
          exact (tokenize_eq_nil_iff.mp h).cons
        · cases hd : c.isDigit with
          | true =>
              obtain ⟨d, ts, hts, -⟩ :=
                Token.consDigit_eq_cons c (Text.startsWithDigit t) (tokenize t)
              rw [tokenize_digit hd, hts] at h
              cases h
          | false =>
              rw [tokenize_nondigit hs hd] at h
              cases h
      · intro h
        obtain ⟨rfl, ht⟩ := h.tail
        rw [tokenize_space]
        exact tokenize_eq_nil_iff.mpr ht

/-- A text that begins with a digit has a number for its first token. -/
theorem tokenize_of_startsWithDigit : ∀ {t : Text}, Text.startsWithDigit t = true →
    ∃ d ts, tokenize t = .operand d :: ts
  | c :: t, h => by
      rw [tokenize_digit h]
      obtain ⟨d, ts, hts, -⟩ := Token.consDigit_eq_cons c (Text.startsWithDigit t) (tokenize t)
      exact ⟨d, ts, hts⟩

theorem tokenize_eq_operand_cons {e d : Text} {ts : List Token}
    (h : tokenize e = .operand d :: ts) :
    ∃ s t, Text.IsSpaces s ∧ Text.IsNumeral d ∧ Text.startsWithDigit t = false
      ∧ e = s ++ (d ++ t) ∧ tokenize t = ts := by
  induction e generalizing d ts with
  | nil => cases h
  | cons c t ih =>
      by_cases hs : c = ' '
      · subst hs
        rw [tokenize_space] at h
        obtain ⟨s, t', hsp, hd, ht', rfl, hts⟩ := ih h
        exact ⟨' ' :: s, t', hsp.cons, hd, ht', rfl, hts⟩
      cases hc : c.isDigit with
      | false =>
          rw [tokenize_nondigit hs hc] at h
          exact absurd (List.cons.inj h).1 (Token.ofChar_ne_operand c d)
      | true =>
          rw [tokenize_digit hc] at h
          cases ht : Text.startsWithDigit t with
          | false =>
              rw [ht, Token.consDigit_false] at h
              obtain ⟨hd, rfl⟩ := List.cons.inj h
              obtain rfl := Token.operand.inj hd
              exact ⟨[], t, Text.isSpaces_nil, ⟨List.cons_ne_nil _ _, by simpa using hc⟩,
                ht, rfl, rfl⟩
          | true =>
              obtain ⟨d', ts', hd'⟩ := tokenize_of_startsWithDigit ht
              rw [ht, hd'] at h
              obtain ⟨hd, rfl⟩ := List.cons.inj h
              obtain rfl := Token.operand.inj hd
              obtain ⟨s, t', hsp, hnum, ht', rfl, hts⟩ := ih hd'
              -- the run that begins right after `c` has no space in front
              cases s with
              | cons b s =>
                  obtain ⟨rfl, -⟩ := hsp.tail
                  cases ht
              | nil =>
                  have hnum' : Text.IsNumeral (c :: d') :=
                    ⟨List.cons_ne_nil _ _, List.forall_mem_cons.mpr ⟨hc, hnum.2⟩⟩
                  exact ⟨[], t', Text.isSpaces_nil, hnum', ht', rfl, hts⟩

theorem tokenize_eq_operator_cons {e : Text} {op : Operator} {ts : List Token}
    (h : tokenize e = .operator op :: ts) :
    ∃ s t, Text.IsSpaces s ∧ e = s ++ op.symbol :: t ∧ tokenize t = ts := by
  induction e generalizing op ts with
  | nil => cases h
  | cons c t ih =>
      by_cases hs : c = ' '
      · subst hs
        rw [tokenize_space] at h
        obtain ⟨s, t', hsp, rfl, hts⟩ := ih h
        exact ⟨' ' :: s, t', hsp.cons, rfl, hts⟩
      cases hc : c.isDigit with
      | true =>
          obtain ⟨d, ts', hts, -⟩ :=
            Token.consDigit_eq_cons c (Text.startsWithDigit t) (tokenize t)
          rw [tokenize_digit hc, hts] at h
          cases h
      | false =>
          rw [tokenize_nondigit hs hc, Token.ofChar] at h
          split at h
          case h_1 op' hop =>
            obtain ⟨hop', rfl⟩ := List.cons.inj h
            obtain rfl := Token.operator.inj hop'
            exact ⟨[], t, Text.isSpaces_nil,
              by rw [Operator.symbol_of_ofChar? hop]; rfl, rfl⟩
          case h_2 => cases h

/-! ## Illegal characters -/

theorem Token.other_mem_consDigit {c d : Char} {joins : Bool} {ts : List Token} :
    .other c ∈ Token.consDigit d joins ts ↔ .other c ∈ ts := by
  fun_cases Token.consDigit <;> simp

/-- The tokens that are neither numbers nor operators are the illegal characters
of the text. -/
theorem other_mem_tokenize {c : Char} {e : Text} :
    .other c ∈ tokenize e ↔ c ∈ e ∧ isLegal c = false := by
  induction e with
  | nil => simp [tokenize]
  | cons b t ih =>
      by_cases hs : b = ' '
      · subst hs
        rw [tokenize_space, ih, List.mem_cons]
        constructor
        · exact fun ⟨hc, hl⟩ => ⟨Or.inr hc, hl⟩
        · rintro ⟨rfl | hc, hl⟩
          · exact absurd hl (by decide)
          · exact ⟨hc, hl⟩
      cases hd : b.isDigit with
      | true =>
          rw [tokenize_digit hd, Token.other_mem_consDigit, ih, List.mem_cons]
          constructor
          · exact fun ⟨hc, hl⟩ => ⟨Or.inr hc, hl⟩
          · rintro ⟨rfl | hc, hl⟩
            · exact absurd hd (by simp [(isLegal_eq_false_iff.mp hl).1])
            · exact ⟨hc, hl⟩
      | false =>
          rw [tokenize_nondigit hs hd, List.mem_cons, ih, List.mem_cons, or_and_right]
          refine or_congr_left ?_
          cases ho : Operator.ofChar? b with
          | some op =>
              have hb : isLegal b = true := by simp [isLegal, ho]
              simp only [Token.ofChar, ho]
              constructor
              · intro h; cases h
              · rintro ⟨rfl, hl⟩
                rw [hb] at hl; cases hl
          | none =>
              have hb : isLegal b = false := isLegal_eq_false_iff.mpr ⟨hd, hs, ho⟩
              rw [Token.ofChar_of_illegal hb, Token.other.injEq]
              exact ⟨fun h => ⟨h, h ▸ hb⟩, fun h => h.1⟩

/-! ## What the check of the characters accepts -/

theorem firstIllegal?_eq_none (position : Nat) {e : Text} :
    firstIllegal? position e = none ↔ ∀ c ∈ e, isLegal c = true := by
  induction e generalizing position with
  | nil => simp [firstIllegal?]
  | cons c t ih =>
      rw [firstIllegal?, List.forall_mem_cons]
      cases hc : isLegal c with
      | true => simp [ih]
      | false => simp

/-- The first illegal character has legal ones in front of it, and their number is its
position. -/
theorem firstIllegal?_eq_some_iff (position : Nat) {p : Nat} {e : Text} {c : Char} :
    firstIllegal? position e = some (c, p) ↔
      ∃ before after, e = before ++ c :: after ∧ (∀ b ∈ before, isLegal b = true)
        ∧ isLegal c = false ∧ p = position + before.length := by
  induction e generalizing position with
  | nil => simp [firstIllegal?]
  | cons b t ih =>
      rw [firstIllegal?]
      cases hb : isLegal b with
      | true =>
          rw [if_pos rfl, ih]
          constructor
          · rintro ⟨before, after, rfl, hbefore, hc, rfl⟩
            refine ⟨b :: before, after, rfl, List.forall_mem_cons.mpr ⟨hb, hbefore⟩, hc, ?_⟩
            rw [List.length_cons]
            omega
          · rintro ⟨before, after, heq, hbefore, hc, rfl⟩
            cases before with
            | nil =>
                obtain ⟨rfl, -⟩ := List.cons.inj heq
                rw [hb] at hc
                cases hc
            | cons b' before =>
                obtain ⟨rfl, rfl⟩ := List.cons.inj heq
                refine ⟨before, after, rfl, (List.forall_mem_cons.mp hbefore).2, hc, ?_⟩
                rw [List.length_cons]
                omega
      | false =>
          rw [if_neg Bool.false_ne_true, Option.some.injEq, Prod.mk.injEq]
          constructor
          · rintro ⟨rfl, rfl⟩
            exact ⟨[], t, rfl, (fun _ hx => nomatch hx), hb, rfl⟩
          · rintro ⟨before, after, heq, hbefore, -, rfl⟩
            cases before with
            | nil => exact ⟨(List.cons.inj heq).1, rfl⟩
            | cons b' before =>
                obtain ⟨rfl, -⟩ := List.cons.inj heq
                rw [(List.forall_mem_cons.mp hbefore).1] at hb
                cases hb

/-- The check accepts a text that is not empty and has no illegal character, and
returns it as it is. -/
theorem checkCharacters_eq_ok_iff {given : Option Text} {e : Text} :
    checkCharacters given = .ok e ↔ given = some e ∧ e ≠ [] ∧ ∀ c ∈ e, isLegal c = true := by
  rw [← firstIllegal?_eq_none 0]
  fun_cases checkCharacters given with
  | case1 => simp
  | case2 =>
      simp only [reduceCtorEq, false_iff, not_and, Option.some.injEq]
      rintro rfl h
      exact absurd rfl h
  | case3 e' he' c position hi =>
      simp only [reduceCtorEq, false_iff, not_and, Option.some.injEq]
      rintro rfl - h
      rw [hi] at h; cases h
  | case4 e' he' hi =>
      simp only [Except.ok.injEq, Option.some.injEq]
      constructor
      · rintro rfl
        exact ⟨rfl, fun h => he' (by rw [h]), hi⟩
      · exact fun h => h.1

/-- The check rejects what is missing or empty, and otherwise for the first illegal
character. -/
theorem checkCharacters_eq_error_iff {given : Option Text} {r : Rejection} :
    checkCharacters given = .error r ↔
      ((given = none ∨ given = some []) ∧ r = .missingExpression given)
        ∨ ∃ before c after, given = some (before ++ c :: after)
          ∧ (∀ b ∈ before, isLegal b = true) ∧ isLegal c = false
          ∧ r = .invalidCharacter c before.length (before ++ c :: after) := by
  fun_cases checkCharacters given with
  | case1 =>
      constructor
      · intro h
        exact Or.inl ⟨Or.inl rfl, (Except.error.inj h).symm⟩
      · rintro (⟨-, rfl⟩ | ⟨before, c, after, h, -⟩)
        · rfl
        · cases h
  | case2 =>
      constructor
      · intro h
        exact Or.inl ⟨Or.inr rfl, (Except.error.inj h).symm⟩
      · rintro (⟨-, rfl⟩ | ⟨before, c, after, h, -⟩)
        · rfl
        · simp at h
  | case3 e he c position hi =>
      obtain ⟨before, after, rfl, hbefore, hc, rfl⟩ := (firstIllegal?_eq_some_iff 0).mp hi
      rw [Nat.zero_add] at hi ⊢
      constructor
      · intro h
        exact Or.inr ⟨before, c, after, rfl, hbefore, hc, (Except.error.inj h).symm⟩
      · rintro (⟨h | h, -⟩ | ⟨before', c', after', heq, hbefore', hc', rfl⟩)
        · cases h
        · exact absurd (Option.some.inj h) he
        · have hi' := (firstIllegal?_eq_some_iff 0).mpr
            ⟨before', after', rfl, hbefore', hc', rfl⟩
          rw [← Option.some.inj heq, hi, Option.some.injEq, Prod.mk.injEq, Nat.zero_add] at hi'
          obtain ⟨rfl, hlen⟩ := hi'
          rw [hlen, Option.some.inj heq]
  | case4 e he hi =>
      refine iff_of_false (fun h => by cases h) ?_
      rintro (⟨h | h, -⟩ | ⟨before, c, after, heq, hbefore, hc, -⟩)
      · cases h
      · exact absurd (Option.some.inj h) he
      · have hi' := (firstIllegal?_eq_some_iff 0).mpr
          ⟨before, after, rfl, hbefore, hc, rfl⟩
        rw [← Option.some.inj heq, hi] at hi'
        cases hi'

end Reckon
