import Reckon.Proofs.Tokens

/-!
# The grammar of expressions

The documented grammar

> `expr := ws* operand (ws* operator ws* operand)+ ws*`

as an inductive relation that also says what is read: the digits of the first
operand, and every operator with the digits after it. `Derives` knows nothing of
tokens, nothing of numbers and nothing of limits.

`derives_iff` is the bridge to the program: a text derives from the grammar
exactly when its tokens alternate, beginning and ending with an operand. The
tokenizer decides where a run of digits ends, the grammar does not; the two agree
because what may follow an operand never begins with a digit
(`Continues.not_startsWithDigit`).
-/

namespace Reckon

namespace Grammar

/-- `(ws* operator ws* operand)* ws*`: what follows the first operand. -/
inductive Continues : Text → List (Operator × Text) → Prop
  | last {s : Text} (hs : s.IsSpaces) : Continues s []
  | step {s s' d t : Text} {op : Operator} {steps : List (Operator × Text)}
      (hs : s.IsSpaces) (hs' : s'.IsSpaces) (hd : d.IsNumeral) (ht : Continues t steps) :
      Continues (s ++ op.symbol :: (s' ++ (d ++ t))) ((op, d) :: steps)

/-- `ws* operand (ws* operator ws* operand)+ ws*`. -/
inductive Derives : Text → Text → List (Operator × Text) → Prop
  | intro {s d t : Text} {steps : List (Operator × Text)} (hs : s.IsSpaces)
      (hd : d.IsNumeral) (ht : Continues t steps) (hne : steps ≠ []) :
      Derives (s ++ (d ++ t)) d steps

/-- The text derives from the grammar, and every operand is short enough to be
read. -/
structure Readable (e d : Text) (steps : List (Operator × Text)) : Prop where
  derives : Derives e d steps
  length_first : d.length ≤ 4300
  length_rest : ∀ s ∈ steps, s.2.length ≤ 4300

/-- The steps with the numbers that their operands stand for. -/
def numbers (steps : List (Operator × Text)) : List (Operator × Int) :=
  steps.map fun s => (s.1, (Decimal.value s.2 : Int))

/-- A step without any spaces. -/
theorem Continues.step_tight (op : Operator) {d t : Text} {steps : List (Operator × Text)}
    (hd : d.IsNumeral) (ht : Continues t steps) :
    Continues (op.symbol :: (d ++ t)) ((op, d) :: steps) :=
  .step Text.isSpaces_nil Text.isSpaces_nil hd ht

/-! ## Alternating tokens -/

/-- An operator and an operand for every step. -/
def stepTokens (steps : List (Operator × Text)) : List Token :=
  steps.flatMap fun s => [.operator s.1, .operand s.2]

/-- An operand, and then an operator and an operand for every step. -/
def tokens (d : Text) (steps : List (Operator × Text)) : List Token :=
  .operand d :: stepTokens steps

@[simp] theorem stepTokens_cons (op : Operator) (d : Text) (steps : List (Operator × Text)) :
    stepTokens ((op, d) :: steps) = .operator op :: .operand d :: stepTokens steps := rfl

theorem length_stepTokens : ∀ steps : List (Operator × Text),
    (stepTokens steps).length = 2 * steps.length
  | [] => rfl
  | (op, d) :: steps => by
      rw [stepTokens_cons, List.length_cons, List.length_cons, length_stepTokens steps,
        List.length_cons]
      omega

theorem length_tokens (d : Text) (steps : List (Operator × Text)) :
    (tokens d steps).length = 2 * steps.length + 1 := by
  rw [tokens, List.length_cons, length_stepTokens]

theorem other_notMem_stepTokens {c : Char} {steps : List (Operator × Text)} :
    .other c ∉ stepTokens steps := by
  simp [stepTokens]

theorem other_notMem_tokens {c : Char} {d : Text} {steps : List (Operator × Text)} :
    .other c ∉ tokens d steps := by
  simp [tokens, other_notMem_stepTokens]

/-- The tokens at even positions are the operands. -/
theorem getElem?_tokens_even : ∀ (steps : List (Operator × Text)) (d : Text) (k : Nat),
    (tokens d steps)[2 * k]? = (d :: steps.map Prod.snd)[k]?.map .operand
  | _, _, 0 => rfl
  | [], _, k + 1 => rfl
  | (op, d') :: steps, d, k + 1 => by
      rw [show 2 * (k + 1) = 2 * k + 2 by omega]
      exact getElem?_tokens_even steps d' k

/-- The tokens at odd positions are the operators. -/
theorem getElem?_tokens_odd : ∀ (steps : List (Operator × Text)) (d : Text) (k : Nat),
    (tokens d steps)[2 * k + 1]? = (steps.map Prod.fst)[k]?.map .operator
  | [], _, _ => rfl
  | _ :: _, _, 0 => rfl
  | (op, d') :: steps, d, k + 1 => by
      rw [show 2 * (k + 1) + 1 = 2 * k + 1 + 2 by omega]
      exact getElem?_tokens_odd steps d' k

/-! ## From the grammar to the tokens -/

/-- A number never runs on into what follows it. -/
theorem Continues.not_startsWithDigit {t : Text} {steps : List (Operator × Text)}
    (h : Continues t steps) : Text.startsWithDigit t = false := by
  cases h with
  | last hs =>
      cases t with
      | nil => rfl
      | cons c t => obtain ⟨rfl, -⟩ := hs.tail; rfl
  | @step s _ _ _ op _ hs =>
      cases s with
      | nil => exact op.symbol_not_digit
      | cons c s => obtain ⟨rfl, -⟩ := hs.tail; rfl

theorem Continues.tokenize_eq {t : Text} {steps : List (Operator × Text)}
    (h : Continues t steps) : tokenize t = stepTokens steps := by
  induction h with
  | last hs => exact tokenize_eq_nil_iff.mpr hs
  | step hs hs' hd ht ih =>
      rw [tokenize_spaces_append hs, tokenize_symbol, tokenize_spaces_append hs',
        tokenize_numeral_append hd ht.not_startsWithDigit, ih, stepTokens_cons]

/-! ## From the tokens to the grammar -/

theorem continues_of_tokenize_eq : ∀ {steps : List (Operator × Text)} {t : Text},
    tokenize t = stepTokens steps → Continues t steps
  | [], _, h => .last (tokenize_eq_nil_iff.mp h)
  | (op, d) :: steps, t, h => by
      obtain ⟨s, t₁, hs, rfl, h₁⟩ := tokenize_eq_operator_cons h
      obtain ⟨s', t₂, hs', hd, -, rfl, h₂⟩ := tokenize_eq_operand_cons h₁
      exact .step hs hs' hd (continues_of_tokenize_eq h₂)

/-- A text derives from the grammar exactly when its tokens alternate. -/
theorem derives_iff {e d : Text} {steps : List (Operator × Text)} :
    Derives e d steps ↔ tokenize e = tokens d steps ∧ steps ≠ [] := by
  constructor
  · rintro ⟨hs, hd, ht, hne⟩
    refine ⟨?_, hne⟩
    rw [tokenize_spaces_append hs, tokenize_numeral_append hd ht.not_startsWithDigit,
      ht.tokenize_eq, tokens]
  · rintro ⟨h, hne⟩
    obtain ⟨s, t, hs, hd, -, rfl, ht⟩ := tokenize_eq_operand_cons h
    exact .intro hs hd (continues_of_tokenize_eq ht) hne

/-- A derived text passes the check of its characters. -/
theorem Derives.checkCharacters_eq {e d : Text} {steps : List (Operator × Text)}
    (h : Derives e d steps) : checkCharacters (some e) = .ok e := by
  obtain ⟨htok, -⟩ := derives_iff.mp h
  refine checkCharacters_eq_ok_iff.mpr ⟨rfl, ?_, fun c hc => ?_⟩
  · rintro rfl
    cases htok
  · cases hl : isLegal c with
    | true => rfl
    | false =>
        have hother := other_mem_tokenize.mpr ⟨hc, hl⟩
        rw [htok] at hother
        exact absurd hother other_notMem_tokens

end Grammar

end Reckon
