import Mathlib.Algebra.Order.Ring.Nat
import Reckon.Proofs.Contract

/-!
# No value outgrows the digits that were read

A number of `m` digits is below `10 ^ m`. Each of the four operations keeps that
measure: if `m` digits stand behind one side and `n` behind the other, the result is
below `10 ^ (m + n)` in magnitude, whatever the signs (`natAbs_compute_lt`). So every
value that an evaluation goes through is bounded by the number of digits in the text
(`Grammar.Continues.natAbs_lt`, by induction along the derivation).

Up to 4300 digits this leaves no way to run into a limit: operands are short enough
to be read, and every value that has to be written, also the dividend that a
division by zero reports, is short enough to be written.
-/

namespace Reckon

open Evaluation Grammar

/-! ## One number, one operation -/

theorem add_lt_mul {x y m n : Nat} (hx : x < m) (hy : y < n) : x + y < m * n :=
  calc x + y < (x + 1) * (y + 1) := by rw [Nat.add_mul, Nat.mul_add]; omega
    _ ≤ m * n := Nat.mul_le_mul hx hy

theorem natAbs_compute_lt (op : Operator) {a b : Int} {m n : Nat} (ha : a.natAbs < 10 ^ m)
    (hb : b.natAbs < 10 ^ n) : (op.compute a b).natAbs < 10 ^ (m + n) := by
  rw [Nat.pow_add]
  cases op with
  | add => exact Nat.lt_of_le_of_lt (Int.natAbs_add_le a b) (add_lt_mul ha hb)
  | subtract => exact Nat.lt_of_le_of_lt (Int.natAbs_sub_le a b) (add_lt_mul ha hb)
  | multiply =>
      rw [Operator.compute, Int.natAbs_mul]
      exact Nat.mul_lt_mul'' ha hb
  | divide =>
      have hquot : (a.tdiv b).natAbs ≤ a.natAbs := Int.natAbs_tdiv_le_natAbs a b
      exact Nat.lt_of_le_of_lt (Nat.le_trans hquot (Nat.le_add_right _ b.natAbs))
        (add_lt_mul ha hb)

theorem ofDigitChars_lt : ∀ {d : Text}, (∀ c ∈ d, c.isDigit = true) → ∀ k : Nat,
    Nat.ofDigitChars 10 d k < (k + 1) * 10 ^ d.length
  | [], _, k => by simp
  | c :: d, h, k => by
      obtain ⟨hc, hd⟩ := List.forall_mem_cons.mp h
      have hdigit : c.toNat - '0'.toNat ≤ 9 := by
        have hle : c.toNat ≤ 57 :=
          UInt32.le_iff_toNat_le.mp (of_decide_eq_true (Bool.and_eq_true_iff.mp hc).2)
        exact Nat.sub_le_sub_right hle 48
      have ih := ofDigitChars_lt hd (10 * k + (c.toNat - '0'.toNat))
      rw [Nat.ofDigitChars_cons, List.length_cons, Nat.pow_succ]
      calc Nat.ofDigitChars 10 d (10 * k + (c.toNat - '0'.toNat))
          < (10 * k + (c.toNat - '0'.toNat) + 1) * 10 ^ d.length := ih
        _ ≤ ((k + 1) * 10) * 10 ^ d.length := Nat.mul_le_mul_right _ (by omega)
        _ = (k + 1) * (10 ^ d.length * 10) := by rw [Nat.mul_assoc, Nat.mul_comm 10]

theorem value_lt {d : Text} (hd : d.IsNumeral) : Decimal.value d < 10 ^ d.length := by
  have h := ofDigitChars_lt hd.2 0
  rwa [Nat.zero_add, Nat.one_mul] at h

/-! ## The values of an evaluation -/

/-- The steps of a fold that have a value, up to the first that has none. -/
def Evaluation.stepsFrom (a : Int) : List (Operator × Int) → List Step
  | [] => []
  | (op, b) :: rest =>
    match op.apply a b with
    | .ok v => ⟨op, b, v⟩ :: stepsFrom v rest
    | .error _ => []

/-- The values that a fold goes through, from the first on. -/
def Evaluation.reached (a : Int) (ss : List (Operator × Int)) : List Int :=
  a :: (stepsFrom a ss).map Step.value

/-- The values of the accumulator while an expression is evaluated. -/
def Expression.accumulators (x : Expression) : List Int :=
  reached x.first x.steps

theorem apply_cases (op : Operator) (a b : Int) :
    op.apply a b = .ok (op.compute a b) ∨ op.apply a b = .error (.ofZeroDivision a) := by
  by_cases h : DividesByZero (op, b)
  · obtain ⟨rfl, rfl⟩ := h
    exact Or.inr (apply_zeroDivision a)
  · exact Or.inl (apply_eq_ok h a)

theorem reached_of_ok {op : Operator} {a b v : Int} (h : op.apply a b = .ok v)
    (rest : List (Operator × Int)) : reached a ((op, b) :: rest) = a :: reached v rest := by
  simp only [reached, stepsFrom, h, List.map_cons]

theorem reached_of_error {op : Operator} {a b : Int} {f : Failure} (h : op.apply a b = .error f)
    (rest : List (Operator × Int)) : reached a ((op, b) :: rest) = [a] := by
  simp only [reached, stepsFrom, h, List.map_nil]

/-- A fold ends with the last value that it reaches, or by dividing it by zero. -/
theorem fold_ends_at_last : ∀ (ss : List (Operator × Int)) (a : Int),
    ∃ v, (reached a ss).getLast? = some v
      ∧ (fold a ss = .ok v ∨ fold a ss = .error (.ofZeroDivision v))
  | [], a => ⟨a, rfl, Or.inl rfl⟩
  | (op, b) :: ss, a => by
      rw [fold_cons]
      rcases apply_cases op a b with h | h
      · obtain ⟨v, hlast, hv⟩ := fold_ends_at_last ss (op.compute a b)
        refine ⟨v, ?_, by rw [h]; exact hv⟩
        rw [reached_of_ok h, reached, List.getLast?_cons_cons]
        exact hlast
      · exact ⟨a, by rw [reached_of_error h]; rfl, by rw [h]; exact Or.inr rfl⟩

/-! ## Digits of a text -/

theorem countP_isDigit_spaces {s : Text} (hs : s.IsSpaces) : s.countP Char.isDigit = 0 :=
  List.countP_eq_zero.mpr fun c hc => by rw [hs c hc]; decide

theorem countP_isDigit_numeral {d : Text} (hd : d.IsNumeral) : d.countP Char.isDigit = d.length :=
  List.countP_eq_length.mpr hd.2

namespace Grammar

theorem Continues.natAbs_lt {t : Text} {steps : List (Operator × Text)} (h : Continues t steps) :
    ∀ {a : Int} {n : Nat}, a.natAbs < 10 ^ n →
      ∀ b ∈ reached a (numbers steps), b.natAbs < 10 ^ (n + t.countP Char.isDigit) := by
  induction h with
  | last hs =>
      intro a n ha b hb
      obtain rfl := List.mem_singleton.mp hb
      rwa [countP_isDigit_spaces hs, Nat.add_zero]
  | @step s s' d t op steps hs hs' hd ht ih =>
      intro a n ha b hb
      have hcount : (s ++ op.symbol :: (s' ++ (d ++ t))).countP Char.isDigit
          = d.length + t.countP Char.isDigit := by
        simp [countP_isDigit_spaces hs, countP_isDigit_spaces hs', countP_isDigit_numeral hd,
          op.symbol_not_digit]
      rw [hcount, ← Nat.add_assoc]
      have hnum : numbers ((op, d) :: steps) = (op, (Decimal.value d : Int)) :: numbers steps := rfl
      rw [hnum] at hb
      have hself : b = a → b.natAbs < 10 ^ (n + d.length + t.countP Char.isDigit) := by
        rintro rfl
        exact Nat.lt_of_lt_of_le ha (Nat.pow_le_pow_right (by decide) (by omega))
      rcases apply_cases op a (Decimal.value d) with happly | happly
      · rw [reached_of_ok happly] at hb
        rcases List.mem_cons.mp hb with hb | hb
        · exact hself hb
        · exact ih (natAbs_compute_lt op ha (value_lt hd)) b hb
      · rw [reached_of_error happly] at hb
        exact hself (List.mem_singleton.mp hb)

theorem Derives.natAbs_lt {e d : Text} {steps : List (Operator × Text)} (h : Derives e d steps) :
    ∀ b ∈ reached (Decimal.value d) (numbers steps), b.natAbs < 10 ^ e.countP Char.isDigit := by
  cases h with
  | @intro s d t steps hs hd ht hne =>
      have hcount : (s ++ (d ++ t)).countP Char.isDigit = d.length + t.countP Char.isDigit := by
        rw [List.countP_append, List.countP_append, countP_isDigit_spaces hs,
          countP_isDigit_numeral hd, Nat.zero_add]
      rw [hcount]
      exact ht.natAbs_lt (value_lt hd)

end Grammar

/-! ## Operands that can be read -/

/-- An operand is no longer than the digits of its text. -/
theorem length_le_countP {e d : Text} (h : .operand d ∈ tokenize e) :
    d.length ≤ e.countP Char.isDigit := by
  induction e generalizing d with
  | nil => cases h
  | cons c t ih =>
      rcases mem_tokenize_cons h with hmem | ⟨-, heq⟩ | ⟨hc, heq⟩
      · exact Nat.le_trans (ih hmem) (List.sublist_cons_self c t).countP_le
      · exact absurd heq.symm (Token.ofChar_ne_operand c d)
      · rw [List.countP_cons_of_pos hc]
        rcases heq with heq | ⟨d', hd', heq⟩
        · obtain rfl := Token.operand.inj heq
          exact Nat.succ_le_succ (Nat.zero_le _)
        · obtain rfl := Token.operand.inj heq
          exact Nat.succ_le_succ (ih hd')

namespace Expression

/-- Without an operand that is too long, a text is rejected for its structure alone. -/
theorem kind_of_parse_error {e : Text} {r : Rejection}
    (hlen : ∀ d, .operand d ∈ tokenize e → d.length ≤ 4300) (h : parse e = .error r) :
    r.kind ∈ [.invalidCharacter, .missingOperand, .missingOperator] := by
  cases flaw_of_parse_error h with
  | noOperand => simp [Rejection.kind]
  | trailingOperator => simp [Rejection.kind]
  | noOperator => simp [Rejection.kind]
  | @violation before after t r split sound first =>
      have hmem : t ∈ tokenize e := by simp [split]
      have hkind : offence? before.length t = some r.kind := by
        rw [offence?_eq e, first]
        rfl
      cases t with
      | other c =>
          rw [← Option.some.inj hkind]
          simp
      | operator op =>
          rw [offence?] at hkind
          split at hkind
          · rw [← Option.some.inj hkind]
            simp
          · cases hkind
      | operand d =>
          have hshort : ¬4300 < d.length := Nat.not_lt.mpr (hlen d hmem)
          rw [offence?, if_neg hshort] at hkind
          split at hkind
          · rw [← Option.some.inj hkind]
            simp
          · cases hkind

end Expression

theorem kind_of_checkCharacters_error {e : Text} {r : Rejection}
    (h : checkCharacters (some e) = .error r) :
    r.kind ∈ [.emptyOrMissing, .invalidCharacter] := by
  rcases checkCharacters_eq_error_iff.mp h with ⟨-, rfl⟩ | ⟨before, c, after, -, -, -, rfl⟩
  · simp [Rejection.kind]
  · simp [Rejection.kind]

/-! ## The whole calculation -/

/-- What is read of a derived text starts its evaluation from the first operand. -/
theorem accumulators_of_lists {x : Expression} {d : Text} {steps : List (Operator × Text)}
    (hxs : x.operands = (Decimal.value d : Int) :: steps.map fun s => (Decimal.value s.2 : Int))
    (hops : x.operations = steps.map Prod.fst) :
    x.accumulators = reached (Decimal.value d) (numbers steps) := by
  obtain ⟨operands, operations, hne, hlen⟩ := x
  cases hxs
  cases hops
  rw [Expression.accumulators, Expression.first, Expression.steps, List.tail_cons, List.zip_map',
    numbers]

theorem accumulators_lt {e : Text} {x : Expression} (h : Expression.parse e = .ok x) :
    ∀ a ∈ x.accumulators, a.natAbs < 10 ^ e.countP Char.isDigit := by
  obtain ⟨d, steps, hread, hxs, hops⟩ := Expression.parse_eq_ok_iff.mp h
  rw [accumulators_of_lists hxs hops]
  exact hread.derives.natAbs_lt

/-- An evaluation ends with the last value of its accumulator, or by dividing it by
zero. -/
theorem evaluate_ends_at_last {e : Text} {x : Expression} (h : Expression.parse e = .ok x) :
    ∃ v, x.accumulators.getLast? = some v
      ∧ (x.evaluate = .ok v ∨ x.evaluate = .error (.ofZeroDivision v)) := by
  obtain ⟨d, steps, hread, hxs, hops⟩ := Expression.parse_eq_ok_iff.mp h
  rw [accumulators_of_lists hxs hops, evaluate_of_lists hxs hops]
  exact fold_ends_at_last _ _

/-- With no more digits than can be written, the value that an evaluation ends at can
be written. -/
theorem isWritable_of_last {e : Text} {x : Expression} {v : Int}
    (h : Expression.parse e = .ok x) (hcount : e.countP Char.isDigit ≤ 4300)
    (hv : x.accumulators.getLast? = some v) : Decimal.IsWritable v := by
  have hlt := accumulators_lt h v (List.mem_of_getLast? hv)
  have hpow : ∀ k, e.countP Char.isDigit ≤ k → v.natAbs < 10 ^ k := fun k hk =>
    Nat.lt_of_lt_of_le hlt (Nat.pow_le_pow_right (by decide) hk)
  exact (Decimal.isWritable_iff v).mpr (hpow 4300 hcount)

/-- Behind the check of the characters, a text of few digits fails for its structure
or for a division by zero. -/
theorem kind_of_ofChecked_error {e : Text} {f : Failure} (hcount : e.countP Char.isDigit ≤ 4300)
    (h : Calculation.ofChecked e = .error f) :
    ∃ r, f = .rejected r ∧ r.kind ∈ [.invalidCharacter, .missingOperand, .missingOperator,
      .divisionByZero] := by
  cases hp : Expression.parse e with
  | error r =>
      simp only [Calculation.ofChecked_eq, hp] at h
      have hlen : ∀ d, .operand d ∈ tokenize e → d.length ≤ 4300 := fun d hd =>
        Nat.le_trans (length_le_countP hd) hcount
      have hkind := Expression.kind_of_parse_error hlen hp
      refine ⟨r, (Except.error.inj h).symm, ?_⟩
      simp only [List.mem_cons] at hkind ⊢
      tauto
  | ok x =>
      simp only [Calculation.ofChecked_eq, hp] at h
      obtain ⟨v, hlast, hv⟩ := evaluate_ends_at_last hp
      have hw := isWritable_of_last hp hcount hlast
      rcases hv with hv | hv
      · simp only [hv, Calculation.checkResult, if_pos hw] at h
        cases h
      · simp only [hv, Failure.ofZeroDivision, if_pos hw] at h
        exact ⟨_, (Except.error.inj h).symm, by simp [Rejection.kind]⟩

/-- **No value outgrows the digits of the text.** Every value of the accumulator is
below ten to the power of the number of digits, and the last of them is the result or
the dividend of a division by zero. So a text of at most 4300 digits never fails for a
number that is too long: not for an operand, nor for the result, nor for a dividend
that a message has to show. -/
theorem values_within_digits (e : Text) :
    (∀ x, Expression.parse e = .ok x →
        (∀ a ∈ x.accumulators, a.natAbs < 10 ^ e.countP Char.isDigit)
          ∧ ∃ v, x.accumulators.getLast? = some v
              ∧ (x.evaluate = .ok v ∨ x.evaluate = .error (.ofZeroDivision v)))
      ∧ (e.countP Char.isDigit ≤ 4300 → ∀ f, calculate (some e) = .error f →
          ∃ r, f = .rejected r ∧ r.kind ∈ [.emptyOrMissing, .invalidCharacter, .missingOperand,
            .missingOperator, .divisionByZero]) := by
  constructor
  · exact fun x hx => ⟨accumulators_lt hx, evaluate_ends_at_last hx⟩
  · intro hcount f hf
    cases hc : checkCharacters (some e) with
    | error r =>
        simp only [calculate_eq, hc] at hf
        have hkind := kind_of_checkCharacters_error hc
        refine ⟨r, (Except.error.inj hf).symm, ?_⟩
        simp only [List.mem_cons] at hkind ⊢
        tauto
    | ok e' =>
        obtain ⟨he, -, -⟩ := checkCharacters_eq_ok_iff.mp hc
        obtain rfl := Option.some.inj he
        simp only [calculate_eq, hc] at hf
        obtain ⟨r, rfl, hkind⟩ := kind_of_ofChecked_error hcount hf
        exact ⟨r, rfl, List.mem_cons_of_mem _ hkind⟩

/-- An expression whose accumulator is negative when it is divided by zero. -/
def negativeDividend : Expression :=
  ⟨[0, 9, 7, 0], [.subtract, .multiply, .divide], by decide, by decide⟩

theorem values_within_digits_sample :
    Expression.parse "0 - 9 * 7 / 0".toList = .ok negativeDividend
      ∧ negativeDividend.accumulators = [0, -9, -63]
      ∧ (∀ a ∈ negativeDividend.accumulators, a.natAbs < 10 ^ 4)
      ∧ ∃ r, calculate (some "0 - 9 * 7 / 0".toList) = .error (.rejected r)
          ∧ r.kind ∈ [.emptyOrMissing, .invalidCharacter, .missingOperand, .missingOperator,
            .divisionByZero] := by
  have hparse : Expression.parse "0 - 9 * 7 / 0".toList = .ok negativeDividend := by
    decide +kernel
  have hfail : calculate (some "0 - 9 * 7 / 0".toList)
      = .error (.rejected (.divisionByZero (-63))) := by decide +kernel
  obtain ⟨hbound, hkind⟩ := values_within_digits "0 - 9 * 7 / 0".toList
  obtain ⟨r, hr, hmem⟩ := hkind (by decide) _ hfail
  exact ⟨hparse, by decide, (hbound _ hparse).1, r, by rw [hfail, hr], hmem⟩

end Reckon
