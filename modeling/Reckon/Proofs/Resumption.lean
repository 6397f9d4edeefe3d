import Reckon.Proofs.Spacing

/-!
# A beginning can be replaced by its value

The fold carries nothing from one step to the next but a value, and the scan nothing
but the turn. So what follows a text that has a value is answered from that value:
`answerAfter` is the answer of a continuation, and `answer_append` says that every
beginning that comes to the same value has the same answer with it.

One such beginning is written with the value itself (`standIn`). A negative value
has no numeral, and stands as a difference from zero.
-/

namespace Reckon

open Evaluation Grammar Expression

/-! ## Continuations -/

/-- The text is read, in full or as far as it goes, as operands with operators
between them that come to a value. A lone operand comes to itself. -/
def ComesTo (p : Text) (a : Int) : Prop :=
  ∃ d steps, tokenize p = tokens d steps ∧ d.length ≤ 4300
    ∧ (∀ s ∈ steps, s.2.length ≤ 4300)
    ∧ fold (Decimal.value d) (numbers steps) = .ok a

/-- The answer to tokens that go on from a value. -/
def answerAfter (a : Int) (ts : List Token) : Except Text Int :=
  if ts.any Token.isOther then .error Rejection.Kind.invalidCharacter.name
  else
    match scanClass .operator ts with
    | .error k => .error k.name
    | .ok (xs, ops) => answerFrom a (ops.zip xs)

theorem answerFrom_append {a v : Int} {ss : List (Operator × Int)} (h : fold a ss = .ok v)
    (rest : List (Operator × Int)) : answerFrom a (ss ++ rest) = answerFrom v rest := by
  rw [answerFrom, fold_append_of_ok h, ← answerFrom]

/-- The operations of a beginning and of what follows it, each with its operand. -/
theorem zip_steps_append (steps : List (Operator × Text)) (ops : List Operator) (xs : List Int) :
    (steps.map Prod.fst ++ ops).zip ((steps.map fun s => (Decimal.value s.2 : Int)) ++ xs)
      = numbers steps ++ ops.zip xs := by
  rw [List.zip_append (by simp), List.zip_map', numbers]

theorem scanClass_tokens_append {d : Text} {steps : List (Operator × Text)}
    (hd : d.length ≤ 4300) (hsteps : ∀ s ∈ steps, s.2.length ≤ 4300) (ts : List Token) :
    scanClass .operand (tokens d steps ++ ts) = (scanClass .operator ts).map fun p =>
      ((Decimal.value d : Int) :: (steps.map fun s => (Decimal.value s.2 : Int)) ++ p.1,
        steps.map Prod.fst ++ p.2) := by
  rw [scanClass, scan_tokens_append hd hsteps, mapError_map, ← scanClass]

/-- A scan that begins with an operator has collected it. -/
theorem scanClass_operator {op : Operator} {ts : List Token} {p : List Int × List Operator}
    (h : scanClass .operator (.operator op :: ts) = .ok p) : ∃ ops, p.2 = op :: ops := by
  rw [scanClass, scan_operator, mapError_map, ← scanClass] at h
  cases hs : scanClass .operand ts with
  | error k => rw [hs] at h; cases h
  | ok q =>
      rw [hs] at h
      obtain rfl := Except.ok.inj h
      exact ⟨q.2, rfl⟩

theorem answerOf_tokens_append {d : Text} {steps : List (Operator × Text)} {a : Int}
    (hd : d.length ≤ 4300) (hsteps : ∀ s ∈ steps, s.2.length ≤ 4300)
    (ha : fold (Decimal.value d) (numbers steps) = .ok a) (op : Operator) (ts : List Token) :
    answerOf (tokens d steps ++ .operator op :: ts) = answerAfter a (.operator op :: ts) := by
  have hother : (tokens d steps).any Token.isOther = false :=
    Bool.eq_false_iff.mpr fun h => by
      obtain ⟨c, hc⟩ := Token.any_isOther_iff.mp h
      exact other_notMem_tokens hc
  have hany : (tokens d steps ++ .operator op :: ts).any Token.isOperand = true := rfl
  rw [answerOf, answerAfter, List.any_append, hother, Bool.false_or, if_pos hany,
    scanClass_tokens_append hd hsteps]
  split
  case isTrue => rfl
  case isFalse =>
    cases hs : scanClass .operator (.operator op :: ts) with
    | error k => rfl
    | ok p =>
        obtain ⟨xs, ops⟩ := p
        obtain ⟨ops', rfl⟩ := scanClass_operator hs
        -- there is an operation, so the lists are read as an expression
        have hzip := zip_steps_append steps (op :: ops') xs
        cases hops : steps.map Prod.fst ++ op :: ops' with
        | nil => simp at hops
        | cons op₁ ops₁ =>
            rw [hops] at hzip
            simp only [Except.map, List.cons_append, hops]
            rw [hzip, answerFrom_append ha]

/-- A text whose first character but for spaces is an operator. -/
theorem exists_operator_first {r : Text} {op : Operator}
    (h : r.find? (· ≠ ' ') = some op.symbol) :
    r.startsWithDigit = false ∧ ∃ ts, tokenize r = .operator op :: ts := by
  obtain ⟨-, s, t, rfl, hs⟩ := List.find?_eq_some_iff_append.mp h
  have hsp : Text.IsSpaces s := fun c hc => by simpa using hs c hc
  refine ⟨?_, tokenize t, by rw [tokenize_spaces_append hsp, tokenize_symbol]⟩
  cases s with
  | nil => exact op.symbol_not_digit
  | cons c s =>
      obtain ⟨rfl, -⟩ := hsp.tail
      rfl

/-- What follows a beginning is answered from its value. -/
theorem answer_append {p r : Text} {a : Int} {op : Operator} (hp : ComesTo p a)
    (hr : r.find? (· ≠ ' ') = some op.symbol) : answer (p ++ r) = answerAfter a (tokenize r) := by
  obtain ⟨d, steps, htok, hd, hsteps, ha⟩ := hp
  obtain ⟨hdigit, ts, hts⟩ := exists_operator_first hr
  have hne : p ++ r ≠ [] := by
    intro hnil
    rw [(List.append_eq_nil_iff.mp hnil).2] at hts
    cases hts
  rw [answer_eq hne, tokenize_append (fun h => by rw [hdigit] at h; cases h.2), htok, hts,
    answerOf_tokens_append hd hsteps ha]

/-! ## Writing a value -/

/-- A text that comes to a value: its numeral, or for a negative value the
difference of zero and its magnitude. -/
def standIn (a : Int) : Text :=
  if 0 ≤ a then Decimal.ofNat a.natAbs else "0-".toList ++ Decimal.ofNat a.natAbs

theorem Decimal.isNumeral_ofNat (n : Nat) : Text.IsNumeral (ofNat n) :=
  ⟨Nat.toDigits_ne_nil, fun _ hc => Nat.isDigit_of_mem_toDigits (by decide) (by decide) hc⟩

theorem Decimal.value_ofNat (n : Nat) : value (ofNat n) = n := Nat.ofDigitChars_ten_toDigits

theorem Decimal.length_ofNat_le {n k : Nat} (hk : 0 < k) (h : n < 10 ^ k) :
    (ofNat n).length ≤ k := (Nat.length_toDigits_le_iff (by decide) hk).mpr h

theorem comesTo_standIn {a : Int} (h : a.natAbs < 10 ^ 4300) : ComesTo (standIn a) a := by
  have hnum := Decimal.isNumeral_ofNat a.natAbs
  have hlen := Decimal.length_ofNat_le (by decide) h
  rw [standIn]
  split
  case isTrue ha =>
    refine ⟨Decimal.ofNat a.natAbs, [], tokenize_numeral hnum, hlen, (fun s hs => nomatch hs), ?_⟩
    rw [Decimal.value_ofNat, numbers, List.map_nil, fold_nil, Int.natAbs_of_nonneg ha]
  case isFalse ha =>
    have hzero : Text.IsNumeral ['0'] := ⟨List.cons_ne_nil _ _, List.all_eq_true.mp rfl⟩
    have hminus : Continues ('-' :: (Decimal.ofNat a.natAbs ++ []))
        [(.subtract, Decimal.ofNat a.natAbs)] :=
      Continues.step_tight .subtract hnum (.last Text.isSpaces_nil)
    have htok := tokenize_numeral_append hzero hminus.not_startsWithDigit
    rw [hminus.tokenize_eq, List.append_nil] at htok
    refine ⟨['0'], [(.subtract, Decimal.ofNat a.natAbs)], htok, by decide, ?_, ?_⟩
    · rw [List.forall_mem_singleton]
      exact hlen
    · have hvalue : (0 : Int) - a.natAbs = a := by omega
      rw [numbers, List.map_singleton, Decimal.value_ofNat]
      exact congrArg Except.ok hvalue

/-- **A beginning can be replaced by its value.** Whatever follows, well formed or
not, as long as its first character but for spaces is an operator, the answer is the
same. -/
theorem answer_resume {e r : Text} {a : Int} {op : Operator} (he : calculate (some e) = .ok a)
    (hr : r.find? (· ≠ ' ') = some op.symbol) : answer (e ++ r) = answer (standIn a ++ r) := by
  obtain ⟨d, steps, ⟨hder, hd, hsteps⟩, hfold, ha⟩ := readable_of_ok he
  have hread : ComesTo e a := ⟨d, steps, (derives_iff.mp hder).1, hd, hsteps, hfold⟩
  rw [answer_append hread hr, answer_append (comesTo_standIn ha) hr]

/-- The value is negative, and what follows divides it by zero. -/
theorem answer_resume_sample :
    calculate (some "1 - 8 / 2".toList) = .ok (-3)
      ∧ " / 0".toList.find? (· ≠ ' ') = some Operator.divide.symbol
      ∧ answer ("1 - 8 / 2".toList ++ " / 0".toList) = answer "0-3 / 0".toList := by
  have he : calculate (some "1 - 8 / 2".toList) = .ok (-3) := by decide +kernel
  have hr : " / 0".toList.find? (· ≠ ' ') = some Operator.divide.symbol := by decide
  have hstand : standIn (-3) = "0-3".toList := by decide
  refine ⟨he, hr, ?_⟩
  rw [answer_resume he hr, hstand]
  rfl

end Reckon
