import Mathlib.Algebra.Order.Ring.Nat
import Reckon.Calculation
import Reckon.Proofs.Folding
import Reckon.Proofs.Reading

/-!
# What a calculation comes to

Characters, grammar, limits and fold put together. A text is `Readable` when it
derives from the grammar with operands that can be read, and then everything is
up to the fold (`calculate_of_readable`); any other text is rejected
(`exists_rejection`).

`calculate_eq_ok_iff` is the contract for results. `calculate_escapes_iff` is the
contract for failures, as far as it holds: a calculation ends with a result or a
rejection unless the first division by zero meets a dividend that is too long to
be written. `longDivision` is such a text.
-/

namespace Reckon

theorem Decimal.lt_pow_iff (m n : Nat) : m < Nat.pow 10 n ↔ m < 10 ^ n := Iff.rfl

theorem Decimal.isWritable_iff (v : Int) : Decimal.IsWritable v ↔ v.natAbs < 10 ^ 4300 :=
  (Decimal.lt_pow_iff _ _).trans (by rw [Decimal.digitLimit])

open Evaluation Grammar

/-! ## Readable texts and all others -/

theorem evaluate_of_lists {x : Expression} {d : Text} {steps : List (Operator × Text)}
    (hxs : x.operands = (Decimal.value d : Int) :: steps.map fun s => (Decimal.value s.2 : Int))
    (hops : x.operations = steps.map Prod.fst) :
    x.evaluate = fold (Decimal.value d) (numbers steps) := by
  rw [Expression.evaluate_eq, hxs, hops, evaluate_cons (by simp), List.zip_map', numbers]

/-- On a readable text the fold decides, and then the length of its value. -/
theorem calculate_of_readable {e d : Text} {steps : List (Operator × Text)}
    (h : Readable e d steps) :
    calculate (some e) = match fold (Decimal.value d) (numbers steps) with
      | .ok v => Calculation.checkResult e v
      | .error f => .error f := by
  obtain ⟨x, hx, hxs, hops⟩ :=
    (Expression.parse_of_tokens (derives_iff.mp h.derives).1 h.length_first h.length_rest).2
      (derives_iff.mp h.derives).2
  rw [calculate_eq, h.derives.checkCharacters_eq]
  simp only [Calculation.ofChecked_eq, hx, evaluate_of_lists hxs hops]
  cases fold (Decimal.value d) (numbers steps) <;> rfl

/-- Whatever is not readable is rejected. -/
theorem exists_rejection {given : Option Text}
    (h : ∀ e d steps, given = some e → ¬Readable e d steps) :
    ∃ r, calculate given = .error (.rejected r) := by
  cases hc : checkCharacters given with
  | error r => exact ⟨r, by rw [calculate_eq, hc]⟩
  | ok e =>
      obtain ⟨rfl, -, -⟩ := checkCharacters_eq_ok_iff.mp hc
      cases hp : Expression.parse e with
      | error r =>
          refine ⟨r, ?_⟩
          rw [calculate_eq, hc]
          simp only [Calculation.ofChecked_eq, hp]
      | ok x =>
          obtain ⟨d, steps, hread, -⟩ := Expression.parse_eq_ok_iff.mp hp
          exact absurd hread (h e d steps rfl)

theorem checkResult_eq_ok_iff {e : Text} {v w : Int} :
    Calculation.checkResult e v = .ok w ↔ v = w ∧ v.natAbs < 10 ^ 4300 := by
  rw [Calculation.checkResult, ← Decimal.isWritable_iff]
  split
  case isTrue h => simp [h]
  case isFalse h => simp [h]

/-! ## Results -/

theorem not_dividesByZero_numbers {steps : List (Operator × Text)} :
    (∀ s ∈ numbers steps, ¬DividesByZero s) ↔
      ∀ s ∈ steps, s.1 = .divide → Decimal.value s.2 ≠ 0 := by
  rw [numbers, List.forall_mem_map]
  simp [DividesByZero]

/-- **The contract for results.** A text has the value `v` exactly when it derives
from the grammar, no operand is too long to be read, no operand right after a `/`
is zero, `v` is the strict left-to-right fold of the operands, and `v` can be
written. The values on the way may be of any size. -/
theorem calculate_eq_ok_iff {e : Text} {v : Int} :
    calculate (some e) = .ok v ↔
      ∃ d steps, Derives e d steps
        ∧ (d.length ≤ 4300 ∧ ∀ s ∈ steps, s.2.length ≤ 4300)
        ∧ (∀ s ∈ steps, s.1 = .divide → Decimal.value s.2 ≠ 0)
        ∧ v = total (Decimal.value d) (numbers steps)
        ∧ v.natAbs < 10 ^ 4300 := by
  constructor
  · intro h
    by_cases hread : ∃ d steps, Readable e d steps
    · obtain ⟨d, steps, hread⟩ := hread
      rw [calculate_of_readable hread] at h
      by_cases hz : ∃ s ∈ numbers steps, DividesByZero s
      · obtain ⟨before, after, hsplit, hbefore⟩ := exists_first_zeroDivision hz
        rw [hsplit, fold_of_zeroDivision hbefore] at h
        cases h
      · have hnz : ∀ s ∈ numbers steps, ¬DividesByZero s := fun s hs hs0 => hz ⟨s, hs, hs0⟩
        rw [fold_eq_ok hnz] at h
        obtain ⟨hv, hw⟩ := checkResult_eq_ok_iff.mp h
        exact ⟨d, steps, hread.derives, ⟨hread.length_first, hread.length_rest⟩,
          not_dividesByZero_numbers.mp hnz, hv.symm, hv ▸ hw⟩
    · obtain ⟨r, hr⟩ : ∃ r, calculate (some e) = .error (.rejected r) :=
        exists_rejection fun e' d steps he hr => hread ⟨d, steps, Option.some.inj he ▸ hr⟩
      rw [hr] at h
      cases h
  · rintro ⟨d, steps, hder, ⟨hd, hsteps⟩, hnz, rfl, hw⟩
    rw [calculate_of_readable ⟨hder, hd, hsteps⟩,
      fold_eq_ok (not_dividesByZero_numbers.mpr hnz)]
    exact checkResult_eq_ok_iff.mpr ⟨rfl, hw⟩

/-! ## Failures -/

/-- The first division by zero in a readable text divides `a`. -/
def FirstZeroDivision (e : Text) (a : Int) : Prop :=
  ∃ d before z after, Readable e d (before ++ (.divide, z) :: after) ∧ Decimal.value z = 0
    ∧ (∀ s ∈ before, s.1 = .divide → Decimal.value s.2 ≠ 0)
    ∧ a = total (Decimal.value d) (numbers before)

theorem calculate_of_firstZeroDivision {e : Text} {a : Int} (h : FirstZeroDivision e a) :
    calculate (some e) = if a.natAbs < 10 ^ 4300 then .error (.rejected (.divisionByZero a))
      else .error .numberTooLong := by
  obtain ⟨d, before, z, after, hread, hz, hbefore, ha⟩ := h
  have hnum : numbers (before ++ (.divide, z) :: after)
      = numbers before ++ (.divide, 0) :: numbers after := by
    simp [numbers, hz]
  rw [calculate_of_readable hread, hnum,
    fold_of_zeroDivision (not_dividesByZero_numbers.mpr hbefore), ← ha, Failure.ofZeroDivision]
  by_cases hw : a.natAbs < 10 ^ 4300
  · rw [if_pos hw, if_pos ((Decimal.isWritable_iff a).mpr hw)]
  · rw [if_neg hw, if_neg (mt (Decimal.isWritable_iff a).mp hw)]

/-- A readable text in which a `/` is followed by zero has a first such place. -/
theorem exists_firstZeroDivision {e d : Text} {steps : List (Operator × Text)}
    (hread : Readable e d steps)
    (hz : ∃ s ∈ steps, s.1 = .divide ∧ Decimal.value s.2 = 0) : ∃ a, FirstZeroDivision e a := by
  have hz' : ∃ s ∈ numbers steps, DividesByZero s := by
    obtain ⟨s, hs, hdiv, hval⟩ := hz
    exact ⟨_, List.mem_map_of_mem hs, hdiv, by rw [hval]; rfl⟩
  obtain ⟨before, after, hsplit, hbefore⟩ := exists_first_zeroDivision hz'
  obtain ⟨before', rest, rfl, rfl, hrest⟩ := List.map_eq_append_iff.mp hsplit
  obtain ⟨⟨op, z⟩, after', rfl, hs, -⟩ := List.map_eq_cons_iff.mp hrest
  obtain ⟨rfl, hzero⟩ := Prod.mk.inj hs
  exact ⟨_, d, before', z, after', hread, Int.ofNat_eq_zero.mp hzero,
    not_dividesByZero_numbers.mp hbefore, rfl⟩

/-- A readable text in which no `/` is followed by zero has a value, or is rejected
for the length of the value. -/
theorem calculate_of_no_zeroDivision {e d : Text} {steps : List (Operator × Text)}
    (hread : Readable e d steps)
    (hz : ¬∃ s ∈ steps, s.1 = .divide ∧ Decimal.value s.2 = 0) :
    (∃ v, calculate (some e) = .ok v) ∨ ∃ r, calculate (some e) = .error (.rejected r) := by
  have hnz : ∀ s ∈ numbers steps, ¬DividesByZero s :=
    not_dividesByZero_numbers.mpr fun s hs hdiv hval => hz ⟨s, hs, hdiv, hval⟩
  rw [calculate_of_readable hread, fold_eq_ok hnz]
  simp only [Calculation.checkResult]
  split
  · exact Or.inl ⟨_, rfl⟩
  · exact Or.inr ⟨_, rfl⟩

/-- **The contract for failures.** A calculation ends with neither a result nor a
rejection exactly when the text is readable and its first division by zero meets
a dividend of more than 4300 digits. Every other division by zero in a readable
text is rejected as one, with the dividend. -/
theorem calculate_escapes_iff (given : Option Text) :
    (((∀ v, calculate given ≠ .ok v) ∧ ∀ r, calculate given ≠ .error (.rejected r)) ↔
        ∃ e a, given = some e ∧ FirstZeroDivision e a ∧ 10 ^ 4300 ≤ a.natAbs)
      ∧ ∀ e d steps, Readable e d steps →
        (∃ s ∈ steps, s.1 = .divide ∧ Decimal.value s.2 = 0) →
        ∃ a, FirstZeroDivision e a
          ∧ calculate (some e) =
            if a.natAbs < 10 ^ 4300 then .error (.rejected (.divisionByZero a))
            else .error .numberTooLong := by
  refine ⟨⟨?_, ?_⟩, fun e d steps hread hz => ?_⟩
  · rintro ⟨hok, hrej⟩
    by_cases hread : ∃ e d steps, given = some e ∧ Readable e d steps
    · obtain ⟨e, d, steps, rfl, hread⟩ := hread
      by_cases hz : ∃ s ∈ steps, s.1 = .divide ∧ Decimal.value s.2 = 0
      · obtain ⟨a, ha⟩ := exists_firstZeroDivision hread hz
        refine ⟨e, a, rfl, ha, Nat.le_of_not_lt fun hlt => ?_⟩
        exact hrej (.divisionByZero a) (by rw [calculate_of_firstZeroDivision ha, if_pos hlt])
      · rcases calculate_of_no_zeroDivision hread hz with ⟨v, hv⟩ | ⟨r, hr⟩
        · exact absurd hv (hok v)
        · exact absurd hr (hrej r)
    · obtain ⟨r, hr⟩ := exists_rejection fun e d steps he hr => hread ⟨e, d, steps, he, hr⟩
      exact absurd hr (hrej r)
  · rintro ⟨e, a, rfl, ha, hlong⟩
    have hcalc := calculate_of_firstZeroDivision ha
    rw [if_neg (Nat.not_lt.mpr hlong)] at hcalc
    rw [hcalc]
    constructor
    · intro v hv
      cases hv
    · intro r hr
      cases hr
  · obtain ⟨a, ha⟩ := exists_firstZeroDivision hread hz
    exact ⟨a, ha, calculate_of_firstZeroDivision ha⟩

/-! ## A division by zero that is not reported as one -/

/-- `1` and then so many zeros. -/
def powerOfTen (n : Nat) : Text := '1' :: List.replicate n '0'

/-- A power of ten, times ten, divided by zero. -/
def longDivision (n : Nat) : Text := powerOfTen n ++ ['*', '1', '0', '/', '0']

theorem value_powerOfTen (n : Nat) : Decimal.value (powerOfTen n) = 10 ^ n := by
  rw [Decimal.value, powerOfTen, Nat.ofDigitChars_cons, Nat.ofDigitChars_replicate_zero]
  exact Nat.mul_one _

theorem isNumeral_powerOfTen (n : Nat) : Text.IsNumeral (powerOfTen n) := by
  refine ⟨List.cons_ne_nil _ _, fun c hc => ?_⟩
  rcases List.mem_cons.mp hc with rfl | hc'
  · rfl
  · rw [List.eq_of_mem_replicate hc']
    rfl

theorem readable_longDivision {n : Nat} (h : n < 4300) :
    Readable (longDivision n) (powerOfTen n) [(.multiply, ['1', '0']), (.divide, ['0'])] := by
  have hlast : Continues ['/', '0'] [(.divide, ['0'])] :=
    Continues.step_tight .divide (d := ['0']) ⟨List.cons_ne_nil _ _, List.all_eq_true.mp rfl⟩
      (.last Text.isSpaces_nil)
  have hrest : Continues ['*', '1', '0', '/', '0'] [(.multiply, ['1', '0']), (.divide, ['0'])] :=
    Continues.step_tight .multiply (d := ['1', '0']) ⟨List.cons_ne_nil _ _, List.all_eq_true.mp rfl⟩
      hlast
  have hlen : (powerOfTen n).length = n + 1 := by
    rw [powerOfTen, List.length_cons, List.length_replicate]
  exact ⟨.intro Text.isSpaces_nil (isNumeral_powerOfTen n) hrest (List.cons_ne_nil _ _),
    by omega, by simp⟩

theorem firstZeroDivision_longDivision {n : Nat} (h : n < 4300) :
    FirstZeroDivision (longDivision n) (10 ^ n * 10) := by
  refine ⟨powerOfTen n, [(.multiply, ['1', '0'])], ['0'], [], readable_longDivision h, rfl,
    by simp, ?_⟩
  rw [value_powerOfTen, Int.natCast_pow]
  rfl

/-- The dividend has one digit more than can be written. -/
theorem longDivision_escapes : calculate (some (longDivision 4299)) = .error .numberTooLong := by
  have hlong : ∀ n, 4300 = n + 1 → ¬(10 ^ n * 10 : Int).natAbs < 10 ^ 4300 := by
    intro n hn
    rw [hn, Int.natAbs_mul, Int.natAbs_pow]
    exact Nat.lt_irrefl _
  rw [calculate_of_firstZeroDivision (firstZeroDivision_longDivision (by decide)),
    if_neg (hlong 4299 rfl)]

end Reckon
