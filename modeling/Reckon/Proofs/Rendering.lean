import Reckon.Proofs.Magnitude
import Reckon.Proofs.Resumption

/-!
# Reading undoes writing

An expression can be written in many ways: spaces may stand in front of every token
and behind the last one, and zeros in front of every operand. A `Spelling` fixes those
choices for one operand, and `spell` for a whole expression. Every spelling derives
from the grammar, digit runs and all (`Written.continues`), so whatever the choices
are, the expression that is read is the one that was written.

The canonical text of an expression is the spelling with no zeros and single spaces
(`render_eq_spell`). An operand that was read is short enough to be written without
zeros, which is what makes the canonical text of a text that is read readable again.
-/

namespace Reckon

open Grammar

/-! ## Zeros in front -/

theorem Decimal.value_zeros_append (k : Nat) (t : Text) :
    value (List.replicate k '0' ++ t) = value t := by
  rw [value, Nat.ofDigitChars_append, Nat.ofDigitChars_replicate_zero, Nat.mul_zero, ← value]

theorem Text.isNumeral_zeros_append {d : Text} (hd : d.IsNumeral) (k : Nat) :
    Text.IsNumeral (List.replicate k '0' ++ d) := by
  refine ⟨fun hnil => hd.1 (List.append_eq_nil_iff.mp hnil).2, fun c hc => ?_⟩
  rcases List.mem_append.mp hc with hzero | hc
  · rw [List.eq_of_mem_replicate hzero]
    rfl
  · exact hd.2 c hc

/-! ## Spellings -/

/-- A natural number as it is written: how many spaces stand in front of it, and how
many zeros. -/
structure Spelling where
  spaces : Nat
  zeros : Nat
  value : Nat

namespace Spelling

def digits (s : Spelling) : Text :=
  List.replicate s.zeros '0' ++ Decimal.ofNat s.value

/-- The number is written with no more digits than can be read. -/
def Fits (s : Spelling) : Prop := s.digits.length ≤ 4300

instance (s : Spelling) : Decidable s.Fits := inferInstanceAs (Decidable (_ ≤ _))

theorem isNumeral_digits (s : Spelling) : s.digits.IsNumeral :=
  Text.isNumeral_zeros_append (Decimal.isNumeral_ofNat s.value) s.zeros

theorem value_digits (s : Spelling) : Decimal.value s.digits = s.value := by
  rw [digits, Decimal.value_zeros_append, Decimal.value_ofNat]

end Spelling

/-- An operation as it is written: the operator with the spaces in front of it, and
the operand after it. -/
structure Written where
  spaces : Nat
  operator : Operator
  operand : Spelling

namespace Written

/-- Operations one after the other, and some spaces at the end. -/
def text (last : Nat) : List Written → Text
  | [] => List.replicate last ' '
  | w :: ws =>
    List.replicate w.spaces ' ' ++ w.operator.symbol
      :: (List.replicate w.operand.spaces ' ' ++ (w.operand.digits ++ text last ws))

/-- The operator and the digits of the operand. -/
def step (w : Written) : Operator × Text := (w.operator, w.operand.digits)

theorem continues (last : Nat) : ∀ ws : List Written, Continues (text last ws) (ws.map step)
  | [] => .last (Text.isSpaces_replicate last)
  | w :: ws =>
      .step (Text.isSpaces_replicate w.spaces) (Text.isSpaces_replicate w.operand.spaces)
        w.operand.isNumeral_digits (continues last ws)

end Written

/-- A first operand and the operations on it, with some spaces at the end. -/
def spell (first : Spelling) (ws : List Written) (last : Nat) : Text :=
  List.replicate first.spaces ' ' ++ (first.digits ++ Written.text last ws)

theorem readable_spell {first : Spelling} {ws : List Written} (hne : ws ≠ [])
    (hfirst : first.Fits) (hws : ∀ w ∈ ws, w.operand.Fits) (last : Nat) :
    Readable (spell first ws last) first.digits (ws.map Written.step) :=
  { derives := .intro (Text.isSpaces_replicate first.spaces) first.isNumeral_digits
      (Written.continues last ws) (mt List.map_eq_nil_iff.mp hne)
    length_first := hfirst
    length_rest := List.forall_mem_map.mpr hws }

theorem parse_spell {first : Spelling} {ws : List Written} (hne : ws ≠ []) (hfirst : first.Fits)
    (hws : ∀ w ∈ ws, w.operand.Fits) (last : Nat) {x : Expression}
    (hxs : x.operands = (first.value : Int) :: ws.map fun w => (w.operand.value : Int))
    (hops : x.operations = ws.map Written.operator) :
    Expression.parse (spell first ws last) = .ok x := by
  refine Expression.parse_eq_ok_iff.mpr
    ⟨first.digits, ws.map Written.step, readable_spell hne hfirst hws last, ?_, ?_⟩
  · rw [hxs, first.value_digits, List.map_map]
    refine congrArg _ (List.map_congr_left fun w _ => ?_)
    exact congrArg _ w.operand.value_digits.symm
  · rw [hops, List.map_map]
    rfl

/-! ## The canonical text -/

/-- The operation with a single space on each side of its operator. -/
def Written.plain (s : Operator × Nat) : Written := ⟨1, s.1, ⟨1, 0, s.2⟩⟩

theorem stepsText_eq_text : ∀ ss : List (Operator × Nat),
    Expression.stepsText (ss.map fun s => (s.1, (s.2 : Int))) = Written.text 0 (ss.map .plain)
  | [] => rfl
  | (op, n) :: ss => by
      rw [List.map_cons, List.map_cons, Expression.stepsText, Written.text, stepsText_eq_text ss]
      rfl

theorem render_eq_spell {x : Expression} {n : Nat} (ss : List (Operator × Nat))
    (hxs : x.operands = (n : Int) :: ss.map fun s => (s.2 : Int))
    (hops : x.operations = ss.map Prod.fst) :
    x.render = spell ⟨0, 0, n⟩ (ss.map .plain) 0 := by
  obtain ⟨operands, operations, hne, hlen⟩ := x
  subst hxs hops
  rw [Expression.render, Expression.steps, List.tail_cons, List.zip_map', stepsText_eq_text]
  rfl

/-- An expression of natural numbers that can be read is what its canonical text is
read as. -/
theorem parse_render_of_lists {x : Expression} {n : Nat} (ss : List (Operator × Nat))
    (hne : ss ≠ []) (hn : (Decimal.ofNat n).length ≤ 4300)
    (hss : ∀ s ∈ ss, (Decimal.ofNat s.2).length ≤ 4300)
    (hxs : x.operands = (n : Int) :: ss.map fun s => (s.2 : Int))
    (hops : x.operations = ss.map Prod.fst) : Expression.parse x.render = .ok x := by
  have hfirst : Spelling.Fits ⟨0, 0, n⟩ := hn
  have hrest : ∀ w ∈ ss.map Written.plain, w.operand.Fits := List.forall_mem_map.mpr hss
  rw [render_eq_spell ss hxs hops]
  refine parse_spell (mt List.map_eq_nil_iff.mp hne) hfirst hrest 0 ?_ ?_
  · rw [hxs, List.map_map]
    rfl
  · rw [hops, List.map_map]
    rfl

theorem Grammar.Continues.isNumeral {t : Text} {steps : List (Operator × Text)}
    (h : Continues t steps) : ∀ s ∈ steps, s.2.IsNumeral := by
  induction h with
  | last hs => exact fun s hmem => nomatch hmem
  | step hs hs' hd ht ih => exact List.forall_mem_cons.mpr ⟨hd, ih⟩

/-- A number that is read from a run of digits needs no more digits than the run has. -/
theorem Decimal.length_ofNat_value_le {d : Text} (hd : d.IsNumeral) {k : Nat} (hk : 0 < k)
    (h : d.length ≤ k) : (ofNat (value d)).length ≤ k := by
  have hpow : 10 ^ d.length ≤ 10 ^ k := Nat.pow_le_pow_right (by decide) h
  exact length_ofNat_le hk (Nat.lt_of_lt_of_le (value_lt hd) hpow)

/-- The canonical text of what is read from a text is read as the same. -/
theorem parse_render {e : Text} {x : Expression} (h : Expression.parse e = .ok x) :
    Expression.parse x.render = .ok x := by
  obtain ⟨d, steps, ⟨⟨-, hnum, ht, hne⟩, hd, hsteps⟩, hxs, hops⟩ :=
    Expression.parse_eq_ok_iff.mp h
  refine parse_render_of_lists (steps.map fun s => (s.1, Decimal.value s.2))
    (mt List.map_eq_nil_iff.mp hne) (n := Decimal.value d) ?_ ?_ ?_ ?_
  · exact Decimal.length_ofNat_value_le hnum (by decide) hd
  · rw [List.forall_mem_map]
    exact fun s hs => Decimal.length_ofNat_value_le (ht.isNumeral s hs) (by decide) (hsteps s hs)
  · rw [hxs, List.map_map]
    rfl
  · rw [hops, List.map_map]
    rfl

/-- **Reading undoes writing.** However natural numbers and operators are spelled, with
any number of spaces around the tokens and of zeros in front of the operands, as long as
no operand has more digits than can be read, the text is read as those operands and
operations in their order. What is read from a text is also read from its canonical
text. So of two texts that are read, the canonical texts tell whether they are read as
the same. -/
theorem parse_of_spelling :
    (∀ (first : Spelling) (ws : List Written) (last : Nat), ws ≠ [] → first.Fits →
        (∀ w ∈ ws, w.operand.Fits) →
        ∃ x, Expression.parse (spell first ws last) = .ok x
          ∧ x.operands = (first.value : Int) :: ws.map (fun w => (w.operand.value : Int))
          ∧ x.operations = ws.map Written.operator)
      ∧ (∀ e x, Expression.parse e = .ok x → Expression.parse x.render = .ok x)
      ∧ ∀ e e' x x', Expression.parse e = .ok x → Expression.parse e' = .ok x' →
          (x = x' ↔ x.render = x'.render) := by
  refine ⟨fun first ws last hne hfirst hws => ?_, fun e x h => parse_render h,
    fun e e' x x' h h' => ⟨congrArg _, fun heq => ?_⟩⟩
  · exact ⟨⟨(first.value : Int) :: ws.map fun w => (w.operand.value : Int),
      ws.map Written.operator, mt List.map_eq_nil_iff.mp hne, by simp⟩,
      parse_spell hne hfirst hws last rfl rfl, rfl, rfl⟩
  · have hx := parse_render h
    rw [heq, parse_render h'] at hx
    exact (Except.ok.inj hx).symm

/-- Zeros and spaces go, and a zero stays. -/
theorem parse_of_spelling_sample :
    ∃ x, Expression.parse "  007* 0 -  0042 ".toList = .ok x ∧ x.operands = [7, 0, 42]
      ∧ x.operations = [.multiply, .subtract]
      ∧ Expression.parse x.render = .ok x ∧ x.render = "7 * 0 - 42".toList := by
  obtain ⟨hspell, hrender, -⟩ := parse_of_spelling
  obtain ⟨x, hx, hxs, hops⟩ := hspell ⟨2, 2, 7⟩
    [⟨0, .multiply, ⟨1, 0, 0⟩⟩, ⟨1, .subtract, ⟨2, 2, 42⟩⟩] 1 (by decide) (by decide) (by decide)
  refine ⟨x, hx, hxs, hops, hrender _ x hx, ?_⟩
  rw [render_eq_spell [(.multiply, 0), (.subtract, 42)] hxs hops]
  rfl

end Reckon
