import Reckon.Text.Basic

/-!
# The four operators

An operator combines the value computed so far with the next operand. There is
no precedence, so an operator needs no more than its symbol and its arithmetic.
Quotients are truncated toward zero; only a division by zero has no value.
-/

namespace Reckon

inductive Operator where
  | add
  | subtract
  | multiply
  | divide
deriving DecidableEq, Repr

namespace Operator

/-- All operators, in the order in which messages list them. -/
def all : List Operator := [add, subtract, multiply, divide]

/-- The character that stands for the operator in an expression. -/
def symbol : Operator → Char
  | add => '+'
  | subtract => '-'
  | multiply => '*'
  | divide => '/'

def name : Operator → Text
  | add => "ADD".toList
  | subtract => "SUBTRACT".toList
  | multiply => "MULTIPLY".toList
  | divide => "DIVIDE".toList

/-- The operator a character stands for. -/
def ofChar? : Char → Option Operator
  | '+' => some add
  | '-' => some subtract
  | '*' => some multiply
  | '/' => some divide
  | _ => none

/-- The operator a text stands for; it has to be the symbol and nothing else. -/
def ofText? : Text → Option Operator
  | [c] => ofChar? c
  | _ => none

/-- The quotient of the magnitudes, with a sign. A dividend of zero goes with the
positive ones. -/
def quotient (a b : Int) : Int :=
  let magnitude : Nat := a.natAbs / b.natAbs
  if 0 ≤ a ↔ 0 < b then magnitude else -magnitude

/-- Combine a value with an operand; `none` for a division by zero. -/
def combine (op : Operator) (a b : Int) : Option Int :=
  match op with
  | add => some (a + b)
  | subtract => some (a - b)
  | multiply => some (a * b)
  | divide => if b = 0 then none else some (quotient a b)

theorem quotient_eq_tdiv (a b : Int) : quotient a b = a.tdiv b := by
  rw [quotient]
  by_cases ha : 0 ≤ a
  · obtain ⟨m, rfl⟩ := Int.eq_ofNat_of_zero_le ha
    by_cases hb : 0 < b
    · obtain ⟨n, rfl⟩ := Int.eq_ofNat_of_zero_le (Int.le_of_lt hb)
      exact if_pos (iff_of_true ha hb)
    · obtain ⟨n, rfl⟩ := Int.exists_eq_neg_ofNat (Int.not_lt.mp hb)
      rw [if_neg (fun h => hb (h.mp ha)), Int.natAbs_neg, Int.tdiv_neg]
      rfl
  · obtain ⟨m, rfl⟩ := Int.exists_eq_neg_ofNat (Int.le_of_not_le ha)
    by_cases hb : 0 < b
    · obtain ⟨n, rfl⟩ := Int.eq_ofNat_of_zero_le (Int.le_of_lt hb)
      rw [if_neg (fun h => ha (h.mpr hb)), Int.natAbs_neg, Int.neg_tdiv]
      rfl
    · obtain ⟨n, rfl⟩ := Int.exists_eq_neg_ofNat (Int.not_lt.mp hb)
      rw [if_pos (iff_of_false ha hb), Int.natAbs_neg, Int.natAbs_neg, Int.neg_tdiv, Int.tdiv_neg,
        Int.neg_neg]
      rfl

@[simp] theorem ofChar?_symbol (op : Operator) : ofChar? op.symbol = some op := by
  cases op <;> rfl

theorem symbol_of_ofChar? {c : Char} {op : Operator} (h : ofChar? c = some op) :
    op.symbol = c := by
  unfold ofChar? at h
  split at h <;> simp at h <;> subst h <;> rfl

theorem ofChar?_eq_some_iff {c : Char} {op : Operator} : ofChar? c = some op ↔ c = op.symbol :=
  ⟨fun h => (symbol_of_ofChar? h).symm, fun h => h ▸ ofChar?_symbol op⟩

end Operator

end Reckon
