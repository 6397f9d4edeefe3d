import Reckon.Evaluation

/-!
# The strict left-to-right fold

`Evaluation.fold` can fail at every step. Whether it fails does not depend on the
values it goes through: only a division whose own operand is zero has no value.
So the fold is the plain left fold `total` of total arithmetic, unless some step
divides by zero, and then the first such step decides the failure. It reports
the value that had been reached before it (`fold_of_zeroDivision`).
-/

namespace Reckon

/-- The arithmetic of an operator, with quotients truncated toward zero. -/
def Operator.compute : Operator → Int → Int → Int
  | .add, a, b => a + b
  | .subtract, a, b => a - b
  | .multiply, a, b => a * b
  | .divide, a, b => a.tdiv b

namespace Evaluation

def DividesByZero (s : Operator × Int) : Prop := s.1 = .divide ∧ s.2 = 0

instance (s : Operator × Int) : Decidable (DividesByZero s) :=
  inferInstanceAs (Decidable (_ ∧ _))

/-- The operations applied strictly from left to right. -/
def total (a : Int) (ss : List (Operator × Int)) : Int :=
  ss.foldl (fun a s => s.1.compute a s.2) a

@[simp] theorem total_nil (a : Int) : total a [] = a := rfl

@[simp] theorem total_cons (a : Int) (s : Operator × Int) (ss : List (Operator × Int)) :
    total a (s :: ss) = total (s.1.compute a s.2) ss := rfl

/-! ## One step -/

theorem apply_eq_ok {op : Operator} {b : Int} (h : ¬DividesByZero (op, b)) (a : Int) :
    op.apply a b = .ok (op.compute a b) := by
  cases op with
  | add => rfl
  | subtract => rfl
  | multiply => rfl
  | divide =>
      have hb : b ≠ 0 := fun hb => h ⟨rfl, hb⟩
      rw [Operator.apply, Operator.combine, if_neg hb, Operator.quotient_eq_tdiv]
      rfl

theorem apply_zeroDivision (a : Int) :
    Operator.divide.apply a 0 = .error (.ofZeroDivision a) := rfl

/-! ## The whole fold -/

/-- The fold runs through steps that have a value. -/
theorem fold_append : ∀ {ss : List (Operator × Int)}, (∀ s ∈ ss, ¬DividesByZero s) →
    ∀ (a : Int) (rest : List (Operator × Int)), fold a (ss ++ rest) = fold (total a ss) rest
  | [], _, a, rest => by rw [List.nil_append, total_nil]
  | (op, b) :: ss, h, a, rest => by
      obtain ⟨hs, hss⟩ := List.forall_mem_cons.mp h
      rw [List.cons_append, fold_cons, apply_eq_ok hs, total_cons]
      exact fold_append hss (op.compute a b) rest

/-- A fold that has come to a value can be resumed from it. -/
theorem fold_append_of_ok {v : Int} : ∀ {ss : List (Operator × Int)} {a : Int}, fold a ss = .ok v →
    ∀ rest, fold a (ss ++ rest) = fold v rest
  | [], a, h, rest => by
      obtain rfl := Except.ok.inj h
      rfl
  | (op, b) :: ss, a, h, rest => by
      rw [fold_cons] at h
      rw [List.cons_append, fold_cons]
      cases hop : op.apply a b with
      | error f => rw [hop] at h; cases h
      | ok w =>
          rw [hop] at h
          exact fold_append_of_ok h rest

theorem fold_eq_ok {ss : List (Operator × Int)} (h : ∀ s ∈ ss, ¬DividesByZero s) (a : Int) :
    fold a ss = .ok (total a ss) := by
  have := fold_append h a []
  rwa [List.append_nil] at this

theorem fold_of_zeroDivision {before : List (Operator × Int)}
    (h : ∀ s ∈ before, ¬DividesByZero s) (a : Int) (after : List (Operator × Int)) :
    fold a (before ++ (.divide, 0) :: after) = .error (.ofZeroDivision (total a before)) := by
  rw [fold_append h, fold_cons, apply_zeroDivision]

/-- Steps among which one divides by zero have a first one that does. -/
theorem exists_first_zeroDivision : ∀ {ss : List (Operator × Int)},
    (∃ s ∈ ss, DividesByZero s) →
    ∃ before after, ss = before ++ (.divide, 0) :: after ∧ ∀ s ∈ before, ¬DividesByZero s
  | [], h => by
      obtain ⟨s, hs, -⟩ := h
      cases hs
  | (op, b) :: ss, h => by
      by_cases hz : DividesByZero (op, b)
      · obtain ⟨rfl, rfl⟩ := hz
        exact ⟨[], ss, rfl, fun s hs => nomatch hs⟩
      · have hss : ∃ s ∈ ss, DividesByZero s := by
          obtain ⟨s, hs, hsz⟩ := h
          rcases List.mem_cons.mp hs with rfl | hs'
          · exact absurd hsz hz
          · exact ⟨s, hs', hsz⟩
        obtain ⟨before, after, rfl, hbefore⟩ := exists_first_zeroDivision hss
        exact ⟨(op, b) :: before, after, rfl, List.forall_mem_cons.mpr ⟨hz, hbefore⟩⟩

/-! ## The two lists of an evaluation -/

theorem evaluate_cons {operations : List Operator} {rest : List Int}
    (h : operations.length = rest.length) (a : Int) :
    evaluate (a :: rest) operations = fold a (operations.zip rest) := by
  rw [evaluate, evaluating, if_neg (by omega), if_neg (by omega), fold]

end Evaluation

end Reckon
