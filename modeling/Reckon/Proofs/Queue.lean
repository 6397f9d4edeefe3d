import Reckon.Proofs.Contract

/-!
# The queue of an evaluation

An evaluation goes through the operands after the first one. For each of them it takes
the next operation off a queue, and applies it to the value so far and the operand.
`Evaluation.fold` has the two lists already paired up; `Loop` is the evaluation with the
queue as a queue, which can turn out to be empty, and with a record of what has been taken
out of it.

The invariant is that the queue holds as many operations as there are operands to come.
`Loop.turn_of_queue` says what one turn does to a queue that is not empty, and
`Loop.run_of_balanced` what the turns for all operands come to: the loop does what the fold
does, and it ends with the queue empty and every operation taken out once, in order.

The second half of the module is about pairs of lists that may not fit together. That a
division by zero occurs can be read off the lists (`ZeroDivisionAt`), and so can the place
of the first one; only the number that is divided takes an evaluation. `evaluate_is_fold`
is the law.
-/

namespace Reckon

namespace Evaluation

/-! ## The loop -/

/-- An evaluation between two operands: the value so far, the operations in the queue, and
those that have been taken out of it. -/
structure Loop where
  value : Int
  queue : List Operator
  taken : List Operator
deriving DecidableEq

/-- Why the loop stops before it has gone through the operands. -/
inductive Stop where
  | emptyQueue
  | failed (f : Failure)
deriving DecidableEq

namespace Loop

/-- One turn of the loop, for the operand `b`. -/
def turn (l : Loop) (b : Int) : Except Stop Loop :=
  match l.queue with
  | [] => .error .emptyQueue
  | op :: queue =>
    match op.apply l.value b with
    | .ok v => .ok ⟨v, queue, l.taken ++ [op]⟩
    | .error f => .error (.failed f)

/-- The turns for all the operands to come. -/
def run (l : Loop) : List Int → Except Stop Loop
  | [] => .ok l
  | b :: rest =>
    match l.turn b with
    | .ok l' => l'.run rest
    | .error stop => .error stop

/-- The loop of an evaluation before its first turn. -/
def start (a : Int) (operations : List Operator) : Loop := ⟨a, operations, []⟩

/-- How a loop ends that comes to a value or a failure, and has emptied its queue. -/
def emptied (taken : List Operator) : Except Failure Int → Except Stop Loop
  | .ok v => .ok ⟨v, [], taken⟩
  | .error f => .error (.failed f)

theorem turn_of_queue {l : Loop} {op : Operator} {queue : List Operator}
    (h : l.queue = op :: queue) (b : Int) :
    l.turn b = match op.apply l.value b with
      | .ok v => .ok ⟨v, queue, l.taken ++ [op]⟩
      | .error f => .error (.failed f) := by
  rw [turn, h]

/-- With as many operations as there are operands to come, the queue is never found empty,
and it is empty in the end. -/
theorem run_of_balanced : ∀ {operands : List Int} {l : Loop},
    l.queue.length = operands.length →
    l.run operands = emptied (l.taken ++ l.queue) (fold l.value (l.queue.zip operands))
  | [], ⟨value, queue, taken⟩, h => by
      obtain rfl : queue = [] := List.length_eq_zero_iff.mp h
      rw [List.append_nil]
      rfl
  | b :: rest, ⟨value, queue, taken⟩, h => by
      cases queue with
      | nil => cases h
      | cons op queue =>
          rw [run, turn_of_queue rfl, List.zip_cons_cons, fold_cons]
          dsimp only
          cases op.apply value b with
          | error f => rfl
          | ok v =>
              have hrest : queue.length = rest.length := Nat.succ.inj h
              have hall : (taken ++ [op]) ++ queue = taken ++ op :: queue := by
                rw [List.append_assoc, List.singleton_append]
              dsimp only
              rw [run_of_balanced (l := ⟨v, queue, taken ++ [op]⟩) hrest, hall]

/-- Where the counts fit, the loop does what the evaluation does. -/
theorem run_start {operations : List Operator} {rest : List Int}
    (h : operations.length = rest.length) (a : Int) :
    (start a operations).run rest = emptied operations (evaluate (a :: rest) operations) := by
  rw [evaluate_cons h, run_of_balanced (l := start a operations) h]
  rfl

end Loop

/-! ## Divisions by zero -/

/-- The operation at the index is a division, and the operand after it is zero. -/
def ZeroDivisionAt (operands : List Int) (operations : List Operator) (k : Nat) : Prop :=
  operations[k]? = some .divide ∧ operands[k + 1]? = some 0

theorem zeroDivisionAt_cons {a : Int} {rest : List Int} {operations : List Operator} {k : Nat} :
    ZeroDivisionAt (a :: rest) operations k
      ↔ (operations.zip rest)[k]? = some (.divide, 0) := by
  rw [ZeroDivisionAt, List.getElem?_cons_succ, List.getElem?_zip_eq_some]

theorem exists_zeroDivisionAt_iff {a : Int} {rest : List Int} {operations : List Operator} :
    (∃ k, ZeroDivisionAt (a :: rest) operations k)
      ↔ ∃ s ∈ operations.zip rest, DividesByZero s := by
  constructor
  · rintro ⟨k, hk⟩
    exact ⟨_, List.mem_of_getElem? (zeroDivisionAt_cons.mp hk), rfl, rfl⟩
  · rintro ⟨⟨op, b⟩, hs, rfl, rfl⟩
    obtain ⟨k, hk⟩ := List.mem_iff_getElem?.mp hs
    exact ⟨k, zeroDivisionAt_cons.mpr hk⟩

/-- No step divides by zero in front of the first index at which one does. -/
theorem not_dividesByZero_take {a : Int} {rest : List Int} {operations : List Operator} {k : Nat}
    (h : ∀ m, m < k → ¬ZeroDivisionAt (a :: rest) operations m) :
    ∀ s ∈ (operations.zip rest).take k, ¬DividesByZero s := by
  rintro ⟨op, b⟩ hs ⟨hop, hb⟩
  obtain ⟨m, hm⟩ := List.mem_iff_getElem?.mp hs
  rw [List.getElem?_take] at hm
  split at hm
  case isTrue hlt =>
    refine h m hlt (zeroDivisionAt_cons.mpr ?_)
    rw [hm]
    exact congrArg some (Prod.ext hop hb)
  case isFalse => cases hm

/-! ## Lists that fit, and lists that do not -/

theorem exists_of_length {operands : List Int} {operations : List Operator}
    (h : operands.length = operations.length + 1) :
    ∃ a rest, operands = a :: rest ∧ operations.length = rest.length := by
  cases operands with
  | nil => cases h
  | cons a rest => exact ⟨a, rest, rfl, (Nat.succ.inj h).symm⟩

/-- What has a value has one operation fewer than operands. -/
theorem length_of_evaluate {operands : List Int} {operations : List Operator} {v : Int}
    (h : evaluate operands operations = .ok v) : operands.length = operations.length + 1 := by
  cases operands with
  | nil => cases h
  | cons a rest =>
      rw [evaluate, evaluating] at h
      split at h
      · cases h
      · split at h
        · cases h
        · rw [List.length_cons]
          omega

theorem evaluate_eq_total {a : Int} {rest : List Int} {operations : List Operator}
    (hlength : operations.length = rest.length)
    (h : ∀ k, ¬ZeroDivisionAt (a :: rest) operations k) :
    evaluate (a :: rest) operations = .ok (total a (operations.zip rest)) := by
  rw [evaluate_cons hlength]
  refine fold_eq_ok (fun s hs hz => ?_) a
  obtain ⟨k, hk⟩ := exists_zeroDivisionAt_iff.mpr ⟨s, hs, hz⟩
  exact h k hk

theorem evaluate_of_zeroDivision {a : Int} {rest : List Int} {operations : List Operator}
    (hlength : operations.length = rest.length) {k : Nat}
    (hk : ZeroDivisionAt (a :: rest) operations k)
    (hleast : ∀ m, m < k → ¬ZeroDivisionAt (a :: rest) operations m) :
    evaluate (a :: rest) operations
      = .error (.ofZeroDivision (total a ((operations.zip rest).take k))) := by
  obtain ⟨hlt, hget⟩ := List.getElem?_eq_some_iff.mp (zeroDivisionAt_cons.mp hk)
  have hsplit : operations.zip rest
      = (operations.zip rest).take k ++ (.divide, 0) :: (operations.zip rest).drop (k + 1) := by
    rw [← hget, ← List.drop_eq_getElem_cons hlt, List.take_append_drop]
  rw [evaluate_cons hlength]
  conv => lhs; rw [hsplit]
  exact fold_of_zeroDivision (not_dividesByZero_take hleast) a _

/-- The first `k` steps belong to the first `k + 1` operands. -/
theorem evaluate_take {a : Int} {rest : List Int} {operations : List Operator}
    (hlength : operations.length = rest.length) {k : Nat}
    (hleast : ∀ m, m < k → ¬ZeroDivisionAt (a :: rest) operations m) :
    evaluate ((a :: rest).take (k + 1)) (operations.take k)
      = .ok (total a ((operations.zip rest).take k)) := by
  have hzip : (operations.zip rest).take k = (operations.take k).zip (rest.take k) :=
    List.take_zipWith
  have hlength' : (operations.take k).length = (rest.take k).length := by
    rw [List.length_take, List.length_take, hlength]
  rw [List.take_succ_cons, evaluate_cons hlength', ← hzip]
  exact fold_eq_ok (not_dividesByZero_take hleast) a

/-! ## Cuts -/

/-- A fold goes on from what it has come to, a value or a failure. -/
theorem fold_append_eq_bind (rest : List (Operator × Int)) : ∀ (ss : List (Operator × Int))
    (a : Int), fold a (ss ++ rest) = (fold a ss).bind fun v => fold v rest
  | [], a => rfl
  | (op, b) :: ss, a => by
      rw [List.cons_append, fold_cons, fold_cons]
      cases op.apply a b with
      | error f => rfl
      | ok v => exact fold_append_eq_bind rest ss v

theorem evaluate_append {a : Int} {front back : List Int} {ops₁ ops₂ : List Operator}
    (hfront : ops₁.length = front.length) (hback : ops₂.length = back.length) :
    evaluate (a :: (front ++ back)) (ops₁ ++ ops₂)
      = (evaluate (a :: front) ops₁).bind fun w => evaluate (w :: back) ops₂ := by
  have hlength : (ops₁ ++ ops₂).length = (front ++ back).length := by
    rw [List.length_append, List.length_append, hfront, hback]
  rw [evaluate_cons hlength, evaluate_cons hfront, List.zip_append hfront, fold_append_eq_bind]
  congr 1
  funext w
  exact (evaluate_cons hback w).symm

/-! ## The law -/

/-- **An evaluation is a left fold that only a division by zero can stop.** Operands and
operations have a value exactly when there is one operand more than there are operations
and no division is followed by a zero; the value is that of the operations applied strictly
from left to right. Where the counts fit, the lists can be cut after any operand, and what
the front part comes to stands in for it. The first division by zero decides the failure,
and its message names what the part in front of it comes to, if that can be written. -/
theorem evaluate_is_fold (xs : List Int) (ops : List Operator) :
    ((∃ v, evaluate xs ops = .ok v)
        ↔ xs.length = ops.length + 1 ∧ ∀ k, ¬ZeroDivisionAt xs ops k)
      ∧ (∀ v, evaluate xs ops = .ok v → ∃ a rest, xs = a :: rest
          ∧ v = (ops.zip rest).foldl (fun a s => s.1.compute a s.2) a)
      ∧ (xs.length = ops.length + 1 → ∀ as bs os₁ os₂, xs = as ++ bs → ops = os₁ ++ os₂ →
          as.length = os₁.length + 1 →
          evaluate xs ops = (evaluate as os₁).bind fun w => evaluate ([w] ++ bs) os₂)
      ∧ (xs.length = ops.length + 1 → ∀ k, ZeroDivisionAt xs ops k →
          (∀ m, m < k → ¬ZeroDivisionAt xs ops m) →
          ∃ a f, evaluate (xs.take (k + 1)) (ops.take k) = .ok a ∧ evaluate xs ops = .error f
            ∧ (a.natAbs < 10 ^ 4300 → f = .rejected (.divisionByZero a)
                ∧ f.message = "Division by zero: ".toList ++ Decimal.ofInt a ++ " / 0".toList)
            ∧ (10 ^ 4300 ≤ a.natAbs → f = .numberTooLong)) := by
  have hvalue : xs.length = ops.length + 1 → (∀ k, ¬ZeroDivisionAt xs ops k) →
      ∃ a rest, xs = a :: rest ∧ evaluate xs ops = .ok (total a (ops.zip rest)) := by
    intro hlength hz
    obtain ⟨a, rest, rfl, hrest⟩ := exists_of_length hlength
    exact ⟨a, rest, rfl, evaluate_eq_total hrest hz⟩
  have hnone : ∀ v, evaluate xs ops = .ok v → ∀ k, ¬ZeroDivisionAt xs ops k := by
    intro v hv k hk
    obtain ⟨a, rest, rfl, hrest⟩ := exists_of_length (length_of_evaluate hv)
    obtain ⟨before, after, hsplit, hbefore⟩ :=
      exists_first_zeroDivision (exists_zeroDivisionAt_iff.mp ⟨k, hk⟩)
    rw [evaluate_cons hrest, hsplit, fold_of_zeroDivision hbefore] at hv
    cases hv
  refine ⟨⟨?_, ?_⟩, ?_, ?_, ?_⟩
  · rintro ⟨v, hv⟩
    exact ⟨length_of_evaluate hv, hnone v hv⟩
  · rintro ⟨hlength, hz⟩
    obtain ⟨a, rest, -, hv⟩ := hvalue hlength hz
    exact ⟨_, hv⟩
  · intro v hv
    obtain ⟨a, rest, hxs, hv'⟩ := hvalue (length_of_evaluate hv) (hnone v hv)
    exact ⟨a, rest, hxs, Except.ok.inj (hv.symm.trans hv')⟩
  · rintro hlength as bs os₁ os₂ rfl rfl has
    obtain ⟨a, front, rfl, hfront⟩ := exists_of_length has
    refine evaluate_append hfront ?_
    rw [List.length_append, List.length_append, List.length_cons] at hlength
    omega
  · intro hlength k hk hleast
    obtain ⟨a, rest, rfl, hrest⟩ := exists_of_length hlength
    refine ⟨_, _, evaluate_take hrest hleast, evaluate_of_zeroDivision hrest hk hleast, ?_, ?_⟩
    · intro hw
      rw [Failure.ofZeroDivision, if_pos ((Decimal.isWritable_iff _).mpr hw)]
      exact ⟨rfl, rfl⟩
    · intro hlong
      rw [Failure.ofZeroDivision, if_neg (mt (Decimal.isWritable_iff _).mp (Nat.not_lt.mpr hlong))]

/-- Of the two divisions by zero the first one is reported, and what has been evaluated in
front of it is negative. -/
theorem evaluate_is_fold_sample :
    (∃ f, evaluate [7, -2, 5, 0, 0] [.multiply, .add, .divide, .divide] = .error f
        ∧ f.message = "Division by zero: -9 / 0".toList)
      ∧ evaluate [7, -2, 5, 4] [.multiply, .add, .divide] = evaluate [-9, 4] [.divide] := by
  obtain ⟨-, -, -, hzero⟩ := evaluate_is_fold [7, -2, 5, 0, 0] [.multiply, .add, .divide, .divide]
  obtain ⟨-, -, hcut, -⟩ := evaluate_is_fold [7, -2, 5, 4] [.multiply, .add, .divide]
  constructor
  · have hearlier : ∀ m, m < 2 →
        ¬ZeroDivisionAt [7, -2, 5, 0, 0] [.multiply, .add, .divide, .divide] m := by
      rintro m hm ⟨hop, -⟩
      match m, hm with
      | 0, _ => cases hop
      | 1, _ => cases hop
    obtain ⟨a, f, ha, hf, hshort, -⟩ := hzero rfl 2 ⟨rfl, rfl⟩ hearlier
    obtain rfl : -9 = a := Except.ok.inj ha
    have hwritable : (-9 : Int).natAbs < 10 ^ 4300 :=
      (Decimal.isWritable_iff _).mp (by decide +kernel)
    exact ⟨f, hf, (hshort hwritable).2⟩
  · have hfront : evaluate [7, -2, 5] [.multiply, .add] = .ok (-9) := by decide +kernel
    rw [hcut rfl [7, -2, 5] [4] [.multiply, .add] [.divide] rfl rfl rfl, hfront]
    rfl

end Evaluation

end Reckon
