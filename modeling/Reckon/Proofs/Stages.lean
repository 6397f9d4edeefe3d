import Reckon.Expression.Record
import Reckon.Proofs.IllegalCharacters
import Reckon.Proofs.Magnitude
import Reckon.Proofs.Outcomes
import Reckon.Proofs.Queue

/-!
# What a stage may take for granted

The stages of a calculation check more than they have to. The scan looks for illegal
characters again, the record of an expression counts its operands and operations, and the
evaluation counts them once more. `stages_fit` says that none of these checks can fail on
what comes out of the stage before.

The three of them know the shape of an expression in different words: a scan that waits for
an operand or for an operator, a record with two lengths, and a queue that is taken from
once for each operand to come. What carries it from one stage to the next is
`length_of_scan_operand`, then `ofRecord_fields_iff`, then `Loop.run_start`.
-/

namespace Reckon

open Expression Evaluation

/-! ## The scan behind the check of the characters -/

/-- A token out of order is an illegal character, or it is a matter of order and length. -/
theorem Expression.offence?_cases {i : Nat} {t : Token} {k : Rejection.Kind}
    (h : offence? i t = some k) :
    (k = .invalidCharacter ∧ ∃ c, t = .other c)
      ∨ k ∈ [.missingOperand, .missingOperator, .overflow] := by
  cases t with
  | other c => exact Or.inl ⟨(Option.some.inj h).symm, c, rfl⟩
  | operator op =>
      rw [offence?] at h
      split at h
      · obtain rfl := Option.some.inj h
        exact Or.inr (by simp)
      · cases h
  | operand d =>
      rw [offence?] at h
      split at h
      · obtain rfl := Option.some.inj h
        exact Or.inr (by simp)
      · split at h
        · obtain rfl := Option.some.inj h
          exact Or.inr (by simp)
        · cases h

/-- A rejection by the parser is for an illegal character only if one is among the tokens,
and never for an unknown operator. -/
theorem Expression.Flaw.kind {e : Text} {r : Rejection} (h : Flaw e r) :
    (r.kind = .invalidCharacter → ∃ c, .other c ∈ tokenize e) ∧ r.kind ≠ .unknownOperator := by
  cases h with
  | noOperand => simp [Rejection.kind]
  | trailingOperator => simp [Rejection.kind]
  | noOperator => simp [Rejection.kind]
  | @violation before after t r split sound first =>
      have hkind : offence? before.length t = some r.kind := by
        rw [offence?_eq e, first]
        rfl
      rcases offence?_cases hkind with ⟨hinvalid, c, rfl⟩ | hother
      · rw [hinvalid]
        exact ⟨fun _ => ⟨c, by simp [split]⟩, by simp⟩
      · constructor
        · intro hinvalid
          simp [hinvalid] at hother
        · intro hunknown
          simp [hunknown] at hother

/-- No character of a text that has been checked is a token that does not belong there. -/
theorem other_notMem_of_checked {given : Option Text} {e : Text}
    (h : checkCharacters given = .ok e) (c : Char) : .other c ∉ tokenize e := by
  intro hc
  obtain ⟨-, -, hlegal⟩ := checkCharacters_eq_ok_iff.mp h
  obtain ⟨hmem, hillegal⟩ := other_mem_tokenize.mp hc
  rw [hlegal c hmem] at hillegal
  cases hillegal

/-- A token that is written as an operator is that operator. -/
theorem Token.eq_operator_of_text {e : Text} {t : Token} {op : Operator} (h : t ∈ tokenize e)
    (ht : t.text = [op.symbol]) : t = .operator op := by
  have hlegal : t.isOther = false := (Token.isLegal_iff h).mp (Or.inr ⟨op, ht⟩)
  cases t with
  | other c => cases hlegal
  | operand d =>
      obtain rfl : d = [op.symbol] := ht
      have hdigit := (numeral_of_mem_tokenize h).2 _ (List.mem_singleton_self _)
      rw [op.symbol_not_digit] at hdigit
      cases hdigit
  | operator op' =>
      have hsymbol : op'.symbol = op.symbol := (List.cons.inj ht).1
      have hop := Operator.ofChar?_symbol op'
      rw [hsymbol, Operator.ofChar?_symbol] at hop
      rw [Option.some.inj hop]

/-! ## The record of what the scan collects -/

theorem Record.Reader.itemsFrom_map {α : Type} {item : Reader α} {write : α → Value}
    (h : ∀ a, item (write a) = .ok a) : ∀ (as : List α) (index : Nat),
    itemsFrom item index (as.map write) = .ok as
  | [], _ => rfl
  | a :: as, index => by
      rw [List.map_cons, itemsFrom, h, itemsFrom_map h as (index + 1)]
      rfl

/-- A list whose items can be read is read, unless it is too short. -/
theorem Record.required_list {α : Type} {r : Record} {name : Text} {item : Reader α}
    {write : α → Value} {as : List α} (least : Nat)
    (hget : r.get? name = some (.list (as.map write))) (h : ∀ a, item (write a) = .ok a) :
    r.required name (Reader.list least item)
      = if as.length < least then
          .error [⟨[.field name], .tooShort least as.length⟩]
        else .ok as := by
  simp only [required, hget, Reader.list, Reader.itemsFrom_map h]
  split
  · rfl
  · rfl

namespace Expression

/-- Operands and operations as the fields of an expression. -/
def fields (xs : List Int) (ops : List Operator) : Record :=
  [("operands".toList, .list (xs.map .integer)),
   ("operations".toList, .list (ops.map fun op => .text [op.symbol]))]

/-- What the record of an expression accepts: two operands at least, one operation at
least, and one operation fewer than operands. -/
theorem ofRecord_fields_iff {xs : List Int} {ops : List Operator} {x : Expression} :
    ofRecord (fields xs ops) = .ok x
      ↔ (2 ≤ xs.length ∧ 1 ≤ ops.length ∧ xs.length = ops.length + 1)
        ∧ x.operands = xs ∧ x.operations = ops := by
  have hsymbol : ∀ op : Operator, Record.Reader.operator (.text [op.symbol]) = .ok op := by
    intro op
    simp only [Record.Reader.operator, Operator.ofText?, Operator.ofChar?_symbol]
  have hxs : (fields xs ops).required "operands".toList (.list 2 .integer)
      = if xs.length < 2 then
          .error [⟨[.field "operands".toList], .tooShort 2 xs.length⟩]
        else .ok xs :=
    Record.required_list 2 rfl fun _ => rfl
  have hops : (fields xs ops).required "operations".toList (.list 1 .operator)
      = if ops.length < 1 then
          .error [⟨[.field "operations".toList], .tooShort 1 ops.length⟩]
        else .ok ops :=
    Record.required_list 1 rfl hsymbol
  simp only [ofRecord, hxs, hops]
  by_cases hshort : xs.length < 2
  · rw [if_pos hshort]
    refine iff_of_false (fun h => ?_) (fun h => by omega)
    split at h
    case h_1 heq => split at heq <;> cases heq
    case h_2 => cases h
  by_cases hnone : ops.length < 1
  · rw [if_neg hshort, if_pos hnone]
    exact iff_of_false (fun h => by cases h) (fun h => by omega)
  rw [if_neg hshort, if_neg hnone]
  have hne : ops ≠ [] := fun hnil => hnone (by rw [hnil]; exact Nat.one_pos)
  show ofLists xs ops = .ok x ↔ _
  rw [ofLists]
  split
  case isTrue h =>
    constructor
    · intro hx
      obtain rfl := Except.ok.inj hx
      exact ⟨⟨by omega, by omega, h.2⟩, rfl, rfl⟩
    · rintro ⟨-, hoperands, hoperations⟩
      exact congrArg _ (operands_operations_inj hoperands.symm hoperations.symm)
  case isFalse h =>
    refine iff_of_false (fun hx => by cases hx) ?_
    rintro ⟨⟨-, -, hbalance⟩, -⟩
    exact h ⟨hne, hbalance⟩

theorem isOperand_of_scan {e : Text} {ts : List Token} {xs : List Int} {ops : List Operator}
    (h : scan e .operand ts = .ok (xs, ops)) : ∃ t ∈ ts, t.isOperand = true := by
  cases ts with
  | nil => cases h
  | cons t ts =>
      cases t with
      | operand d => exact ⟨_, List.mem_cons_self .., rfl⟩
      | operator op => cases h
      | other c => cases h

/-- A scan that comes to its end has collected an expression that the record accepts, or
one operand and no operation, which is rejected as that. -/
theorem parse_of_scan {e : Text} {xs : List Int} {ops : List Operator}
    (h : scan e .operand (tokenize e) = .ok (xs, ops)) :
    (ops = [] ∧ parse e = .error (.noOperator e))
      ∨ (2 ≤ xs.length ∧ 1 ≤ ops.length ∧ xs.length = ops.length + 1)
        ∧ ∃ x, ofRecord (fields xs ops) = .ok x ∧ parse e = .ok x := by
  have hbalance := length_of_scan_operand h
  obtain ⟨hnone, hsome⟩ := parse_of_scan_ok (isOperand_of_scan h) h
  cases ops with
  | nil => exact Or.inl ⟨rfl, hnone rfl⟩
  | cons op ops =>
      obtain ⟨x, hx, hoperands, hoperations⟩ := hsome (List.cons_ne_nil _ _)
      have hlengths : 2 ≤ xs.length ∧ 1 ≤ (op :: ops).length
          ∧ xs.length = (op :: ops).length + 1 := by
        rw [List.length_cons] at hbalance ⊢
        omega
      exact Or.inr ⟨hlengths, x, ofRecord_fields_iff.mpr ⟨hlengths, hoperands, hoperations⟩, hx⟩

/-! ## The evaluation of an expression -/

theorem exists_operands (x : Expression) :
    ∃ a rest, x.operands = a :: rest ∧ x.operations.length = rest.length :=
  exists_of_length x.length_operands

/-- An expression has a value, or divides by zero. -/
theorem evaluate_cases (x : Expression) :
    (∃ v, x.evaluate = .ok v) ∨ ∃ a, x.evaluate = .error (.ofZeroDivision a) := by
  obtain ⟨a, rest, hoperands, hlength⟩ := x.exists_operands
  obtain ⟨v, -, hv | hv⟩ := fold_ends_at_last (x.operations.zip rest) a
  · exact Or.inl ⟨v, by rw [x.evaluate_eq, hoperands, evaluate_cons hlength, hv]⟩
  · exact Or.inr ⟨v, by rw [x.evaluate_eq, hoperands, evaluate_cons hlength, hv]⟩

end Expression

/-- The causes for which an evaluation fails before its first step. -/
def Rejection.IsMiscount (r : Rejection) : Prop :=
  r = .nothingToEvaluate ∨ (∃ m n, r = .surplusOperands m n) ∨ ∃ m n, r = .surplusOperations m n

theorem Failure.ofZeroDivision_ne_miscount {a : Int} {r : Rejection} (h : r.IsMiscount) :
    Failure.ofZeroDivision a ≠ .rejected r := by
  rw [ofZeroDivision]
  split
  · rcases h with rfl | ⟨m, n, rfl⟩ | ⟨m, n, rfl⟩
    all_goals intro heq; cases heq
  · intro heq
    cases heq

/-- **What a stage lets through passes the guards of the next.** On a text whose characters
have been checked the parser meets no illegal character, and each token that is written as
an operator is resolved. Whatever text is scanned to its end, the record of an expression
accepts the two lists that have been collected, once the lone operand has been rejected; and
what the record accepts is nothing else but two lists of these lengths. On every expression
the evaluation finds nothing wrong with the counts, its queue is not empty when an operation
is taken from it, and when it comes to a value all operations have been taken, each of them
once and in order. -/
theorem stages_fit :
    (∀ given e, checkCharacters given = .ok e →
        (∀ r, parse e = .error r → r.kind ≠ .invalidCharacter ∧ r.kind ≠ .unknownOperator)
          ∧ ∀ t ∈ tokenize e, ∀ op : Operator, t.text = [op.symbol] →
              t = .operator op ∧ Operator.resolve t.text = .ok op)
      ∧ (∀ e xs ops, scan e .operand (tokenize e) = .ok (xs, ops) →
          (ops = [] ∧ parse e = .error (.noOperator e))
            ∨ (2 ≤ xs.length ∧ 1 ≤ ops.length ∧ xs.length = ops.length + 1)
              ∧ ∃ x, ofRecord (fields xs ops) = .ok x ∧ parse e = .ok x)
      ∧ (∀ xs ops, (∃ x, ofRecord (fields xs ops) = .ok x)
          ↔ 2 ≤ xs.length ∧ 1 ≤ ops.length ∧ xs.length = ops.length + 1)
      ∧ ∀ x : Expression,
          (∀ r : Rejection, r.IsMiscount → x.evaluate ≠ .error (.rejected r))
            ∧ ∃ a rest, x.operands = a :: rest
              ∧ (Loop.start a x.operations).run rest ≠ .error .emptyQueue
              ∧ (∀ f, x.evaluate = .error f
                  ↔ (Loop.start a x.operations).run rest = .error (.failed f))
              ∧ ∀ v, x.evaluate = .ok v
                  ↔ (Loop.start a x.operations).run rest
                    = .ok { value := v, queue := [], taken := x.operations } := by
  refine ⟨fun given e hchecked => ⟨fun r hr => ?_, fun t ht op hop => ?_⟩,
    fun e xs ops h => parse_of_scan h, fun xs ops => ⟨?_, fun h => ?_⟩,
    fun x => ⟨fun r hr => ?_, ?_⟩⟩
  · obtain ⟨hinvalid, hunknown⟩ := (flaw_of_parse_error hr).kind
    refine ⟨fun hkind => ?_, hunknown⟩
    obtain ⟨c, hc⟩ := hinvalid hkind
    exact other_notMem_of_checked hchecked c hc
  · exact ⟨Token.eq_operator_of_text ht hop, by rw [hop, Operator.resolve_symbol]⟩
  · rintro ⟨x, hx⟩
    exact (ofRecord_fields_iff.mp hx).1
  · have hne : ops ≠ [] := List.ne_nil_of_length_pos h.2.1
    exact ⟨⟨xs, ops, hne, h.2.2⟩, ofRecord_fields_iff.mpr ⟨h, rfl, rfl⟩⟩
  · rcases x.evaluate_cases with ⟨v, hv⟩ | ⟨a, ha⟩
    · rw [hv]
      intro heq
      cases heq
    · rw [ha]
      intro heq
      exact Failure.ofZeroDivision_ne_miscount hr (Except.error.inj heq)
  · obtain ⟨a, rest, hoperands, hlength⟩ := x.exists_operands
    have hrun := Loop.run_start hlength a
    rw [← hoperands, ← x.evaluate_eq] at hrun
    refine ⟨a, rest, hoperands, ?_, ?_, ?_⟩
    all_goals
      rw [hrun]
      cases x.evaluate <;> simp [Loop.emptied]

/-- A text that comes to its evaluation and fails there, after one operation has been taken
off the queue; and a text that the parser rejects, for another reason than its characters. -/
theorem stages_fit_sample :
    (checkCharacters (some "3 - 8/0".toList) = .ok "3 - 8/0".toList
        ∧ (∃ x, ofRecord (fields [3, 8, 0] [.subtract, .divide]) = .ok x
            ∧ parse "3 - 8/0".toList = .ok x)
        ∧ (Loop.start 3 [.subtract, .divide]).run [8, 0]
            = .error (.failed (.rejected (.divisionByZero (-5)))))
      ∧ checkCharacters (some "3 - ".toList) = .ok "3 - ".toList
      ∧ ∃ r, parse "3 - ".toList = .error r ∧ r.kind ≠ .invalidCharacter := by
  obtain ⟨hparser, hscan, -, hexpression⟩ := stages_fit
  refine ⟨⟨by decide, ?_, ?_⟩, ?_⟩
  · have hcollected : scan "3 - 8/0".toList .operand (tokenize "3 - 8/0".toList)
        = .ok ([3, 8, 0], [.subtract, .divide]) := by decide
    rcases hscan _ _ _ hcollected with ⟨hnone, -⟩ | ⟨-, hx⟩
    · cases hnone
    · exact hx
  · obtain ⟨-, a, rest, hoperands, -, hfailed, -⟩ :=
      hexpression ⟨[3, 8, 0], [.subtract, .divide], by decide, rfl⟩
    obtain ⟨rfl, rfl⟩ := List.cons.inj hoperands
    exact (hfailed _).mp (by decide +kernel)
  · have hchecked : checkCharacters (some "3 - ".toList) = .ok "3 - ".toList := by decide
    have hrejected : parse "3 - ".toList = .error (.trailingOperator "3 - ".toList) := by decide
    exact ⟨hchecked, _, hrejected, ((hparser _ _ hchecked).1 _ hrejected).1⟩

end Reckon
