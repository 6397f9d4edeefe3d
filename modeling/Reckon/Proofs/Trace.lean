import Reckon.Proofs.IllegalCharacters
import Reckon.Proofs.Magnitude
import Reckon.Proofs.Queue

/-!
# The log tells the calculation

Three stages of a calculation leave entries in the log: the tokens before anything is read
off them, one entry after each operation that was applied, and the result at the very end.
So the log is a trace of how far the calculation came. `entries_trace` says that it is a
faithful one, and what its entries say: their texts are spelled out here, in `tokenEntry`,
`foldEntry` and `valueEntry`.

The entries of a fold are those of `Evaluation.stepsFrom`. One step has the operation
and the operand of its index, and its value is what the operation makes of the value before
it (`stepsFrom_get`). The steps are as many as there are operations, or they end right
before a division by zero (`stepsFrom_ends`). Both are inductions along the fold, and the
values in between are those of `reached`.

An entry shows numbers, and a number of more than 4300 digits leaves no entry. That is the
only way in which the trace can have a gap, and it takes an accumulator of that size: the
operands of a text are never too long, for it would not have been read.
-/

namespace Reckon

namespace Evaluation

/-! ## The steps of a fold -/

theorem stepsFrom_of_ok {op : Operator} {a b v : Int} (h : op.apply a b = .ok v)
    (rest : List (Operator × Int)) :
    stepsFrom a ((op, b) :: rest) = ⟨op, b, v⟩ :: stepsFrom v rest := by
  simp only [stepsFrom, h]

theorem stepsFrom_of_error {op : Operator} {a b : Int} {f : Failure} (h : op.apply a b = .error f)
    (rest : List (Operator × Int)) : stepsFrom a ((op, b) :: rest) = [] := by
  simp only [stepsFrom, h]

/-- The step at an index has the operation and the operand of the index, and its value is
what the operation makes of the value before it. -/
theorem stepsFrom_get : ∀ {ss : List (Operator × Int)} {a : Int} {i : Nat} {s : Step},
    (stepsFrom a ss)[i]? = some s → ss[i]? = some (s.operator, s.operand)
      ∧ ∃ v, (reached a ss)[i]? = some v ∧ (reached a ss)[i + 1]? = some s.value
        ∧ s.operator.apply v s.operand = .ok s.value
  | [], _, _, _, h => by cases h
  | (op, b) :: ss, a, i, s, h => by
      cases happly : op.apply a b with
      | error f =>
          rw [stepsFrom_of_error happly] at h
          cases h
      | ok w =>
          rw [stepsFrom_of_ok happly] at h
          rw [reached_of_ok happly]
          cases i with
          | zero =>
              obtain rfl := Option.some.inj h
              exact ⟨rfl, a, rfl, rfl, happly⟩
          | succ i => exact stepsFrom_get h

/-- The steps stop at the end of the operations or right before a division by zero, and
the value reached there is the value of the fold, or the dividend. -/
theorem stepsFrom_ends : ∀ (ss : List (Operator × Int)) (a : Int),
    ∃ v, (reached a ss)[(stepsFrom a ss).length]? = some v
      ∧ ((stepsFrom a ss).length = ss.length ∧ fold a ss = .ok v
        ∨ ss[(stepsFrom a ss).length]? = some (.divide, 0)
          ∧ fold a ss = .error (.ofZeroDivision v))
  | [], a => ⟨a, rfl, Or.inl ⟨rfl, rfl⟩⟩
  | (op, b) :: ss, a => by
      by_cases hz : DividesByZero (op, b)
      · obtain ⟨rfl, rfl⟩ := hz
        exact ⟨a, rfl, Or.inr ⟨rfl, rfl⟩⟩
      · have happly := apply_eq_ok hz a
        obtain ⟨v, hv, hends⟩ := stepsFrom_ends ss (op.compute a b)
        refine ⟨v, ?_, ?_⟩
        · rw [stepsFrom_of_ok happly, reached_of_ok happly]
          exact hv
        · rw [stepsFrom_of_ok happly, fold_cons, happly, List.length_cons, List.length_cons,
            List.getElem?_cons_succ]
          exact hends.imp_left (And.imp_left (congrArg Nat.succ))

/-! ## The values on the way -/

/-- The value after some operations is that of the fold of these operations. -/
theorem fold_take_of_reached : ∀ {ss : List (Operator × Int)} {a v : Int} {k : Nat},
    (reached a ss)[k]? = some v → fold a (ss.take k) = .ok v
  | _, a, v, 0, h => by
      obtain rfl : a = v := Option.some.inj h
      rfl
  | [], _, _, _ + 1, h => by cases h
  | (op, b) :: ss, a, v, k + 1, h => by
      cases happly : op.apply a b with
      | error f =>
          rw [reached_of_error happly] at h
          cases h
      | ok w =>
          rw [reached_of_ok happly] at h
          rw [List.take_succ_cons, fold_cons, happly]
          exact fold_take_of_reached h

theorem mem_reached_of_fold_take : ∀ {ss : List (Operator × Int)} {a v : Int} {k : Nat},
    fold a (ss.take k) = .ok v → v ∈ reached a ss
  | ss, a, v, 0, h => by
      obtain rfl := Except.ok.inj h
      exact List.mem_cons_self ..
  | [], a, v, _ + 1, h => by
      obtain rfl := Except.ok.inj h
      exact List.mem_cons_self ..
  | (op, b) :: ss, a, v, k + 1, h => by
      rw [List.take_succ_cons, fold_cons] at h
      cases happly : op.apply a b with
      | error f =>
          rw [happly] at h
          cases h
      | ok w =>
          rw [happly] at h
          rw [reached_of_ok happly]
          exact List.mem_cons_of_mem _ (mem_reached_of_fold_take h)

theorem length_reached (a : Int) (ss : List (Operator × Int)) :
    (reached a ss).length = (stepsFrom a ss).length + 1 := by
  rw [reached, List.length_cons, List.length_map]

end Evaluation

open Evaluation

/-! ## Expressions that have been read -/

namespace Expression

theorem operands_eq (x : Expression) : x.operands = x.first :: x.operands.tail := by
  obtain ⟨operands, operations, hne, hlength⟩ := x
  cases operands with
  | nil => cases hlength
  | cons a rest => rfl

theorem length_tail (x : Expression) : x.operations.length = x.operands.tail.length := by
  rw [List.length_tail, x.length_operands, Nat.add_sub_cancel]

theorem length_steps (x : Expression) : x.steps.length = x.operations.length := by
  rw [steps, List.length_zip, ← x.length_tail, Nat.min_self]

theorem steps_get {x : Expression} {i : Nat} {op : Operator} {b : Int} :
    x.steps[i]? = some (op, b) ↔ x.operations[i]? = some op ∧ x.operands[i + 1]? = some b := by
  rw [steps, List.getElem?_zip_eq_some, x.operands_eq, List.tail_cons, List.getElem?_cons_succ]

theorem evaluate_eq_fold (x : Expression) : x.evaluate = fold x.first x.steps := by
  rw [evaluate_eq, x.operands_eq, evaluate_cons x.length_tail, steps]

theorem isWritable_value {d : Text} (hd : d.IsNumeral) (hlength : d.length ≤ 4300) :
    Decimal.IsWritable (Decimal.value d) := by
  have hpow : ∀ k, d.length ≤ k → Decimal.value d < 10 ^ k := fun k hk =>
    Nat.lt_of_lt_of_le (value_lt hd) (Nat.pow_le_pow_right (by decide) hk)
  exact (Decimal.isWritable_iff _).mpr (hpow 4300 hlength)

/-- The operands of a text that has been read can be written. -/
theorem isWritable_of_parse {e : Text} {x : Expression} (h : parse e = .ok x) :
    ∀ b ∈ x.operands, Decimal.IsWritable b := by
  obtain ⟨d, steps, ⟨hder, hd, hsteps⟩, hxs, -⟩ := parse_eq_ok_iff.mp h
  obtain ⟨htok, -⟩ := Grammar.derives_iff.mp hder
  have hnumeral : ∀ d', .operand d' ∈ Grammar.tokens d steps → d'.IsNumeral := fun d' hd' =>
    numeral_of_mem_tokenize (htok ▸ hd')
  intro b hb
  rw [hxs] at hb
  rcases List.mem_cons.mp hb with rfl | hb
  · exact isWritable_value (hnumeral d (List.mem_cons_self ..)) hd
  · obtain ⟨s, hs, rfl⟩ := List.mem_map.mp hb
    refine isWritable_value (hnumeral s.2 (List.mem_cons_of_mem _ ?_)) (hsteps s hs)
    exact List.mem_flatMap.mpr ⟨s, hs, by simp⟩

end Expression

/-! ## Entries -/

namespace Calculation

/-- The entry that shows the tokens of a text. -/
def tokenEntry (e : Text) : Log.Entry :=
  ⟨.debug, "🔎 Tokens for ".toList ++ Text.quoted e ++ ": [".toList
    ++ List.intercalate ", ".toList ((tokenize e).map fun t => Text.quoted t.text)
    ++ "]".toList⟩

/-- The entry that shows an operation, its operand and the value after it. -/
def foldEntry (op : Operator) (b v : Int) : Log.Entry :=
  ⟨.debug, "🧮 ".toList ++ [op.symbol, ' '] ++ Decimal.ofInt b ++ " -> ".toList
    ++ Decimal.ofInt v⟩

/-- The entry that shows the value of a text. -/
def valueEntry (e : Text) (v : Int) : Log.Entry :=
  ⟨.debug, "✅ ".toList ++ Text.quoted e ++ " = ".toList ++ Decimal.ofInt v⟩

/-- The steps carried out for an expression. -/
def steps (x : Expression) : List Step :=
  stepsFrom x.first x.steps

theorem entries_folding : ∀ (ss : List (Operator × Int)) (a : Int),
    (folding a ss).entries = (stepsFrom a ss).filterMap Step.entry?
  | [], _ => rfl
  | (op, b) :: ss, a => by
      rw [folding, Logged.entries_bind, Logged.entries_quiet, Logged.result_quiet]
      cases happly : op.apply a b with
      | error f => rw [stepsFrom_of_error happly, List.append_nil, List.filterMap_nil]
      | ok v =>
          dsimp only
          rw [stepsFrom_of_ok happly, Logged.entries_bind, Logged.entries_write,
            Logged.result_write, List.nil_append]
          dsimp only
          rw [entries_folding ss v, List.filterMap_cons]
          cases Step.entry? ⟨op, b, v⟩ <;> rfl

theorem entries_evaluating (x : Expression) :
    x.evaluating.entries = (steps x).filterMap Step.entry? := by
  have hlength := x.length_tail
  rw [Expression.evaluating, x.operands_eq, evaluating, if_neg (by omega), if_neg (by omega),
    entries_folding, steps, Expression.steps]

theorem entries_parsing (e : Text) : (Expression.parsing e).entries = [tokenEntry e] := by
  rw [Expression.parsing, Logged.entries_bind, Logged.entries_write, Logged.result_write]
  simp [Expression.tokensEntry, tokenEntry, Text.quotedList, Function.comp_def]

/-- The stages leave their entries one after the other, as far as the calculation comes. -/
theorem entries_eq (given : Option Text) : entries given =
    match checkCharacters given with
    | .error _ => []
    | .ok e => tokenEntry e :: match Expression.parse e with
      | .error _ => []
      | .ok x => (steps x).filterMap Step.entry? ++ match calculate given with
        | .error _ => []
        | .ok v => [valueEntry e v] := by
  rw [entries, calculating, Logged.entries_bind, Logged.entries_quiet, Logged.result_quiet,
    List.nil_append, calculate_eq]
  cases hc : checkCharacters given with
  | error r => rfl
  | ok e =>
      dsimp only [Except.mapError]
      rw [checked, Logged.entries_bind, Logged.entries_mapError, entries_parsing,
        Logged.result_mapError, ofChecked_eq, Expression.parse]
      cases (Expression.parsing e).result with
      | error r => rfl
      | ok x =>
          dsimp only [Except.mapError]
          rw [Logged.entries_bind, entries_evaluating, Expression.evaluate]
          cases x.evaluating.result with
          | error f => rfl
          | ok v =>
              dsimp only
              rw [Logged.entries_bind, Logged.entries_quiet, Logged.result_quiet]
              cases checkResult e v <;> rfl

/-- No step goes unnoticed whose numbers can be written. -/
theorem filterMap_entry? {ss : List Step}
    (h : ∀ s ∈ ss, Decimal.IsWritable s.operand ∧ Decimal.IsWritable s.value) :
    ss.filterMap Step.entry? = ss.map fun s => foldEntry s.operator s.operand s.value := by
  induction ss with
  | nil => rfl
  | cons s ss ih =>
      obtain ⟨hs, hss⟩ := List.forall_mem_cons.mp h
      rw [List.filterMap_cons, Step.entry?, if_pos hs, ih hss, List.map_cons, foldEntry]

theorem passed_entries (given : Option Text) :
    Log.passed .debug (entries given) = entries given := by
  have hstep : ∀ s r, Step.entry? s = some r → r.level = .debug := by
    intro s r h
    unfold Step.entry? at h
    split at h
    · obtain rfl := Option.some.inj h
      rfl
    · cases h
  have hdebug : ∀ r ∈ entries given, r.level = .debug := by
    intro r hr
    rw [entries_eq] at hr
    split at hr
    · cases hr
    · rcases List.mem_cons.mp hr with rfl | hr
      · rfl
      · split at hr
        · cases hr
        · rcases List.mem_append.mp hr with hr | hr
          · obtain ⟨s, -, hs⟩ := List.mem_filterMap.mp hr
            exact hstep s r hs
          · split at hr
            · cases hr
            · obtain rfl := List.mem_singleton.mp hr
              rfl
  refine List.filter_eq_self.mpr fun r hr => ?_
  rw [hdebug r hr]
  rfl

/-- The entries show the first operations of an expression, one each and in order. Beside
them stand the values: the first operand, and for each entry the value that it shows, which
is what its operation makes of the value before it and the next operand. -/
structure Traces (x : Expression) (values : List Int) (folds : List Log.Entry) : Prop where
  length_values : values.length = folds.length + 1
  first : values[0]? = x.operands[0]?
  entry : ∀ i r, folds[i]? = some r → ∃ op b a v, x.operations[i]? = some op
    ∧ x.operands[i + 1]? = some b ∧ values[i]? = some a ∧ values[i + 1]? = some v
    ∧ op.apply a b = .ok v ∧ r = foldEntry op b v

theorem traces_steps (x : Expression) : Traces x (reached x.first x.steps)
    ((steps x).map fun s => foldEntry s.operator s.operand s.value) where
  length_values := by rw [length_reached, List.length_map, steps]
  first := by
    rw [x.operands_eq]
    rfl
  entry i r hr := by
    rw [List.getElem?_map, Option.map_eq_some_iff] at hr
    obtain ⟨s, hs, rfl⟩ := hr
    obtain ⟨hget, a, ha, hv, happly⟩ := stepsFrom_get hs
    obtain ⟨hop, hb⟩ := Expression.steps_get.mp hget
    exact ⟨_, _, a, _, hop, hb, ha, hv, happly, rfl⟩

/-- No operation that was applied is a division by zero. -/
theorem Traces.not_zeroDivisionAt {x : Expression} {values : List Int} {folds : List Log.Entry}
    (h : Traces x values folds) {k : Nat} (hk : k < folds.length) :
    ¬ZeroDivisionAt x.operands x.operations k := by
  rintro ⟨hdivide, hzero⟩
  obtain ⟨op, b, a, v, hop, hb, -, -, happly, -⟩ :=
    h.entry k _ (List.getElem?_eq_getElem hk)
  obtain rfl : Operator.divide = op := Option.some.inj (hdivide.symm.trans hop)
  obtain rfl : (0 : Int) = b := Option.some.inj (hzero.symm.trans hb)
  rw [apply_zeroDivision] at happly
  cases happly

/-! ## The log of a text that has been read -/

section

variable {given : Option Text} {e : Text} {x : Expression}

theorem calculate_of_expression (hc : checkCharacters given = .ok e)
    (hp : Expression.parse e = .ok x) :
    calculate given = match fold x.first x.steps with
      | .ok v => checkResult e v
      | .error f => .error f := by
  simp only [calculate_eq, hc, ofChecked_eq, hp, x.evaluate_eq_fold]
  cases fold x.first x.steps <;> rfl

/-- With values that can be written, every step leaves its entry. -/
theorem entries_of_expression (hc : checkCharacters given = .ok e)
    (hp : Expression.parse e = .ok x)
    (hw : ∀ v ∈ reached x.first x.steps, Decimal.IsWritable v) :
    entries given = tokenEntry e ::
      (((steps x).map fun s => foldEntry s.operator s.operand s.value)
        ++ match calculate given with
          | .error _ => []
          | .ok v => [valueEntry e v]) := by
  have hsteps : ∀ s ∈ steps x, Decimal.IsWritable s.operand ∧ Decimal.IsWritable s.value := by
    intro s hs
    obtain ⟨i, hi⟩ := List.mem_iff_getElem?.mp hs
    obtain ⟨hget, -, -, hvalue, -⟩ := stepsFrom_get hi
    obtain ⟨-, hoperand⟩ := Expression.steps_get.mp hget
    exact ⟨Expression.isWritable_of_parse hp _ (List.mem_of_getElem? hoperand),
      hw _ (List.mem_of_getElem? hvalue)⟩
  simp only [entries_eq, hc, hp, filterMap_entry? hsteps]

/-- Either every operation leaves a step, and the last value is the result, or the steps end
right before a division of the last value by zero. -/
theorem ends_of_expression (hc : checkCharacters given = .ok e)
    (hp : Expression.parse e = .ok x)
    (hw : ∀ v ∈ reached x.first x.steps, Decimal.IsWritable v) :
    ∃ v, (reached x.first x.steps)[(steps x).length]? = some v
      ∧ ((steps x).length = x.operations.length ∧ calculate given = .ok v
        ∨ ZeroDivisionAt x.operands x.operations (steps x).length
          ∧ calculate given = .error (.rejected (.divisionByZero v))) := by
  obtain ⟨v, hv, hends⟩ := stepsFrom_ends x.steps x.first
  have hshort := hw v (List.mem_of_getElem? hv)
  refine ⟨v, hv, ?_⟩
  rw [calculate_of_expression hc hp]
  rcases hends with ⟨hall, hfold⟩ | ⟨hzero, hfold⟩
  · refine Or.inl ⟨by rw [steps, hall, x.length_steps], ?_⟩
    rw [hfold]
    exact if_pos hshort
  · refine Or.inr ⟨Expression.steps_get.mp hzero, ?_⟩
    rw [hfold, Failure.ofZeroDivision, if_pos hshort]

/-- **The log is a faithful trace.** As long as the values on the way can be written, the
log of a calculation tells how far it came. A text with illegal characters leaves no entry,
and a text that cannot be read leaves its tokens. An expression leaves its tokens, one entry
for each operation that was applied, and then the result if there is one. If a division by
zero stops it, the entries are those of the operations in front of it; if it has a value,
they are those of all operations, and the last of them shows the value. -/
theorem entries_trace (given : Option Text)
    (hw : ∀ e x k v, given = some e → Expression.parse e = .ok x →
      fold x.first (x.steps.take k) = .ok v → v.natAbs < 10 ^ 4300) :
    (∀ r, checkCharacters given = .error r → Log.passed .debug (entries given) = [])
      ∧ (∀ e r, checkCharacters given = .ok e → Expression.parse e = .error r →
          Log.passed .debug (entries given) = [tokenEntry e])
      ∧ ∀ e x, checkCharacters given = .ok e → Expression.parse e = .ok x →
          ∃ values folds closing,
            Log.passed .debug (entries given) = tokenEntry e :: (folds ++ closing)
              ∧ Traces x values folds
              ∧ (∀ k, ZeroDivisionAt x.operands x.operations k →
                  (∀ m, m < k → ¬ZeroDivisionAt x.operands x.operations m) →
                  folds.length = k ∧ closing = []
                    ∧ ∃ a, values[k]? = some a
                      ∧ calculate given = .error (.rejected (.divisionByZero a)))
              ∧ (∀ v, calculate given = .ok v →
                  folds.length = x.operations.length ∧ values[folds.length]? = some v
                    ∧ closing = [valueEntry e v])
              ∧ ((∃ k, ZeroDivisionAt x.operands x.operations k)
                  ∨ ∃ v, calculate given = .ok v) := by
  rw [passed_entries]
  refine ⟨fun r hc => ?_, fun e r hc hp => ?_, fun e x hc hp => ?_⟩
  · simp only [entries_eq, hc]
  · simp only [entries_eq, hc, hp]
  · obtain ⟨hgiven, -, -⟩ := checkCharacters_eq_ok_iff.mp hc
    have hwritable : ∀ v ∈ reached x.first x.steps, Decimal.IsWritable v := by
      intro v hv
      obtain ⟨k, hk⟩ := List.mem_iff_getElem?.mp hv
      exact (Decimal.isWritable_iff v).mpr (hw e x k v hgiven hp (fold_take_of_reached hk))
    have htraces := traces_steps x
    have hlength : ((steps x).map fun s => foldEntry s.operator s.operand s.value).length
        = (steps x).length := List.length_map _
    refine ⟨_, _, _, entries_of_expression hc hp hwritable, htraces, ?_⟩
    rw [hlength]
    obtain ⟨v, hv, ⟨hall, hcalculate⟩ | ⟨hzero, hcalculate⟩⟩ := ends_of_expression hc hp hwritable
    · refine ⟨fun k hk _ => ?_, fun v' hv' => ?_, Or.inr ⟨v, hcalculate⟩⟩
      · have hlt : k < x.operations.length := (List.getElem?_eq_some_iff.mp hk.1).1
        exact absurd hk (htraces.not_zeroDivisionAt (by omega))
      · obtain rfl := Except.ok.inj (hcalculate.symm.trans hv')
        exact ⟨hall, hv, by rw [hcalculate]⟩
    · refine ⟨fun k hk hfirst => ?_, fun v' hv' => ?_, Or.inl ⟨_, hzero⟩⟩
      · -- neither place can be in front of the other
        have hle : k ≤ (steps x).length := Nat.le_of_not_lt fun hlt => hfirst _ hlt hzero
        have hge : (steps x).length ≤ k := Nat.le_of_not_lt fun hlt =>
          htraces.not_zeroDivisionAt (by omega) hk
        obtain rfl := Nat.le_antisymm hge hle
        exact ⟨rfl, by rw [hcalculate], v, hv, hcalculate⟩
      · rw [hcalculate] at hv'
        cases hv'

/-- With no more digits than can be written, all values on the way can be written. -/
theorem natAbs_lt_of_fold_take {k : Nat} {v : Int} (hp : Expression.parse e = .ok x)
    (hcount : e.countP Char.isDigit ≤ 4300) (h : fold x.first (x.steps.take k) = .ok v) :
    v.natAbs < 10 ^ 4300 := by
  have hlt := accumulators_lt hp v (mem_reached_of_fold_take h)
  have hpow : ∀ n, e.countP Char.isDigit ≤ n → v.natAbs < 10 ^ n := fun n hn =>
    Nat.lt_of_lt_of_le hlt (Nat.pow_le_pow_right (by decide) hn)
  exact hpow 4300 hcount

end

/-- An expression that is evaluated up to its third operation. -/
def interrupted : Expression :=
  ⟨[7, 9, 2, 0, 1], [.subtract, .multiply, .divide, .add], by decide, by decide⟩

/-- A division by zero leaves the entries of the two operations in front of it. -/
theorem entries_trace_sample :
    Expression.parse "7 - 9 * 2 / 0 + 1".toList = .ok interrupted
      ∧ ∃ values folds, Log.passed .debug (entries (some "7 - 9 * 2 / 0 + 1".toList))
          = tokenEntry "7 - 9 * 2 / 0 + 1".toList :: folds
        ∧ Traces interrupted values folds ∧ folds.length = 2
        ∧ ∀ r, folds[1]? = some r → r.message = "🧮 * 2 -> -4".toList := by
  have hc : checkCharacters (some "7 - 9 * 2 / 0 + 1".toList) = .ok "7 - 9 * 2 / 0 + 1".toList := by
    decide
  have hp : Expression.parse "7 - 9 * 2 / 0 + 1".toList = .ok interrupted := by decide +kernel
  obtain ⟨-, -, hread⟩ := entries_trace (some "7 - 9 * 2 / 0 + 1".toList) (by
    intro e x k v he hx hfold
    obtain rfl := Option.some.inj he
    exact natAbs_lt_of_fold_take hx (by decide) hfold)
  obtain ⟨values, folds, closing, hlog, htraces, hzero, -⟩ := hread _ _ hc hp
  have hearlier : ∀ m, m < 2 →
      ¬ZeroDivisionAt interrupted.operands interrupted.operations m := by
    rintro m hm ⟨hop, -⟩
    match m, hm with
    | 0, _ => cases hop
    | 1, _ => cases hop
  obtain ⟨hlength, rfl, -⟩ := hzero 2 ⟨rfl, rfl⟩ hearlier
  rw [List.append_nil] at hlog
  refine ⟨hp, values, folds, hlog, htraces, hlength, fun r hr => ?_⟩
  have hstart : values[0]? = some 7 := htraces.first
  obtain ⟨_, _, _, _, ⟨⟩, ⟨⟩, ha, hv, happly, -⟩ :=
    htraces.entry 0 folds[0] (List.getElem?_eq_getElem (by omega))
  obtain rfl := Option.some.inj (hstart.symm.trans ha)
  obtain rfl := Except.ok.inj happly
  obtain ⟨_, _, _, _, ⟨⟩, ⟨⟩, ha', -, happly', rfl⟩ := htraces.entry 1 r hr
  obtain rfl := Option.some.inj (hv.symm.trans ha')
  obtain rfl := Except.ok.inj happly'
  decide

end Calculation

end Reckon
