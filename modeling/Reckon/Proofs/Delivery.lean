import Reckon.Proofs.FileLines

/-!
# From the worker to the batch

A worker that starts logs the number of its line, and so the number has to be written. If it
can be, all of the worker's messages can (`Job.result_note`), and in between the calculation
ends in one of two ways: the worker fills in the record of an outcome with a result, or with
the message and the kind of a failure. Both pass the check of outcomes, so there is always
something to send (`Job.build_filled`). An error always says something, for no message is
empty (`Failure.message_ne_nil`).

A number of too many digits cannot be written, and the worker breaks down at its first log
message. That message stands in front of what closes the pipe in any case: nothing is sent,
and the pipe stays open (`Job.run_of_unwritable`).

An outcome is sent without its null fields and checked again on arrival. What the check asks
is whether a field is there, and not what it holds, and so nothing is lost: not a result of
zero, nor an empty error text (`Outcome.build_write`).
-/

namespace Reckon

/-! ## Messages -/

theorem Text.words_ne_nil {words : String} (h : words ≠ "") : words.toList ≠ [] :=
  fun hw => h (String.toList_eq_nil_iff.mp hw)

theorem Text.quoted_ne_nil (t : Text) : quoted t ≠ [] := List.cons_ne_nil _ _

/-- Every message ends with words or with a text in quotes. -/
theorem Rejection.message_ne_nil : ∀ r : Rejection, r.message ≠ []
  | missingExpression _ | nothingToEvaluate => Text.words_ne_nil (by decide)
  | invalidCharacter .. | noOperand _ | missingOperator .. | missingOperand .. | trailingOperator _
  | noOperator _ | unknownOperator _ =>
      List.append_ne_nil_of_right_ne_nil _ (Text.quoted_ne_nil _)
  | operandTooLong .. | surplusOperands .. | surplusOperations .. | divisionByZero _
  | resultTooLong .. => List.append_ne_nil_of_right_ne_nil _ (Text.words_ne_nil (by decide))

theorem Failure.message_ne_nil : ∀ f : Failure, f.message ≠ []
  | rejected cause => cause.message_ne_nil
  | numberTooLong => List.append_ne_nil_of_right_ne_nil _ (Text.words_ne_nil (by decide))

/-! ## What a worker does -/

theorem Decimal.not_isWritable {n : Nat} (h : n = Nat.pow 10 digitLimit) : ¬IsWritable n := by
  rw [IsWritable, ← h]
  exact Nat.lt_irrefl n

namespace Job

/-- The record of a job that a worker reads before it starts. -/
def given (e : Text) (n : Int) : Record :=
  [("expression".toList, .text e), ("line_number".toList, .integer n)]

section

variable {library : Record.Library}

theorem build_given (h : library.Faithful) (j : Job) :
    build library (given j.expression j.line.val) = .ok j := by
  have hexpr : (given j.expression j.line.val).required "expression".toList library.text
      = .ok j.expression := Record.required_eq_ok rfl (h.text _)
  have hline : (given j.expression j.line.val).required "line_number".toList
      (Record.Reader.positiveBy library.integer) = .ok j.line :=
    Record.required_eq_ok rfl (Record.positiveBy_integer h.integer _)
  simp only [build, hexpr, hline, Checked.both]
  rfl

theorem exists_of_given (h : library.Faithful) (e : Text) {n : Int} (hn : 1 ≤ n) :
    ∃ j, build library (given e n) = .ok j ∧ (j.line.val : Int) = n ∧ j.expression = e := by
  have hpos : 0 < n.toNat := by omega
  have hcast : (n.toNat : Int) = n := by omega
  have hbuild := build_given h ⟨⟨n.toNat, hpos⟩, e⟩
  simp only [hcast] at hbuild
  exact ⟨_, hbuild, hcast, rfl⟩

/-- The fields of the outcome that a worker fills in, by how the calculation ends. -/
def filled (j : Job) : Record :=
  [("line".toList, .integer j.line.val), ("expression".toList, .text j.expression)] ++
    match calculate (some j.expression) with
    | .ok v => [("result".toList, .integer v)]
    | .error f => [("error".toList, .text f.message), ("error_kind".toList, .text f.kindName)]

theorem filled_eq (j : Job) : j.filled = j.evaluate.given := by
  rw [filled, evaluate_eq]
  cases calculate (some j.expression) <;> rfl

/-- What a worker fills in is an outcome, whichever way the calculation ends. -/
theorem build_filled (h : library.Faithful) (j : Job) :
    Outcome.build library j.filled = .ok j.evaluate := by
  rw [filled_eq, Outcome.build_given h]

theorem calculate_eq_ok_iff_evaluate {j : Job} {v : Int} :
    calculate (some j.expression) = .ok v ↔
      j.evaluate.result? = some v ∧ j.evaluate.error? = none ∧ j.evaluate.kind = none := by
  rw [evaluate_eq]
  cases calculate (some j.expression) with
  | ok w => simp [succeed, Outcome.result?, Outcome.error?]
  | error f => simp [fail, Outcome.result?]

theorem evaluate_of_error {j : Job} {f : Failure} (h : calculate (some j.expression) = .error f) :
    j.evaluate.result? = none ∧ j.evaluate.error? = some f.message
      ∧ j.evaluate.kind = some f.kindName := by
  rw [evaluate_eq, h]
  exact ⟨rfl, rfl, rfl⟩

/-! ### The log messages -/

theorem result_note {j : Job} (h : Decimal.IsWritable j.line.val) (level : Log.Level)
    (mark words : Text) : (note level mark words j).result = .ok () := by
  unfold note heading
  rw [if_pos h]
  rfl

theorem note_of_unwritable {j : Job} (h : ¬Decimal.IsWritable j.line.val) (level : Log.Level)
    (mark words : Text) : (note level mark words j).result = .error .numberTooLong
      ∧ (note level mark words j).entries = [] := by
  unfold note heading
  rw [if_neg h]
  exact ⟨rfl, rfl⟩

theorem result_noteEnd {j : Job} (h : Decimal.IsWritable j.line.val) (found : Except Failure Int) :
    (j.noteEnd found).result = .ok () := by
  match found with
  | .ok _ | .error (.rejected _) | .error .numberTooLong => simp only [noteEnd, result_note h]

/-! ### A worker's life -/

theorem result_evaluating (hlibrary : library.Faithful) {j : Job}
    (h : Decimal.IsWritable j.line.val) : (j.evaluating library).result = .ok j.evaluate := by
  have hbuilt : Outcome.build library (j.report (calculate (some j.expression))).fields.withoutNulls
      = .ok j.evaluate := Outcome.build_given hlibrary j.evaluate
  have hfound : (calculating (some j.expression)).result = calculate (some j.expression) := rfl
  rw [evaluating, Logged.result_bind, Logged.result_attempt, hfound]
  dsimp only
  rw [Logged.result_bind, result_noteEnd h, Logged.result_quiet, hbuilt]
  rfl

/-- A worker whose line can be written sends the record of its outcome and closes the pipe. -/
theorem run_of_writable (hlibrary : library.Faithful) {j : Job}
    (h : Decimal.IsWritable j.line.val) (p : Pipe) :
    (j.run library p).1 = ⟨p.payloads ++ [j.evaluate.write library], false⟩
      ∧ (j.run library p).2.result = .ok j.evaluate := by
  have hstart : j.noteStart.result = .ok () := result_note h ..
  have hworked : (j.noteStart >>= fun _ => j.evaluating library).result = .ok j.evaluate := by
    rw [Logged.result_bind, hstart]
    exact result_evaluating hlibrary h
  rw [run]
  dsimp only
  rw [hstart, hworked]
  exact ⟨rfl, rfl⟩

/-- A worker whose line cannot be written leaves its pipe as it was, and logs nothing. -/
theorem run_of_unwritable (library : Record.Library) {j : Job}
    (h : ¬Decimal.IsWritable j.line.val) (p : Pipe) :
    (j.run library p).1 = p ∧ (j.run library p).2.result = .error .numberTooLong
      ∧ (j.run library p).2.entries = [] := by
  obtain ⟨hstart, hquiet⟩ : j.noteStart.result = .error .numberTooLong ∧ j.noteStart.entries = [] :=
    note_of_unwritable h ..
  rw [run]
  dsimp only
  rw [Logged.result_bind, Logged.entries_bind, hstart, hquiet]
  exact ⟨rfl, rfl, rfl⟩

end

end Job

namespace Batch

/-- **The outcome arrives, if the line can be written.** Let a library read integers and
texts as what they are and leave out only nulls. Then any expression and any line number
from 1 on make a job. If the number can be written, a worker that does the job sends one
record, that of the outcome, and closes its pipe; if not, it breaks down at its first log
message, sends nothing and leaves the pipe open. The outcome can be built whichever way the
calculation ends. It has the line and the expression of the job; it has a result, no error
and no kind if and only if the calculation has that value, and after a failure it has no
result, but an error that is not empty and the kind of the failure. And what the batch reads
from the record of an outcome, be it this one or any other, is that very outcome. -/
theorem outcome_arrives {library : Record.Library} (hlibrary : library.Faithful) (e : Text)
    (n : Int) (hn : 1 ≤ n) :
    (∃ j, Job.build library (Job.given e n) = .ok j ∧ (j.line.val : Int) = n ∧ j.expression = e
        ∧ (Decimal.IsWritable n → ∀ p : Pipe,
            (j.run library p).1 = ⟨p.payloads ++ [j.evaluate.write library], false⟩
              ∧ (j.run library p).2.result = .ok j.evaluate)
        ∧ (¬Decimal.IsWritable n → ∀ p : Pipe,
            (j.run library p).1 = p ∧ (j.run library p).2.result = .error .numberTooLong)
        ∧ Outcome.build library j.filled = .ok j.evaluate
        ∧ j.evaluate.line = j.line ∧ j.evaluate.expression = e
        ∧ (∀ v, calculate (some e) = .ok v ↔
            j.evaluate.result? = some v ∧ j.evaluate.error? = none ∧ j.evaluate.kind = none)
        ∧ ∀ f, calculate (some e) = .error f →
            j.evaluate.result? = none
              ∧ (∃ m, j.evaluate.error? = some m ∧ m ≠ [] ∧ m = f.message)
              ∧ j.evaluate.kind = some f.kindName)
      ∧ ∀ o : Outcome, o.write library = o.fields.withoutNulls
        ∧ Outcome.build library (o.write library) = .ok o := by
  refine ⟨?_, fun o => ⟨hlibrary.write _, Outcome.build_write hlibrary o⟩⟩
  obtain ⟨j, hj, rfl, rfl⟩ := Job.exists_of_given hlibrary e hn
  refine ⟨j, hj, rfl, rfl, fun h p => Job.run_of_writable hlibrary h p,
    fun h p => ?_, j.build_filled hlibrary, line_evaluate j, expression_outcomeOf j .delivered,
    fun v => Job.calculate_eq_ok_iff_evaluate, fun f hf => ?_⟩
  · obtain ⟨hpipe, hresult, -⟩ := Job.run_of_unwritable library h p
    exact ⟨hpipe, hresult⟩
  · obtain ⟨hresult, herror, hkind⟩ := Job.evaluate_of_error hf
    exact ⟨hresult, ⟨_, herror, f.message_ne_nil, rfl⟩, hkind⟩

/-- A line whose result is zero: it arrives as a result. -/
theorem outcome_arrives_zero : ∃ j : Job, j.line.val = 7 ∧ j.expression = "5 - 5".toList
    ∧ (j.run .standard Pipe.fresh).1 = ⟨[j.evaluate.toRecord], false⟩
    ∧ j.evaluate.result? = some 0 ∧ j.evaluate.error? = none
    ∧ Outcome.ofRecord j.evaluate.toRecord = .ok j.evaluate := by
  obtain ⟨⟨j, -, hline, hexpr, hsent, -, -, -, -, hok, -⟩, hread⟩ :=
    outcome_arrives Record.Library.faithful_standard "5 - 5".toList 7 (by decide)
  obtain ⟨hpipe, -⟩ := hsent (by decide +kernel) Pipe.fresh
  obtain ⟨hresult, herror, -⟩ := (hok 0).mp (by decide +kernel)
  exact ⟨j, by exact_mod_cast hline, hexpr, hpipe, hresult, herror, (hread j.evaluate).2⟩

theorem lost_of_unwritable {n : Nat} (hpos : 0 < n) (h : ¬Decimal.IsWritable n) (e : Text) :
    ∃ j : Job, j.line.val = n ∧ j.expression = e
      ∧ Job.ofRecord (Job.given e n) = .ok j
      ∧ (j.run .standard Pipe.fresh).1 = Pipe.fresh
      ∧ (j.run .standard Pipe.fresh).2.result = .error .numberTooLong := by
  let j : Job := ⟨⟨n, hpos⟩, e⟩
  obtain ⟨hpipe, hresult, -⟩ := Job.run_of_unwritable .standard (j := j) h Pipe.fresh
  exact ⟨j, rfl, rfl, Job.build_given Record.Library.faithful_standard j, hpipe, hresult⟩

/-- A worker whose line number has one digit too many sends nothing, although its expression
has a value, and does not close its pipe. -/
theorem outcome_lost : calculate (some "1 + 1".toList) = .ok 2
    ∧ ∃ j : Job, j.line.val = Nat.pow 10 Decimal.digitLimit ∧ j.expression = "1 + 1".toList
      ∧ Job.ofRecord (Job.given "1 + 1".toList (Nat.pow 10 Decimal.digitLimit : Nat)) = .ok j
      ∧ (j.run .standard Pipe.fresh).1 = Pipe.fresh
      ∧ (j.run .standard Pipe.fresh).2.result = .error .numberTooLong := by
  -- the number is kept as a name, so that nothing writes it out
  obtain ⟨n, hn⟩ : ∃ n, n = Nat.pow 10 Decimal.digitLimit := ⟨_, rfl⟩
  have hpos : 0 < n := by
    rw [hn, Decimal.lt_pow_iff]
    exact Nat.pow_pos (Nat.zero_lt_succ 9)
  rw [← hn]
  exact ⟨by decide +kernel, lost_of_unwritable hpos (Decimal.not_isWritable hn) _⟩

end Batch

end Reckon
