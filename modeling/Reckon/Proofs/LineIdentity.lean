import Reckon.Job
import Reckon.Proofs.Messages

/-!
# A line tells its expression

The lines of a results file carry no numbers and come in any order, so that a line
has to tell by itself which expression it is about, although an expression may hold
` = ` or ` -> ERROR: ` and a message quotes the expression. A line is an expression
with a rest behind it, and the rest is one of three (`Closes`): a result, a failure
of legal characters, or the report of an illegal character.

What tells them apart is the first character of the line that is not legal in an
expression, and where it stands. Behind legal characters that is the `=` or the `>`
of the rest, and its place gives the length of the expression; otherwise it is the
character that the line reports. The symbol `>` is left to be counted: a message
shows none that the expression does not hold. Two lines that report the same
character at the same place end with their expressions in quotes, and as one of the
expressions begins the other, the lengths of the lines tell that they are equal.
-/

namespace Reckon

open Text (quoted escaped quoteMark)

/-! ## The first illegal character of a line -/

theorem firstIllegal?_append_of_legal {e : Text} {position : Nat} (t : Text)
    (h : firstIllegal? position e = none) :
    firstIllegal? position (e ++ t) = firstIllegal? (position + e.length) t := by
  induction e generalizing position with
  | nil => rfl
  | cons c e ih =>
      rw [firstIllegal?] at h
      split at h
      case isTrue hc =>
        rw [List.cons_append, firstIllegal?, if_pos hc, ih h, List.length_cons]
        congr 1
        omega
      case isFalse => cases h

theorem firstIllegal?_append_of_illegal {e : Text} {position : Nat} {x : Char × Nat} (t : Text)
    (h : firstIllegal? position e = some x) : firstIllegal? position (e ++ t) = some x := by
  obtain ⟨before, after, rfl, hbefore, hx, hplace⟩ := (firstIllegal?_eq_some_iff position).mp h
  refine (firstIllegal?_eq_some_iff position).mpr ⟨before, after ++ t, ?_, hbefore, hx, hplace⟩
  rw [List.append_assoc, List.cons_append]

theorem not_mem_of_legal {e : Text} {position : Nat} {x : Char}
    (h : firstIllegal? position e = none) (hx : isLegal x = false) : x ∉ e := by
  intro hmem
  have hlegal := (firstIllegal?_eq_none position).mp h x hmem
  rw [hx] at hlegal
  cases hlegal

/-! ## What stands behind the expression -/

/-- The words of a line about an illegal character, up to the quoted expression. -/
def illegalWords (c : Char) (position : Nat) : Text :=
  " -> ERROR: ".toList ++ ("Invalid character ".toList ++ quoted [c] ++ " at position ".toList
    ++ Decimal.ofNat position ++ ": ".toList)

/-- What stands behind an expression on its line. -/
inductive Closes (e : Text) : Text → Prop where
  | result (n : Int) (legal : firstIllegal? 0 e = none) :
      Closes e (' ' :: '=' :: ' ' :: Decimal.ofInt n)
  | failure (m : Text) (legal : firstIllegal? 0 e = none) (single : '>' ∉ m) :
      Closes e (' ' :: '-' :: '>' :: m)
  | illegal (c : Char) (position : Nat) (first : firstIllegal? 0 e = some (c, position)) :
      Closes e (illegalWords c position ++ quoted e)

theorem calculate_of_illegal {e : Text} {c : Char} {position : Nat}
    (h : firstIllegal? 0 e = some (c, position)) :
    calculate (some e) = .error (.rejected (.invalidCharacter c position e)) := by
  cases e with
  | nil => cases h
  | cons b e => simp only [calculate_eq, checkCharacters, h]

theorem Outcome.toLine_of_ok {j : Job} {n : Int} (h : calculate (some j.expression) = .ok n) :
    j.evaluate.toLine = j.expression ++ ' ' :: '=' :: ' ' :: Decimal.ofInt n := by
  simp [Job.evaluate_eq, h, Job.succeed, Outcome.toLine]

theorem Outcome.toLine_of_error {j : Job} {f : Failure}
    (h : calculate (some j.expression) = .error f) :
    j.evaluate.toLine = j.expression ++ " -> ERROR: ".toList ++ f.message := by
  simp [Job.evaluate_eq, h, Job.fail, Outcome.toLine]

theorem exists_closes (j : Job) :
    ∃ r, Closes j.expression r ∧ j.evaluate.toLine = j.expression ++ r := by
  cases hi : firstIllegal? 0 j.expression with
  | some x =>
      obtain ⟨c, position⟩ := x
      refine ⟨illegalWords c position ++ quoted j.expression, .illegal c position hi, ?_⟩
      rw [Outcome.toLine_of_error (calculate_of_illegal hi)]
      unfold illegalWords Failure.message Rejection.message
      simp only [List.append_assoc]
  | none =>
      cases hv : calculate (some j.expression) with
      | ok n => exact ⟨_, .result n hi, Outcome.toLine_of_ok hv⟩
      | error f =>
          refine ⟨_, .failure (" ERROR: ".toList ++ f.message) hi ?_, ?_⟩
          · -- a message shows this symbol only if the expression holds it
            intro hmem
            rcases List.mem_append.mp hmem with hmem | hmem
            · revert hmem
              decide
            · exact not_mem_of_legal hi rfl ((shows_of_calculate_error hv).mem hmem rfl)
          · rw [Outcome.toLine_of_error hv, List.append_assoc]
            rfl

/-! ## Reading the expression back -/

theorem not_mem_ofInt (n : Int) : '>' ∉ Decimal.ofInt n := by
  intro hmem
  have hshown := (Text.Shows.ofInt (e := []) n).mem hmem rfl
  cases hshown

theorem firstIllegal?_result {e : Text} (n : Int) (h : firstIllegal? 0 e = none) :
    firstIllegal? 0 (e ++ ' ' :: '=' :: ' ' :: Decimal.ofInt n) = some ('=', e.length + 1) := by
  rw [firstIllegal?_append_of_legal _ h, Nat.zero_add]
  rfl

theorem firstIllegal?_failure {e : Text} (m : Text) (h : firstIllegal? 0 e = none) :
    firstIllegal? 0 (e ++ ' ' :: '-' :: '>' :: m) = some ('>', e.length + 2) := by
  rw [firstIllegal?_append_of_legal _ h, Nat.zero_add]
  rfl

theorem mem_illegalWords (c : Char) (position : Nat) : '>' ∈ illegalWords c position :=
  List.mem_append_left _ (by decide)

/-- A line that reports an illegal character is no result. -/
theorem result_ne_illegal {e e' : Text} {n : Int} {c : Char} {position : Nat}
    (h : firstIllegal? 0 e = none) :
    e ++ ' ' :: '=' :: ' ' :: Decimal.ofInt n ≠ e' ++ (illegalWords c position ++ quoted e') := by
  intro heq
  have hmem : '>' ∈ e' ++ (illegalWords c position ++ quoted e') :=
    List.mem_append_right _ (List.mem_append_left _ (mem_illegalWords c position))
  rw [← heq] at hmem
  rcases List.mem_append.mp hmem with hmem | hmem
  · exact not_mem_of_legal h rfl hmem
  · simp [not_mem_ofInt] at hmem

/-- A line that reports an illegal character is no failure of legal characters. -/
theorem failure_ne_illegal {e e' m : Text} {c : Char} {position : Nat}
    (h : firstIllegal? 0 e = none) (hm : '>' ∉ m) (h' : firstIllegal? 0 e' = some (c, position)) :
    e ++ ' ' :: '-' :: '>' :: m ≠ e' ++ (illegalWords c position ++ quoted e') := by
  intro heq
  -- the character reported would have to be the symbol, and then the line holds it twice
  have hfirst := firstIllegal?_append_of_illegal (illegalWords c position ++ quoted e') h'
  rw [← heq, firstIllegal?_failure m h] at hfirst
  obtain ⟨rfl, -⟩ := Prod.mk.inj (Option.some.inj hfirst)
  have hcount := congrArg (List.count '>') heq
  have hself : 0 < e'.count '>' := by
    obtain ⟨before, after, rfl, -⟩ := (firstIllegal?_eq_some_iff 0).mp h'
    exact List.count_pos_iff.mpr (List.mem_append_right _ (List.mem_cons_self ..))
  have hwords : 0 < (illegalWords '>' position).count '>' :=
    List.count_pos_iff.mpr (mem_illegalWords '>' position)
  have hnone : e.count '>' = 0 := List.count_eq_zero.mpr (not_mem_of_legal h rfl)
  have hrest : m.count '>' = 0 := List.count_eq_zero.mpr hm
  have hone : (' ' :: '-' :: '>' :: m).count '>' = m.count '>' + 1 := by
    simp
  rw [List.count_append, List.count_append, List.count_append, hone] at hcount
  omega

theorem getLast?_append_quoted (t e : Text) : (t ++ quoted e).getLast? = some (quoteMark e) := by
  rw [quoted, ← List.append_assoc, List.getLast?_concat]

theorem eq_nil_of_quoted {a e x : Text}
    (h : e ++ (a ++ quoted e) = (e ++ x) ++ (a ++ quoted (e ++ x))) : x = [] := by
  have hmark : quoteMark e = quoteMark (e ++ x) := by
    have hlast := congrArg List.getLast? h
    rw [← List.append_assoc, ← List.append_assoc, getLast?_append_quoted,
      getLast?_append_quoted] at hlast
    exact Option.some.inj hlast
  have hlength := congrArg List.length h
  simp only [quoted, ← hmark, List.flatMap_append, List.length_append, List.length_cons] at hlength
  exact List.eq_nil_of_length_eq_zero (by omega)

/-- A line that ends with its expression in quotes tells the expression, if what
stands between is known. -/
theorem eq_of_quoted {a e e' : Text} (h : e ++ (a ++ quoted e) = e' ++ (a ++ quoted e')) :
    e = e' := by
  have hprefix : e <+: e' ++ (a ++ quoted e') := h ▸ List.prefix_append ..
  have hprefix' : e' <+: e' ++ (a ++ quoted e') := List.prefix_append ..
  rcases Nat.le_total e.length e'.length with hle | hle
  · obtain ⟨x, rfl⟩ := List.prefix_of_prefix_length_le hprefix hprefix' hle
    rw [eq_nil_of_quoted h, List.append_nil]
  · obtain ⟨x, rfl⟩ := List.prefix_of_prefix_length_le hprefix' hprefix hle
    rw [eq_nil_of_quoted h.symm, List.append_nil]

theorem Closes.expression_eq {e e' r r' : Text} (h : Closes e r) (h' : Closes e' r')
    (heq : e ++ r = e' ++ r') : e = e' := by
  have hfirst := congrArg (firstIllegal? 0) heq
  cases h with
  | result n legal =>
      rw [firstIllegal?_result n legal] at hfirst
      cases h' with
      | result n' legal' =>
          rw [firstIllegal?_result n' legal'] at hfirst
          obtain ⟨-, hlength⟩ := Prod.mk.inj (Option.some.inj hfirst)
          exact List.append_inj_left heq (by omega)
      | failure m' legal' single' =>
          rw [firstIllegal?_failure m' legal'] at hfirst
          obtain ⟨hsymbol, -⟩ := Prod.mk.inj (Option.some.inj hfirst)
          exact absurd hsymbol (by decide)
      | illegal c' position' first' => exact absurd heq (result_ne_illegal legal)
  | failure m legal single =>
      rw [firstIllegal?_failure m legal] at hfirst
      cases h' with
      | result n' legal' =>
          rw [firstIllegal?_result n' legal'] at hfirst
          obtain ⟨hsymbol, -⟩ := Prod.mk.inj (Option.some.inj hfirst)
          exact absurd hsymbol (by decide)
      | failure m' legal' single' =>
          rw [firstIllegal?_failure m' legal'] at hfirst
          obtain ⟨-, hlength⟩ := Prod.mk.inj (Option.some.inj hfirst)
          exact List.append_inj_left heq (by omega)
      | illegal c' position' first' => exact absurd heq (failure_ne_illegal legal single first')
  | illegal c position first =>
      cases h' with
      | result n' legal' => exact absurd heq.symm (result_ne_illegal legal')
      | failure m' legal' single' => exact absurd heq.symm (failure_ne_illegal legal' single' first)
      | illegal c' position' first' =>
          rw [firstIllegal?_append_of_illegal _ first, firstIllegal?_append_of_illegal _ first']
            at hfirst
          obtain ⟨rfl, rfl⟩ := Prod.mk.inj (Option.some.inj hfirst)
          exact eq_of_quoted heq

/-- **A line belongs to one expression.** The outcomes of two jobs are written as the
same line exactly when the jobs have the same expression, whatever characters the
expressions hold and on whatever lines they stand. In particular no result is written
like a failure. -/
theorem toLine_evaluate_inj (j k : Job) :
    (j.evaluate.toLine = k.evaluate.toLine ↔ j.expression = k.expression)
      ∧ (j.evaluate.succeeded = true → k.evaluate.succeeded = false →
          j.evaluate.toLine ≠ k.evaluate.toLine) := by
  have hinj : j.evaluate.toLine = k.evaluate.toLine → j.expression = k.expression := by
    intro heq
    obtain ⟨r, hr, hline⟩ := exists_closes j
    obtain ⟨r', hr', hline'⟩ := exists_closes k
    rw [hline, hline'] at heq
    exact hr.expression_eq hr' heq
  have hsame : j.expression = k.expression →
      j.evaluate.toLine = k.evaluate.toLine ∧ j.evaluate.succeeded = k.evaluate.succeeded := by
    intro he
    rw [Job.evaluate_eq, Job.evaluate_eq]
    rw [he]
    cases calculate (some k.expression) <;>
      simp [Job.succeed, Job.fail, Outcome.toLine, Outcome.succeeded, he]
  refine ⟨⟨hinj, fun he => (hsame he).1⟩, fun hj hk heq => ?_⟩
  have hsucceeded := (hsame (hinj heq)).2
  rw [hj, hk] at hsucceeded
  cases hsucceeded

end Reckon
