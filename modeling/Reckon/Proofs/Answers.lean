import Reckon.Proofs.Contract

/-!
# Answers

What tells two failures apart for a caller is their class. Their messages quote the text,
so no two texts fail with the same rejection; `answer` keeps the class and
drops the message.

The answer depends on the tokens of a text and on nothing else about it. `answerOf`
says how: an illegal token decides at once, then the scan has its say, then the
fold, then the length of the value. `answer_eq` is the bridge to the program, and
whatever keeps the tokens of a text keeps its answer (`answer_congr`).
-/

namespace Reckon

open Evaluation Grammar

/-- The value of a text, or the name of the class of its failure. -/
def answer (e : Text) : Except Text Int :=
  (calculate (some e)).mapError Failure.kindName

theorem answer_of_rejected {e : Text} {r : Rejection}
    (h : calculate (some e) = .error (.rejected r)) : answer e = .error r.kind.name := by
  rw [answer, h]
  rfl

/-- A text with a value is readable, and its fold comes to the value. -/
theorem readable_of_ok {e : Text} {v : Int} (h : calculate (some e) = .ok v) :
    ∃ d steps, Readable e d steps ∧ fold (Decimal.value d) (numbers steps) = .ok v
      ∧ v.natAbs < 10 ^ 4300 := by
  by_cases hread : ∃ d steps, Readable e d steps
  · obtain ⟨d, steps, hread⟩ := hread
    rw [calculate_of_readable hread] at h
    cases hf : fold (Decimal.value d) (numbers steps) with
    | error f => simp only [hf] at h; cases h
    | ok w =>
        simp only [hf] at h
        obtain ⟨rfl, hw⟩ := checkResult_eq_ok_iff.mp h
        exact ⟨d, steps, hread, hf, hw⟩
  · obtain ⟨r, hr⟩ : ∃ r, calculate (some e) = .error (.rejected r) :=
      exists_rejection fun e' d steps he hr => hread ⟨d, steps, Option.some.inj he ▸ hr⟩
    rw [hr] at h
    cases h

/-! ## The scan without its messages -/

namespace Expression

/-- The scan with the class of a rejection in its place. -/
def scanClass (a : Awaited) (ts : List Token) :
    Except Rejection.Kind (List Int × List Operator) :=
  (scan [] a ts).mapError Rejection.kind

theorem mapError_map {α β ε δ : Type} (x : Except ε α) (f : α → β) (g : ε → δ) :
    (x.map f).mapError g = (x.mapError g).map f := by
  cases x <;> rfl

/-- The scanned text goes into the messages only. -/
theorem scan_mapError (e : Text) (a : Awaited) (ts : List Token) :
    (scan e a ts).mapError Rejection.kind = scanClass a ts := by
  rw [scanClass]
  induction ts generalizing a with
  | nil => cases a <;> rfl
  | cons t ts ih =>
      cases a with
      | operand =>
          cases t with
          | operand d =>
              simp only [scan]
              split
              · rw [mapError_map, mapError_map, ih]
              · rfl
          | operator op => rfl
          | other c => rfl
      | operator =>
          cases t with
          | operand d => rfl
          | operator op => rw [scan_operator, scan_operator, mapError_map, mapError_map, ih]
          | other c => rfl

theorem scanClass_eq_ok {e : Text} {a : Awaited} {ts : List Token}
    {p : List Int × List Operator} (h : scan e a ts = .ok p) : scanClass a ts = .ok p := by
  rw [← scan_mapError e, h, Except.mapError]

theorem scanClass_eq_error {e : Text} {a : Awaited} {ts : List Token} {r : Rejection}
    (h : scan e a ts = .error r) : scanClass a ts = .error r.kind := by
  rw [← scan_mapError e, h, Except.mapError]

/-- What the scan collects is the expression, if there is an operation in it. -/
theorem parse_of_scan_ok {e : Text} {xs : List Int} {ops : List Operator}
    (h : ∃ t ∈ tokenize e, t.isOperand = true)
    (hs : scan e .operand (tokenize e) = .ok (xs, ops)) :
    (ops = [] → parse e = .error (.noOperator e))
      ∧ (ops ≠ [] → ∃ x, parse e = .ok x ∧ x.operands = xs ∧ x.operations = ops) := by
  rw [parse_eq, ofTokens, if_pos (List.any_eq_true.mpr h)]
  split
  case h_1 hr => rw [hr] at hs; cases hs
  case h_2 hr =>
    obtain ⟨-, rfl⟩ := Prod.mk.inj (Except.ok.inj (hr.symm.trans hs))
    exact ⟨fun _ => rfl, fun hne => absurd rfl hne⟩
  case h_3 hr =>
    obtain ⟨rfl, rfl⟩ := Prod.mk.inj (Except.ok.inj (hr.symm.trans hs))
    exact ⟨fun hnil => (by cases hnil), fun _ => ⟨_, rfl, rfl, rfl⟩⟩

end Expression

open Expression

/-! ## The answer to tokens -/

/-- The answer from a value on: the fold, and the length of its value. -/
def answerFrom (a : Int) (ss : List (Operator × Int)) : Except Text Int :=
  match fold a ss with
  | .error f => .error f.kindName
  | .ok v => if Decimal.IsWritable v then .ok v else .error Rejection.Kind.overflow.name

def Token.isOther : Token → Bool
  | .other _ => true
  | _ => false

/-- The answer to tokens. -/
def answerOf (ts : List Token) : Except Text Int :=
  if ts.any Token.isOther then .error Rejection.Kind.invalidCharacter.name
  else if ts.any Token.isOperand then
    match scanClass .operand ts with
    | .error k => .error k.name
    | .ok (a :: xs, op :: ops) => answerFrom a ((op :: ops).zip xs)
    | .ok _ => .error Rejection.Kind.missingOperator.name
  else .error Rejection.Kind.missingOperand.name

theorem Token.any_isOther_iff {ts : List Token} :
    ts.any Token.isOther = true ↔ ∃ c, .other c ∈ ts := by
  rw [List.any_eq_true]
  constructor
  · rintro ⟨t, ht, ho⟩
    cases t with
    | other c => exact ⟨c, ht⟩
    | operand d => cases ho
    | operator op => cases ho
  · rintro ⟨c, hc⟩
    exact ⟨_, hc, rfl⟩

theorem checkCharacters_of_other {e : Text} {c : Char} (h : .other c ∈ tokenize e) :
    ∃ c' position, checkCharacters (some e) = .error (.invalidCharacter c' position e) := by
  obtain ⟨hc, hl⟩ := other_mem_tokenize.mp h
  cases hi : firstIllegal? 0 e with
  | none =>
      have hlegal := (firstIllegal?_eq_none 0).mp hi c hc
      rw [hl] at hlegal
      cases hlegal
  | some p =>
      cases e with
      | nil => cases hc
      | cons b t => exact ⟨p.1, p.2, by simp only [checkCharacters, hi]⟩

theorem checkCharacters_of_no_other {e : Text} (he : e ≠ []) (h : ∀ c, .other c ∉ tokenize e) :
    checkCharacters (some e) = .ok e := by
  refine checkCharacters_eq_ok_iff.mpr ⟨rfl, he, fun c hc => ?_⟩
  cases hl : isLegal c with
  | true => rfl
  | false => exact absurd (other_mem_tokenize.mpr ⟨hc, hl⟩) (h c)

theorem calculate_of_parse_error {e : Text} {r : Rejection}
    (hc : checkCharacters (some e) = .ok e) (hp : parse e = .error r) :
    calculate (some e) = .error (.rejected r) := by
  simp only [calculate_eq, hc, Calculation.ofChecked_eq, hp]

theorem answer_of_parse_ok {e : Text} {x : Expression} {a : Int} {xs : List Int}
    (hc : checkCharacters (some e) = .ok e) (hp : parse e = .ok x) (hx : x.operands = a :: xs) :
    answer e = answerFrom a (x.operations.zip xs) := by
  have hlen : x.operations.length = xs.length := by
    have hx' := x.length_operands
    rw [hx, List.length_cons] at hx'
    omega
  have heval : x.evaluate = fold a (x.operations.zip xs) := by
    rw [Expression.evaluate_eq, hx, evaluate_cons hlen]
  simp only [answer, calculate_eq, hc, Calculation.ofChecked_eq, hp, heval, answerFrom]
  cases fold a (x.operations.zip xs) with
  | error f => rfl
  | ok v =>
      simp only [Calculation.checkResult]
      split <;> rfl

/-- **The answer to a text is the answer to its tokens.** -/
theorem answer_eq {e : Text} (he : e ≠ []) : answer e = answerOf (tokenize e) := by
  rw [answerOf]
  split
  case isTrue hother =>
    obtain ⟨c, hc⟩ := Token.any_isOther_iff.mp hother
    obtain ⟨c', position, hcheck⟩ := checkCharacters_of_other hc
    exact answer_of_rejected (by rw [calculate_eq, hcheck])
  case isFalse hother =>
    have hcheck : checkCharacters (some e) = .ok e :=
      checkCharacters_of_no_other he fun c hc => hother (Token.any_isOther_iff.mpr ⟨c, hc⟩)
    split
    case isFalse hany =>
      have hno : ∀ t ∈ tokenize e, t.isOperand = false := fun t ht =>
        Bool.eq_false_iff.mpr fun hop => hany (List.any_eq_true.mpr ⟨t, ht, hop⟩)
      exact answer_of_rejected (calculate_of_parse_error hcheck (parse_of_no_operand hno))
    case isTrue hany =>
      have hop := List.any_eq_true.mp hany
      cases hs : scan e .operand (tokenize e) with
      | error r =>
          rw [scanClass_eq_error hs]
          exact answer_of_rejected (calculate_of_parse_error hcheck (parse_of_scan_error hop hs))
      | ok p =>
          obtain ⟨xs, ops⟩ := p
          obtain ⟨hnil, hcons⟩ := parse_of_scan_ok hop hs
          rw [scanClass_eq_ok hs]
          have hlen := length_of_scan_operand hs
          cases xs with
          | nil => simp at hlen
          | cons a xs =>
              cases ops with
              | nil => exact answer_of_rejected (calculate_of_parse_error hcheck (hnil rfl))
              | cons op ops =>
                  obtain ⟨x, hx, hxs, hops⟩ := hcons (List.cons_ne_nil _ _)
                  rw [answer_of_parse_ok hcheck hx hxs, hops]

theorem answer_congr {e e' : Text} (he : e ≠ []) (he' : e' ≠ [])
    (h : tokenize e = tokenize e') : answer e = answer e' := by
  rw [answer_eq he, answer_eq he', h]

end Reckon
