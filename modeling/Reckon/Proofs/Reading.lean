import Reckon.Expression.Parse
import Reckon.Proofs.Grammar

/-!
# The first violation decides

`Expression.scan` walks the tokens with one bit of memory, what it waits for.
The law it follows needs no memory at all: whether a token is in order depends
on the token and on the parity of its index (`violation?`), and the token of
least index that is not in order decides the rejection.

The step lemmas `scan_of_violation` and `scan_of_sound` say this of one token.
From them, by induction over the tokens, come the two facts about a whole scan:

- it stops at the first violation, whatever comes later
  (`scan_of_first_violation`);
- without a violation the tokens alternate, so that only the end is left to be
  judged (`scan_of_even`, `eq_tokens_of_odd`).

`parse_cases` says what becomes of a text: it has a `Flaw`, or it is read.
`parse_eq_ok_iff` is the success half of the law in terms of the alternating
tokens of the grammar.
-/

namespace Reckon

theorem eq_error_of_map {α β ε : Type} {x : Except ε α} {f : α → β} {r : ε}
    (h : x.map f = .error r) : x = .error r := by
  cases x with
  | ok a => cases h
  | error r' => exact congrArg _ (Except.error.inj h)

namespace Expression

/-! ## Violations -/

/-- What the scan waits for in front of the token at an index. -/
def awaitedAt (i : Nat) : Awaited :=
  if i % 2 = 0 then .operand else .operator

theorem awaitedAt_of_even {i : Nat} (h : i % 2 = 0) : awaitedAt i = .operand := if_pos h

theorem awaitedAt_of_odd {i : Nat} (h : i % 2 = 1) : awaitedAt i = .operator :=
  if_neg (by omega)

/-- The rejection that a token of `e` at an index causes, if it is out of order
there. -/
def violation? (e : Text) (i : Nat) : Token → Option Rejection
  | .other c => some (.invalidCharacter c (e.idxOf c) e)
  | .operator op => if i % 2 = 0 then some (.missingOperand op e) else none
  | .operand d =>
    if i % 2 = 1 then some (.missingOperator d e)
    else if 4300 < d.length then some (.operandTooLong d.length e)
    else none

/-- The class of that rejection: it depends on neither the text nor any other
token. -/
def offence? (i : Nat) : Token → Option Rejection.Kind
  | .other _ => some .invalidCharacter
  | .operator _ => if i % 2 = 0 then some .missingOperand else none
  | .operand d =>
    if i % 2 = 1 then some .missingOperator
    else if 4300 < d.length then some .overflow
    else none

theorem offence?_eq (e : Text) (i : Nat) (t : Token) :
    offence? i t = (violation? e i t).map Rejection.kind := by
  cases t with
  | other c => rfl
  | operator op => simp only [offence?, violation?]; split <;> rfl
  | operand d => simp only [offence?, violation?]; split <;> (try split) <;> rfl

theorem violation?_eq_none_iff {e : Text} {i : Nat} {t : Token} :
    violation? e i t = none ↔ offence? i t = none := by
  rw [offence?_eq e, Option.map_eq_none_iff]

/-- No token is out of order, if the first one has index `i`. -/
def Sound (e : Text) (i : Nat) (ts : List Token) : Prop :=
  ∀ j t, ts[j]? = some t → violation? e (i + j) t = none

theorem Sound.head {e : Text} {i : Nat} {t : Token} {ts : List Token}
    (h : Sound e i (t :: ts)) : violation? e i t = none := h 0 t rfl

theorem Sound.tail {e : Text} {i : Nat} {t : Token} {ts : List Token}
    (h : Sound e i (t :: ts)) : Sound e (i + 1) ts := by
  intro j u hu
  rw [show i + 1 + j = i + (j + 1) by omega]
  exact h (j + 1) u hu

theorem Sound.cons {e : Text} {i : Nat} {t : Token} {ts : List Token}
    (h : Sound e (i + 1) ts) (ht : violation? e i t = none) : Sound e i (t :: ts) := by
  intro j u hu
  cases j with
  | zero => exact Option.some.inj hu ▸ ht
  | succ j =>
      rw [show i + (j + 1) = i + 1 + j by omega]
      exact h j u hu

theorem sound_append {e : Text} {i : Nat} {ts us : List Token} :
    Sound e i (ts ++ us) ↔ Sound e i ts ∧ Sound e (i + ts.length) us := by
  induction ts generalizing i with
  | nil => exact ⟨fun h => ⟨(fun _ _ ht => nomatch ht), h⟩, fun h => h.2⟩
  | cons t ts ih =>
      have hlen : i + (t :: ts).length = i + 1 + ts.length := by
        rw [List.length_cons]
        omega
      rw [hlen, List.cons_append]
      constructor
      · intro h
        obtain ⟨hts, hus⟩ := ih.mp h.tail
        exact ⟨hts.cons h.head, hus⟩
      · rintro ⟨hts, hus⟩
        exact (ih.mpr ⟨hts.tail, hus⟩).cons hts.head

theorem sound_singleton {e : Text} {i : Nat} {t : Token} :
    Sound e i [t] ↔ violation? e i t = none :=
  ⟨Sound.head, fun h => Sound.cons (fun _ _ ht => nomatch ht) h⟩

/-- At an even index only an operand that can be read is in order. -/
theorem eq_operand_of_sound {e : Text} {i : Nat} {t : Token} (hi : i % 2 = 0)
    (h : violation? e i t = none) : ∃ d, t = .operand d ∧ d.length ≤ 4300 := by
  cases t with
  | other c => cases h
  | operator op => rw [violation?, if_pos hi] at h; cases h
  | operand d =>
      refine ⟨d, rfl, Nat.le_of_not_lt fun hd => ?_⟩
      rw [violation?, if_neg (by omega), if_pos hd] at h
      cases h

/-- At an odd index only an operator is in order. -/
theorem eq_operator_of_sound {e : Text} {i : Nat} {t : Token} (hi : i % 2 = 1)
    (h : violation? e i t = none) : ∃ op, t = .operator op := by
  cases t with
  | other c => cases h
  | operator op => exact ⟨op, rfl⟩
  | operand d => rw [violation?, if_pos hi] at h; cases h

/-! ## One step of the scan -/

theorem scan_of_violation {e : Text} {i : Nat} {t : Token} {r : Rejection}
    (h : violation? e i t = some r) (ts : List Token) :
    scan e (awaitedAt i) (t :: ts) = .error r := by
  cases t with
  | other c =>
      obtain rfl := Option.some.inj h
      cases awaitedAt i <;> rfl
  | operator op =>
      rw [violation?] at h
      split at h
      case isTrue hi =>
        obtain rfl := Option.some.inj h
        rw [awaitedAt_of_even hi, scan]
      case isFalse => cases h
  | operand d =>
      rw [violation?] at h
      split at h
      case isTrue hi =>
        obtain rfl := Option.some.inj h
        rw [awaitedAt_of_odd hi, scan]
      case isFalse hi =>
        split at h
        case isTrue hd =>
          obtain rfl := Option.some.inj h
          rw [awaitedAt_of_even (by omega), scan, Decimal.digitLimit, if_neg (by omega)]
        case isFalse => cases h

/-- A token in order passes every rejection of the rest on. -/
theorem scan_of_sound {e : Text} {i : Nat} {t : Token} {ts : List Token} {r : Rejection}
    (h : violation? e i t = none) (hts : scan e (awaitedAt (i + 1)) ts = .error r) :
    scan e (awaitedAt i) (t :: ts) = .error r := by
  rcases Nat.mod_two_eq_zero_or_one i with hi | hi
  · obtain ⟨d, rfl, hd⟩ := eq_operand_of_sound hi h
    rw [awaitedAt_of_odd (by omega)] at hts
    rw [awaitedAt_of_even hi, scan, Decimal.digitLimit, if_pos hd, hts]
    rfl
  · obtain ⟨op, rfl⟩ := eq_operator_of_sound hi h
    rw [awaitedAt_of_even (by omega)] at hts
    rw [awaitedAt_of_odd hi, scan_operator, hts]
    rfl

/-! ## A whole scan -/

theorem scan_of_first_violation {e : Text} : ∀ {before : List Token} {i : Nat} {t : Token}
    {r : Rejection}, Sound e i before → violation? e (i + before.length) t = some r →
    ∀ after, scan e (awaitedAt i) (before ++ t :: after) = .error r
  | [], _, _, _, _, hv, after => scan_of_violation hv after
  | u :: before, i, t, r, hs, hv, after => by
      refine scan_of_sound hs.head (scan_of_first_violation hs.tail ?_ after)
      rw [show i + 1 + before.length = i + (u :: before).length by
        rw [List.length_cons]; omega]
      exact hv

/-- After an even number of tokens in order the scan still waits for an operand. -/
theorem scan_of_even {e : Text} : ∀ {ts : List Token} {i : Nat}, i % 2 = 0 → Sound e i ts →
    ts.length % 2 = 0 → scan e (awaitedAt i) ts = .error (.trailingOperator e)
  | [], i, hi, _, _ => by rw [awaitedAt_of_even hi, scan]
  | [_], _, _, _, hn => by simp at hn
  | t :: u :: ts, i, hi, hs, hn => by
      refine scan_of_sound hs.head (scan_of_sound hs.tail.head ?_)
      refine scan_of_even (by omega) hs.tail.tail ?_
      rw [List.length_cons, List.length_cons] at hn
      omega

/-- An odd number of tokens in order alternates. -/
theorem eq_tokens_of_odd {e : Text} : ∀ {ts : List Token} {i : Nat}, i % 2 = 0 → Sound e i ts →
    ts.length % 2 = 1 → ∃ d steps, ts = Grammar.tokens d steps ∧ d.length ≤ 4300
      ∧ ∀ s ∈ steps, s.2.length ≤ 4300
  | [], _, _, _, hn => by simp at hn
  | [t], i, hi, hs, _ => by
      obtain ⟨d, rfl, hd⟩ := eq_operand_of_sound hi hs.head
      exact ⟨d, [], rfl, hd, fun s hs' => nomatch hs'⟩
  | t :: u :: ts, i, hi, hs, hn => by
      obtain ⟨d, rfl, hd⟩ := eq_operand_of_sound hi hs.head
      obtain ⟨op, rfl⟩ := eq_operator_of_sound (by omega) hs.tail.head
      obtain ⟨d', steps, rfl, hd', hsteps⟩ :=
        eq_tokens_of_odd (i := i + 1 + 1) (by omega) hs.tail.tail (by
          rw [List.length_cons, List.length_cons] at hn
          omega)
      exact ⟨d, (op, d') :: steps, rfl, hd, List.forall_mem_cons.mpr ⟨hd', hsteps⟩⟩

/-- The scan resumes behind alternating tokens that can be read, and waits for an
operator there. -/
theorem scan_tokens_append {e : Text} : ∀ {steps : List (Operator × Text)} {d : Text},
    d.length ≤ 4300 → (∀ s ∈ steps, s.2.length ≤ 4300) → ∀ ts : List Token,
    scan e .operand (Grammar.tokens d steps ++ ts) = (scan e .operator ts).map fun p =>
      ((Decimal.value d : Int) :: (steps.map fun s => (Decimal.value s.2 : Int)) ++ p.1,
        steps.map Prod.fst ++ p.2)
  | [], d, hd, _, ts => by
      rw [Grammar.tokens, List.cons_append, scan, Decimal.digitLimit, if_pos hd]
      rfl
  | (op, d') :: steps, d, hd, hsteps, ts => by
      obtain ⟨hd', hrest⟩ := List.forall_mem_cons.mp hsteps
      have ih := scan_tokens_append (e := e) hd' hrest ts
      rw [Grammar.tokens, List.cons_append] at ih
      rw [Grammar.tokens, Grammar.stepTokens_cons, List.cons_append, List.cons_append,
        List.cons_append, scan, Decimal.digitLimit, if_pos hd, scan_operator, ih]
      cases scan e .operator ts <;> rfl

/-- What the scan collects from alternating tokens that can be read. -/
theorem scan_tokens {e : Text} {steps : List (Operator × Text)} {d : Text}
    (hd : d.length ≤ 4300) (hsteps : ∀ s ∈ steps, s.2.length ≤ 4300) :
    scan e .operand (Grammar.tokens d steps)
      = .ok ((Decimal.value d : Int) :: steps.map fun s => (Decimal.value s.2 : Int),
          steps.map Prod.fst) := by
  have h := scan_tokens_append (e := e) hd hsteps []
  rw [List.append_nil] at h
  rw [h, scan]
  simp [Except.map]

/-! ## From the scan to the expression -/

theorem parse_of_no_operand {e : Text} (h : ∀ t ∈ tokenize e, t.isOperand = false) :
    parse e = .error (.noOperand e) := by
  have hany : ¬(tokenize e).any Token.isOperand = true := by
    intro ha
    obtain ⟨t, ht, hop⟩ := List.any_eq_true.mp ha
    rw [h t ht] at hop
    cases hop
  rw [parse_eq, ofTokens, if_neg hany]

theorem parse_of_scan_error {e : Text} {r : Rejection}
    (h : ∃ t ∈ tokenize e, t.isOperand = true)
    (hs : scan e .operand (tokenize e) = .error r) : parse e = .error r := by
  rw [parse_eq, ofTokens, if_pos (List.any_eq_true.mpr h)]
  split
  case h_1 r' hr' => rw [hr'] at hs; exact congrArg _ (Except.error.inj hs)
  case h_2 hr' => rw [hr'] at hs; cases hs
  case h_3 hr' => rw [hr'] at hs; cases hs

theorem parse_of_tokens {e d : Text} {steps : List (Operator × Text)}
    (h : tokenize e = Grammar.tokens d steps) (hd : d.length ≤ 4300)
    (hsteps : ∀ s ∈ steps, s.2.length ≤ 4300) :
    (steps = [] → parse e = .error (.noOperator e))
      ∧ (steps ≠ [] → ∃ x, parse e = .ok x
        ∧ x.operands = (Decimal.value d : Int) :: steps.map (fun s => (Decimal.value s.2 : Int))
        ∧ x.operations = steps.map Prod.fst) := by
  have hany : (tokenize e).any Token.isOperand = true := by rw [h]; rfl
  have hscan := scan_tokens (e := e) hd hsteps
  rw [← h] at hscan
  rw [parse_eq, ofTokens, if_pos hany]
  split
  case h_1 hr' => rw [hr'] at hscan; cases hscan
  case h_2 hr' =>
    obtain ⟨-, hops⟩ := Prod.mk.inj (Except.ok.inj (hr'.symm.trans hscan))
    exact ⟨fun _ => rfl, fun hne => absurd (List.map_eq_nil_iff.mp hops.symm) hne⟩
  case h_3 hr' =>
    obtain ⟨hxs, hops⟩ := Prod.mk.inj (Except.ok.inj (hr'.symm.trans hscan))
    refine ⟨?_, fun _ => ⟨_, rfl, hxs, hops⟩⟩
    rintro rfl
    cases hops

theorem sound_or_first_violation (e : Text) : ∀ (ts : List Token) (i : Nat),
    Sound e i ts ∨ ∃ before t after r, ts = before ++ t :: after ∧ Sound e i before
      ∧ violation? e (i + before.length) t = some r
  | [], i => Or.inl fun _ _ h => nomatch h
  | t :: ts, i => by
      cases hv : violation? e i t with
      | some r => exact Or.inr ⟨[], t, ts, r, rfl, (fun _ _ h => nomatch h), hv⟩
      | none =>
          rcases sound_or_first_violation e ts (i + 1) with hs | ⟨before, u, after, r, rfl, hs, hu⟩
          · exact Or.inl (hs.cons hv)
          · refine Or.inr ⟨t :: before, u, after, r, rfl, hs.cons hv, ?_⟩
            rw [List.length_cons, ← Nat.add_assoc, Nat.add_right_comm]
            exact hu

/-- Alternating tokens that can be read are all in order. -/
theorem sound_tokens {e d : Text} {steps : List (Operator × Text)} (hd : d.length ≤ 4300)
    (hsteps : ∀ s ∈ steps, s.2.length ≤ 4300) : Sound e 0 (Grammar.tokens d steps) := by
  rcases sound_or_first_violation e (Grammar.tokens d steps) 0 with
    hs | ⟨before, t, after, r, ht, hs, hv⟩
  · exact hs
  · have hscan := scan_of_first_violation hs hv after
    rw [← ht, awaitedAt_of_even rfl, scan_tokens hd hsteps] at hscan
    cases hscan

theorem operands_operations_inj {x y : Expression} (hxs : x.operands = y.operands)
    (hops : x.operations = y.operations) : x = y := by
  cases x
  cases y
  cases hxs
  cases hops
  rfl

/-- What can be wrong with a text: the text as a whole, or the first token that is out
of order. -/
inductive Flaw (e : Text) : Rejection → Prop where
  | noOperand : Flaw e (.noOperand e)
  | trailingOperator : Flaw e (.trailingOperator e)
  | noOperator : Flaw e (.noOperator e)
  | violation {before after : List Token} {t : Token} {r : Rejection}
      (split : tokenize e = before ++ t :: after) (sound : Sound e 0 before)
      (first : violation? e before.length t = some r) : Flaw e r

/-- A text is rejected for a flaw, or it derives from the grammar and is read. -/
theorem parse_cases (e : Text) :
    (∃ r, Flaw e r ∧ parse e = .error r)
      ∨ ∃ d steps x, Grammar.Readable e d steps ∧ parse e = .ok x
          ∧ x.operands = (Decimal.value d : Int) :: steps.map (fun s => (Decimal.value s.2 : Int))
          ∧ x.operations = steps.map Prod.fst := by
  by_cases hany : ∃ t ∈ tokenize e, t.isOperand = true
  · rcases sound_or_first_violation e (tokenize e) 0 with hs | ⟨before, t, after, r, ht, hs, hv⟩
    · rcases Nat.mod_two_eq_zero_or_one (tokenize e).length with hn | hn
      · exact Or.inl ⟨_, .trailingOperator, parse_of_scan_error hany (scan_of_even rfl hs hn)⟩
      · obtain ⟨d, steps, htok, hd, hsteps⟩ := eq_tokens_of_odd rfl hs hn
        obtain ⟨hnil, hcons⟩ := parse_of_tokens htok hd hsteps
        by_cases hne : steps = []
        · exact Or.inl ⟨_, .noOperator, hnil hne⟩
        · obtain ⟨x, hx, hxs, hops⟩ := hcons hne
          exact Or.inr ⟨d, steps, x, ⟨Grammar.derives_iff.mpr ⟨htok, hne⟩, hd, hsteps⟩, hx, hxs,
            hops⟩
    · have hscan := scan_of_first_violation hs hv after
      rw [← ht] at hscan
      rw [Nat.zero_add] at hv
      exact Or.inl ⟨r, .violation ht hs hv, parse_of_scan_error hany hscan⟩
  · refine Or.inl ⟨_, .noOperand, parse_of_no_operand fun t ht => ?_⟩
    exact Bool.eq_false_iff.mpr fun hop => hany ⟨t, ht, hop⟩

theorem flaw_of_parse_error {e : Text} {r : Rejection} (h : parse e = .error r) : Flaw e r := by
  rcases parse_cases e with ⟨r', hflaw, hr'⟩ | ⟨d, steps, x, -, hx, -⟩
  · rw [h] at hr'
    exact Except.error.inj hr' ▸ hflaw
  · rw [h] at hx
    cases hx

/-- A text is read as an expression exactly when it derives from the grammar and
every operand is short enough to be read. -/
theorem parse_eq_ok_iff {e : Text} {x : Expression} :
    parse e = .ok x ↔ ∃ d steps, Grammar.Readable e d steps
      ∧ x.operands = (Decimal.value d : Int) :: steps.map (fun s => (Decimal.value s.2 : Int))
      ∧ x.operations = steps.map Prod.fst := by
  constructor
  · intro h
    rcases parse_cases e with ⟨r, -, hr⟩ | ⟨d, steps, y, hread, hy, hxs, hops⟩
    · rw [h] at hr
      cases hr
    · rw [h] at hy
      obtain rfl := Except.ok.inj hy
      exact ⟨d, steps, hread, hxs, hops⟩
  · rintro ⟨d, steps, ⟨hder, hd, hsteps⟩, hxs, hops⟩
    obtain ⟨htok, hne⟩ := Grammar.derives_iff.mp hder
    obtain ⟨y, hy, hxs', hops'⟩ := (parse_of_tokens htok hd hsteps).2 hne
    rw [hy, operands_operations_inj (hxs'.trans hxs.symm) (hops'.trans hops.symm)]

/-! ## The law -/

/-- The text is rejected for a cause of the class. -/
def Rejects (e : Text) (k : Rejection.Kind) : Prop :=
  ∃ r, parse e = .error r ∧ r.kind = k

/-- The least index of a token out of order is `i`, and the token is an offence
of the class there. -/
def LeastOffence (ts : List Token) (i : Nat) (k : Rejection.Kind) : Prop :=
  (∃ t, ts[i]? = some t ∧ offence? i t = some k)
    ∧ ∀ j t, j < i → ts[j]? = some t → offence? j t = none

theorem sound_of_no_offence {e : Text} {ts : List Token}
    (h : ∀ i t, ts[i]? = some t → offence? i t = none) : Sound e 0 ts := by
  intro j t ht
  rw [Nat.zero_add]
  exact violation?_eq_none_iff.mpr (h j t ht)

theorem sound_take {e : Text} {ts : List Token} {i : Nat}
    (h : ∀ j t, j < i → ts[j]? = some t → offence? j t = none) : Sound e 0 (ts.take i) := by
  refine sound_of_no_offence fun j t ht => ?_
  rw [List.getElem?_take] at ht
  split at ht
  · exact h j t ‹_› ht
  · cases ht

/-- **The first violation decides.** With no operand at all a text lacks an
operand. Otherwise the class of the rejection is the offence of the least token
out of order; and if no token is out of order, the number of tokens tells a
missing last operand, a lone operand, and an expression that has its operands at
the even and its operators at the odd indices. -/
theorem parse_by_least_offence (e : Text) :
    ((∀ t ∈ tokenize e, t.isOperand = false) → Rejects e .missingOperand)
      ∧ ((∃ t ∈ tokenize e, t.isOperand = true) →
        (∀ i k, LeastOffence (tokenize e) i k → Rejects e k)
          ∧ ((∀ i t, (tokenize e)[i]? = some t → offence? i t = none) →
            ((tokenize e).length % 2 = 0 → Rejects e .missingOperand)
              ∧ ((tokenize e).length = 1 → Rejects e .missingOperator)
              ∧ ((tokenize e).length % 2 = 1 → 3 ≤ (tokenize e).length →
                ∃ x, parse e = .ok x
                  ∧ 2 * x.operations.length + 1 = (tokenize e).length
                  ∧ (∀ k t, (tokenize e)[2 * k]? = some t →
                      ∃ d, t = .operand d ∧ x.operands[k]? = some (Decimal.value d : Int))
                  ∧ (∀ k t, (tokenize e)[2 * k + 1]? = some t →
                      ∃ op, t = .operator op ∧ x.operations[k]? = some op)))) := by
  refine ⟨fun h => ⟨_, parse_of_no_operand h, rfl⟩, fun hany => ⟨?_, fun hnone => ?_⟩⟩
  · rintro i k ⟨⟨t, ht, hk⟩, hleast⟩
    rw [offence?_eq e, Option.map_eq_some_iff] at hk
    obtain ⟨r, hr, rfl⟩ := hk
    obtain ⟨hi, hti⟩ := List.getElem?_eq_some_iff.mp ht
    -- cut the tokens at `i`: what stands before it is sound, what stands after it is not looked at
    have hlen : ((tokenize e).take i).length = i := List.length_take_of_le (Nat.le_of_lt hi)
    have hscan := scan_of_first_violation (i := 0) (sound_take (e := e) hleast)
      (by rw [hlen, Nat.zero_add]; exact hr) ((tokenize e).drop (i + 1))
    rw [← hti, ← List.drop_eq_getElem_cons hi, List.take_append_drop] at hscan
    exact ⟨r, parse_of_scan_error hany hscan, rfl⟩
  · have hs : Sound e 0 (tokenize e) := sound_of_no_offence hnone
    refine ⟨fun hn => ⟨_, parse_of_scan_error hany (scan_of_even rfl hs hn), rfl⟩, fun hn => ?_,
      fun hn hn3 => ?_⟩
    · obtain ⟨d, steps, htok, hd, hsteps⟩ := eq_tokens_of_odd rfl hs (by omega)
      rw [htok, Grammar.length_tokens] at hn
      have hnil : steps = [] := List.length_eq_zero_iff.mp (by omega)
      exact ⟨_, (parse_of_tokens htok hd hsteps).1 hnil, rfl⟩
    · obtain ⟨d, steps, htok, hd, hsteps⟩ := eq_tokens_of_odd rfl hs hn
      have hne : steps ≠ [] := by
        rintro rfl
        rw [htok, Grammar.length_tokens] at hn3
        simp at hn3
      obtain ⟨x, hx, hxs, hops⟩ := (parse_of_tokens htok hd hsteps).2 hne
      refine ⟨x, hx, ?_, fun k t ht => ?_, fun k t ht => ?_⟩
      · rw [htok, Grammar.length_tokens, hops, List.length_map]
      · rw [htok, Grammar.getElem?_tokens_even, Option.map_eq_some_iff] at ht
        obtain ⟨d', hd', rfl⟩ := ht
        refine ⟨d', rfl, ?_⟩
        have hmap : x.operands = (d :: steps.map Prod.snd).map
            fun d => (Decimal.value d : Int) := by
          rw [hxs, List.map_cons, List.map_map]
          rfl
        rw [hmap, List.getElem?_map, hd']
        rfl
      · rw [htok, Grammar.getElem?_tokens_odd, Option.map_eq_some_iff] at ht
        obtain ⟨op, hop, rfl⟩ := ht
        exact ⟨op, rfl, by rw [hops, hop]⟩

end Expression

end Reckon
