import Mathlib.Tactic.SplitIfs
import Reckon.Batch.Pass
import Reckon.Proofs.Magnitude
import Reckon.Text.Lines

/-!
# What messages are made of

A message is made of fixed wording, of numbers, and of texts in quotes, and the only
text that a calculation ever quotes is its expression or a part of it. `Shows e m`
puts this in one condition on the code points of `m`: each is wording, or it is a
printable code point of `e`. It is kept by joining texts, so that the message of a
cause is shown piece by piece, in the order in which it is worded.

Two consequences are used over and over. Line boundaries are neither wording nor
printable, so no message holds one. And the characters `=`, `>` and the letters
beyond `z` are no wording, so a message holds them only if the expression does.
-/

namespace Reckon

namespace Text

/-! ## Wording -/

/-- The code points that messages are worded with: ASCII from the space to the
semicolon, and from the letter A to the letter z. -/
def isWording (c : Char) : Bool :=
  (0x20 ≤ c.toNat && c.toNat ≤ 0x3B) || (0x41 ≤ c.toNat && c.toNat ≤ 0x7A)

theorem isPrintable_of_isWording {c : Char} (h : isWording c = true) : isPrintable c = true := by
  simp [isWording] at h
  have hlow : 0x20 ≤ c.toNat := by omega
  have hhigh : c.toNat < 0x7F := by omega
  simp [isPrintable, hlow, hhigh]

theorem isWording_of_isDigit {c : Char} (h : c.isDigit = true) : isWording c = true := by
  have hc : 48 ≤ c.toNat ∧ c.toNat ≤ 57 := Char.isDigit_iff_toNat.mp h
  simp [isWording]
  omega

theorem not_isPrintable_of_isLineBoundary {c : Char} (h : isLineBoundary c = true) :
    isPrintable c = false := by
  have hn : c.toNat ∈ [0x0A, 0x0B, 0x0C, 0x0D, 0x1C, 0x1D, 0x1E, 0x85, 0x2028, 0x2029] := by
    simp [isLineBoundary] at h ⊢
    omega
  have hhidden : ∀ n ∈ [0x0A, 0x0B, 0x0C, 0x0D, 0x1C, 0x1D, 0x1E, 0x85, 0x2028, 0x2029],
      isPrintable (Char.ofNat n) = false := by decide +kernel
  have hc := hhidden _ hn
  rwa [Char.ofNat_toNat] at hc

/-! ## Quoted texts -/

theorem isWording_of_mem_hexDigits : ∀ {width n : Nat} {x : Char}, x ∈ hexDigits width n →
    isWording x = true
  | 0, _, _, hx => by cases hx
  | width + 1, n, x, hx => by
      rw [hexDigits] at hx
      rcases List.mem_append.mp hx with hx | hx
      · exact isWording_of_mem_hexDigits hx
      · obtain rfl := List.mem_singleton.mp hx
        have hdigit : ∀ k < 16, isWording (Nat.digitChar k) = true := by decide
        exact hdigit _ (Nat.mod_lt n (by decide))

theorem isWording_quoteMark (t : Text) : isWording (quoteMark t) = true := by
  unfold quoteMark
  split <;> rfl

/-- A code point stands in a quoted text as it is, if it is printable, or a sequence
stands for it that begins with a backslash. -/
theorem escaped_cases {mark : Char} (hmark : isWording mark = true) (c : Char) :
    (escaped mark c = [c] ∧ isPrintable c = true)
      ∨ ∃ d w n, isWording d = true ∧ escaped mark c = '\\' :: d :: hexDigits w n := by
  unfold escaped
  split_ifs with hself htab hfeed hreturn hprint hbyte hplane
  · have hc : isWording c = true := by
      rcases hself with rfl | rfl
      · exact hmark
      · rfl
    exact Or.inr ⟨c, 0, 0, hc, rfl⟩
  · exact Or.inr ⟨'t', 0, 0, rfl, rfl⟩
  · exact Or.inr ⟨'n', 0, 0, rfl, rfl⟩
  · exact Or.inr ⟨'r', 0, 0, rfl, rfl⟩
  · exact Or.inl ⟨rfl, hprint⟩
  · exact Or.inr ⟨'x', _, _, rfl, rfl⟩
  · exact Or.inr ⟨'u', _, _, rfl, rfl⟩
  · exact Or.inr ⟨'U', _, _, rfl, rfl⟩

theorem mem_escaped {mark c x : Char} (hmark : isWording mark = true) (h : x ∈ escaped mark c) :
    isWording x = true ∨ (isPrintable x = true ∧ x = c) := by
  rcases escaped_cases hmark c with ⟨hself, hprint⟩ | ⟨d, w, n, hd, hseq⟩
  · rw [hself] at h
    obtain rfl := List.mem_singleton.mp h
    exact Or.inr ⟨hprint, rfl⟩
  · rw [hseq] at h
    simp only [List.mem_cons] at h
    rcases h with rfl | rfl | h
    · exact Or.inl rfl
    · exact Or.inl hd
    · exact Or.inl (isWording_of_mem_hexDigits h)

theorem mem_quoted {t : Text} {x : Char} (h : x ∈ quoted t) :
    isWording x = true ∨ (isPrintable x = true ∧ x ∈ t) := by
  have hmark := isWording_quoteMark t
  simp only [quoted, List.mem_append, List.mem_cons, List.mem_flatMap, List.not_mem_nil,
    or_false] at h
  rcases h with (rfl | ⟨c, hc, hx⟩) | rfl
  · exact Or.inl hmark
  · rcases mem_escaped hmark hx with hw | ⟨hprint, rfl⟩
    · exact Or.inl hw
    · exact Or.inr ⟨hprint, hc⟩
  · exact Or.inl hmark

/-! ## Texts that show an expression -/

/-- Every code point of `m` is wording, or a printable code point of `e`. -/
def Shows (e m : Text) : Prop :=
  ∀ x ∈ m, isWording x = true ∨ (isPrintable x = true ∧ x ∈ e)

variable {e m n t : Text}

theorem Shows.words (h : m.all isWording = true) : Shows e m :=
  fun x hx => Or.inl (List.all_eq_true.mp h x hx)

theorem Shows.append (hm : Shows e m) (hn : Shows e n) : Shows e (m ++ n) := by
  intro x hx
  rcases List.mem_append.mp hx with hx | hx
  · exact hm x hx
  · exact hn x hx

theorem Shows.quoted (h : ∀ c ∈ t, c ∈ e) : Shows e (quoted t) := by
  intro x hx
  rcases mem_quoted hx with hw | ⟨hprint, hxt⟩
  · exact Or.inl hw
  · exact Or.inr ⟨hprint, h x hxt⟩

theorem isWording_of_mem_ofNat {n : Nat} {x : Char} (h : x ∈ Decimal.ofNat n) :
    isWording x = true :=
  isWording_of_isDigit (Nat.isDigit_of_mem_toDigits (by decide) (by decide) h)

theorem Shows.ofNat (n : Nat) : Shows e (Decimal.ofNat n) :=
  fun _ hx => Or.inl (isWording_of_mem_ofNat hx)

theorem Shows.ofInt : ∀ n : Int, Shows e (Decimal.ofInt n)
  | .ofNat n => Shows.ofNat n
  | .negSucc n => Shows.append (m := ['-']) (.words rfl) (Shows.ofNat (n + 1))

theorem Shows.isPrintable (h : Shows e m) {x : Char} (hx : x ∈ m) : isPrintable x = true := by
  rcases h x hx with hw | ⟨hprint, -⟩
  · exact isPrintable_of_isWording hw
  · exact hprint

theorem Shows.isLineBoundary (h : Shows e m) {x : Char} (hx : x ∈ m) :
    isLineBoundary x = false := by
  cases hb : Text.isLineBoundary x with
  | false => rfl
  | true =>
      have hprint := h.isPrintable hx
      rw [not_isPrintable_of_isLineBoundary hb] at hprint
      cases hprint

/-- What is no wording is shown only if the expression holds it. -/
theorem Shows.mem (h : Shows e m) {x : Char} (hx : x ∈ m) (hw : isWording x = false) : x ∈ e := by
  rcases h x hx with hword | ⟨-, hxe⟩
  · rw [hw] at hword
    cases hword
  · exact hxe

end Text

/-! ## Messages of rejections -/

open Text (Shows)

namespace Rejection

/-- The texts that the message of a rejection quotes. -/
def quotes : Rejection → List Text
  | invalidCharacter c _ e => [[c], e]
  | missingOperator before e => [before, e]
  | missingOperand before e => [[before.symbol], e]
  | noOperand e | trailingOperator e | noOperator e => [e]
  | unknownOperator symbol => [symbol]
  | missingExpression _ | operandTooLong .. | nothingToEvaluate | surplusOperands ..
  | surplusOperations .. | divisionByZero _ | resultTooLong .. => []

/-- The rejection quotes the expression or parts of it, and nothing else. -/
def Quotes (e : Text) (r : Rejection) : Prop :=
  ∀ t ∈ r.quotes, ∀ c ∈ t, c ∈ e

theorem Quotes.shows {e : Text} {r : Rejection} (h : Quotes e r) : Shows e r.message := by
  cases r with
  | missingExpression given => exact .words rfl
  | invalidCharacter c position e' =>
      have hc := h [c] (by simp [quotes])
      have he' := h e' (by simp [quotes])
      exact ((((Shows.words rfl).append (.quoted hc)).append (.words rfl)).append
        (.ofNat position)).append (.words rfl) |>.append (.quoted he')
  | noOperand e' => exact (Shows.words rfl).append (.quoted (h e' (by simp [quotes])))
  | missingOperator before e' =>
      have hbefore := h before (by simp [quotes])
      have he' := h e' (by simp [quotes])
      exact (((Shows.words rfl).append (.quoted hbefore)).append (.words rfl)).append (.quoted he')
  | missingOperand before e' =>
      have hbefore := h [before.symbol] (by simp [quotes])
      have he' := h e' (by simp [quotes])
      exact (((Shows.words rfl).append (.quoted hbefore)).append (.words rfl)).append (.quoted he')
  | trailingOperator e' => exact (Shows.words rfl).append (.quoted (h e' (by simp [quotes])))
  | noOperator e' => exact (Shows.words rfl).append (.quoted (h e' (by simp [quotes])))
  | operandTooLong digits e' => exact ((Shows.words rfl).append (.ofNat digits)).append (.words rfl)
  | nothingToEvaluate => exact .words rfl
  | surplusOperands operands operations =>
      exact (((Shows.ofNat operands).append (.words rfl)).append (.ofNat operations)).append
        (.words rfl)
  | surplusOperations operations operands =>
      exact (((Shows.ofNat operations).append (.words rfl)).append (.ofNat operands)).append
        (.words rfl)
  | divisionByZero dividend =>
      exact ((Shows.words rfl).append (.ofInt dividend)).append (.words rfl)
  | unknownOperator symbol => exact (Shows.words rfl).append (.quoted (h symbol (by simp [quotes])))
  | resultTooLong bits e' => exact ((Shows.words rfl).append (.ofNat bits)).append (.words rfl)

end Rejection

/-! ## What a calculation quotes -/

open Rejection (Quotes)

/-- Tokens are pieces of the text. -/
theorem mem_of_mem_tokenize {e : Text} {t : Token} (h : t ∈ tokenize e) : ∀ x ∈ t.text, x ∈ e := by
  induction e generalizing t with
  | nil => cases h
  | cons c e ih =>
      intro x hx
      rcases mem_tokenize_cons h with hmem | ⟨-, rfl⟩ | ⟨-, rfl | ⟨d, hd, rfl⟩⟩
      · exact List.mem_cons_of_mem _ (ih hmem x hx)
      · rw [Token.text_ofChar] at hx
        exact List.mem_singleton.mp hx ▸ List.mem_cons_self ..
      · exact List.mem_singleton.mp hx ▸ List.mem_cons_self ..
      · rcases List.mem_cons.mp hx with rfl | hx
        · exact List.mem_cons_self ..
        · exact List.mem_cons_of_mem _ (ih hd x hx)

theorem quotes_of_checkCharacters {e : Text} {r : Rejection}
    (h : checkCharacters (some e) = .error r) : Quotes e r := by
  rcases checkCharacters_eq_error_iff.mp h with ⟨-, rfl⟩ | ⟨before, c, after, he, -, -, rfl⟩
  · intro t ht
    cases ht
  · obtain rfl := Option.some.inj he
    simp [Quotes, Rejection.quotes]

namespace Expression

/-- A token that is out of order is quoted, and what is quoted beside it is the text. -/
theorem quotes_of_violation {e : Text} {i : Nat} {t : Token} {r : Rejection}
    (ht : ∀ x ∈ t.text, x ∈ e) (h : violation? e i t = some r) : Quotes e r := by
  cases t with
  | other c =>
      obtain rfl := Option.some.inj h
      simpa [Quotes, Rejection.quotes, Token.text] using ht
  | operator op =>
      rw [violation?] at h
      split at h
      · obtain rfl := Option.some.inj h
        simpa [Quotes, Rejection.quotes, Token.text] using ht
      · cases h
  | operand d =>
      rw [violation?] at h
      split_ifs at h with hodd hlong
      · obtain rfl := Option.some.inj h
        simpa [Quotes, Rejection.quotes, Token.text] using ht
      · obtain rfl := Option.some.inj h
        simp [Quotes, Rejection.quotes]

theorem quotes_of_parse {e : Text} {r : Rejection} (h : parse e = .error r) : Quotes e r := by
  cases flaw_of_parse_error h with
  | noOperand => simp [Quotes, Rejection.quotes]
  | trailingOperator => simp [Quotes, Rejection.quotes]
  | noOperator => simp [Quotes, Rejection.quotes]
  | @violation before after t r split sound first =>
      have hmem : t ∈ tokenize e := by simp [split]
      exact quotes_of_violation (mem_of_mem_tokenize hmem) first

end Expression

theorem Failure.shows_ofZeroDivision (e : Text) (a : Int) :
    Shows e (Failure.ofZeroDivision a).message := by
  unfold ofZeroDivision
  split
  · exact Quotes.shows (r := .divisionByZero a) (fun t ht => by cases ht)
  · exact .words (by decide)

/-- What goes wrong behind the parser is about numbers, and quotes nothing. -/
theorem shows_of_ofChecked_error {e : Text} {f : Failure} (h : Calculation.ofChecked e = .error f) :
    Shows e f.message := by
  cases hp : Expression.parse e with
  | error r =>
      simp only [Calculation.ofChecked_eq, hp] at h
      obtain rfl := Except.error.inj h
      exact (Expression.quotes_of_parse hp).shows
  | ok x =>
      simp only [Calculation.ofChecked_eq, hp] at h
      obtain ⟨v, -, hv⟩ := evaluate_ends_at_last hp
      rcases hv with hv | hv
      · simp only [hv, Calculation.checkResult] at h
        split at h
        · cases h
        · obtain rfl := Except.error.inj h
          exact Quotes.shows (r := .resultTooLong _ e) (fun t ht => by cases ht)
      · simp only [hv] at h
        obtain rfl := Except.error.inj h
        exact Failure.shows_ofZeroDivision e v

theorem shows_of_calculate_error {e : Text} {f : Failure} (h : calculate (some e) = .error f) :
    Shows e f.message := by
  cases hc : checkCharacters (some e) with
  | error r =>
      simp only [calculate_eq, hc] at h
      obtain rfl := Except.error.inj h
      exact (quotes_of_checkCharacters hc).shows
  | ok e' =>
      obtain ⟨he, -, -⟩ := checkCharacters_eq_ok_iff.mp hc
      obtain rfl := Option.some.inj he
      simp only [calculate_eq, hc] at h
      exact shows_of_ofChecked_error h

theorem Batch.shows_crashMessage (e : Text) (code : Option Int) : Shows e (crashMessage code) := by
  have hcode : Shows e (exitCode code) := by
    cases code with
    | none => exact .words (by decide)
    | some c => exact .ofInt c
  exact ((Shows.words (by decide)).append hcode).append (.words (by decide))

end Reckon
