import Mathlib.Data.Int.Basic
import Reckon.Proofs.Folding

/-!
# Quotients are truncated toward zero

The quotient is worked out on the magnitudes, and the sign is put back by a test that
takes zero for positive on one side only. `Truncates` says what the result is to be
without any of that: what is left of the dividend is smaller than the divisor, and does
not have the opposite sign of the dividend. There is exactly one such number
(`truncates_iff`), and `Operator.quotient` is it.

From there on the quotient is `Int.tdiv`, and what is known of that carries over. In
particular divisions in a row are one division by the product (`fold_divisions`), which
neither the floor nor the nearest integer would give for all signs.
-/

namespace Reckon

/-- `q` is the quotient of `a` by `b`, truncated toward zero: what is left of `a` is
smaller than `b`, and is zero or has the sign of `a`. -/
structure Truncates (a b q : Int) : Prop where
  small : (a - q * b).natAbs < b.natAbs
  sign : a - q * b = 0 ∨ (a - q * b).sign = a.sign

theorem truncates_tdiv (a : Int) {b : Int} (hb : b ≠ 0) : Truncates a b (a.tdiv b) := by
  have hleft : a - a.tdiv b * b = a.tmod b := by
    rw [Int.mul_comm, Int.tmod_def]
  constructor
  · rw [hleft, Int.natAbs_tmod]
    exact Nat.mod_lt _ (Int.natAbs_pos.mpr hb)
  · rw [hleft]
    by_cases hdvd : b ∣ a
    · exact Or.inl (Int.tmod_eq_zero_of_dvd hdvd)
    · exact Or.inr (by rw [Int.sign_tmod, if_neg hdvd])

/-- On the side of `a`, what is left lies between zero and the divisor; so there is only
one such quotient. -/
theorem Truncates.eq_tdiv {a b q : Int} (h : Truncates a b q) : q = a.tdiv b := by
  obtain ⟨hsmall, hsign⟩ := h
  have hb : b ≠ 0 := by
    rintro rfl
    exact absurd hsmall (Nat.not_lt_zero _)
  have hsum : a - q * b + b * q = a := by rw [Int.mul_comm b q, Int.sub_add_cancel]
  rcases Int.le_total 0 a with ha | ha
  · have hleft : 0 ≤ a - q * b := by
      rcases hsign with hzero | hsame
      · exact Int.le_of_eq hzero.symm
      · exact Int.sign_nonneg_iff.mp (hsame ▸ Int.sign_nonneg_iff.mpr ha)
    exact ((Int.tdiv_tmod_unique ha hb).mpr ⟨hsum, hleft, by omega⟩).1.symm
  · have hleft : a - q * b ≤ 0 := by
      rcases hsign with hzero | hsame
      · exact Int.le_of_eq hzero
      · exact Int.sign_nonpos_iff.mp (hsame ▸ Int.sign_nonpos_iff.mpr ha)
    exact ((Int.tdiv_tmod_unique' ha hb).mpr ⟨hsum, by omega, hleft⟩).1.symm

theorem truncates_iff (a : Int) {b : Int} (hb : b ≠ 0) (q : Int) :
    Truncates a b q ↔ q = Operator.quotient a b := by
  rw [Operator.quotient_eq_tdiv]
  exact ⟨Truncates.eq_tdiv, fun h => h ▸ truncates_tdiv a hb⟩

/-! ## Divisions in a row -/

theorem tdiv_tdiv (a b c : Int) : (a.tdiv b).tdiv c = a.tdiv (b * c) := by
  induction a using Int.wlog_sign
  case inv => simp only [Int.neg_tdiv, Int.neg_inj]
  case w k =>
    induction b using Int.wlog_sign
    case inv => simp only [Int.tdiv_neg, Int.neg_tdiv, Int.neg_mul, Int.neg_inj]
    case w m =>
      induction c using Int.wlog_sign
      case inv => simp only [Int.tdiv_neg, Int.mul_neg, Int.neg_inj]
      case w n =>
        rw [← Int.ofNat_tdiv, ← Int.ofNat_tdiv, Nat.div_div_eq_div_mul, Int.ofNat_tdiv,
          Int.natCast_mul]

namespace Operator

theorem divide_apply (a : Int) {b : Int} (hb : b ≠ 0) : divide.apply a b = .ok (a.tdiv b) :=
  Evaluation.apply_eq_ok (fun h => hb h.2) a

end Operator

namespace Evaluation

/-- Dividing by one number after the other is dividing by their product. -/
theorem fold_divisions : ∀ {bs : List Int}, (∀ b ∈ bs, b ≠ 0) → ∀ a : Int,
    fold a (bs.map fun b => (.divide, b)) = .ok (a.tdiv (bs.foldr (· * ·) 1))
  | [], _, a => by rw [List.foldr_nil, Int.tdiv_one]; rfl
  | b :: bs, h, a => by
      obtain ⟨hb, hbs⟩ := List.forall_mem_cons.mp h
      rw [List.map_cons, fold_cons, Operator.divide_apply a hb, List.foldr_cons, ← tdiv_tdiv]
      exact fold_divisions hbs (a.tdiv b)

end Evaluation

/-- **Division truncates toward zero.** A division by a number that is not zero has a value,
the only one that truncates the quotient toward zero. Changing the sign of either side
changes that of the quotient, the quotient is no larger than the dividend, and a second
division comes to one by the product. -/
theorem divide_truncates (a : Int) {b : Int} (hb : b ≠ 0) :
    ∃ q, Operator.divide.apply a b = .ok q
      ∧ (∀ q', Truncates a b q' ↔ q' = q)
      ∧ Operator.divide.apply (-a) b = .ok (-q)
      ∧ Operator.divide.apply a (-b) = .ok (-q)
      ∧ q.natAbs ≤ a.natAbs
      ∧ ∀ c, c ≠ 0 → ∃ q', Operator.divide.apply q c = .ok q'
          ∧ Operator.divide.apply a (b * c) = .ok q'
          ∧ Evaluation.fold a [(.divide, b), (.divide, c)] = .ok q' := by
  refine ⟨a.tdiv b, Operator.divide_apply a hb, fun q' => ?_, ?_, ?_,
    Int.natAbs_tdiv_le_natAbs a b, fun c hc => ⟨a.tdiv (b * c), ?_, ?_, ?_⟩⟩
  · rw [truncates_iff a hb, Operator.quotient_eq_tdiv]
  · rw [Operator.divide_apply _ hb, Int.neg_tdiv]
  · rw [Operator.divide_apply _ (Int.neg_ne_zero.mpr hb), Int.tdiv_neg]
  · rw [Operator.divide_apply _ hc, tdiv_tdiv]
  · exact Operator.divide_apply a (Int.mul_ne_zero hb hc)
  · have h := Evaluation.fold_divisions
      (List.forall_mem_cons.mpr ⟨hb, List.forall_mem_singleton.mpr hc⟩) a
    rwa [List.foldr_cons, List.foldr_cons, List.foldr_nil, Int.mul_one] at h

/-- Minus seven by two is minus three, and not minus four. -/
theorem divide_truncates_negative :
    Operator.divide.apply (-7) 2 = .ok (-3) ∧ Truncates (-7) 2 (-3) ∧ ¬Truncates (-7) 2 (-4)
      ∧ Operator.divide.apply 7 2 = .ok 3 ∧ Operator.divide.apply (-7) (-2) = .ok 3
      ∧ Evaluation.fold (-7) [(.divide, 2), (.divide, -3)] = .ok 1 := by
  have hvalue : Operator.divide.apply (-7) 2 = .ok (-3) := rfl
  obtain ⟨q, hq, hunique, hneg, hneg', -, hrow⟩ := divide_truncates (-7) (b := 2) (by decide)
  obtain rfl : q = -3 := Except.ok.inj (hq.symm.trans hvalue)
  obtain ⟨q', hq', -, hfold⟩ := hrow (-3) (by decide)
  obtain rfl : q' = 1 := (Except.ok.inj hq').symm
  exact ⟨hvalue, (hunique (-3)).mpr rfl, fun h => absurd ((hunique (-4)).mp h) (by decide), hneg,
    hneg', hfold⟩

end Reckon
