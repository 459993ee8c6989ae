import TreeQuery.Proofs.Numeric.Alike
import TreeQuery.Proofs.Numeric.Strategies

/-!
# Equal decimals are cut alike

Taking zeros off the end and rounding to a context look at the digits
themselves.  Of two equal decimals one has the digits of the other and then
zeros, so both come down to the same digits.
-/

namespace TreeQuery

-- Powers are those of the core library, whatever else is in scope.
attribute [local instance (high)] instPowNat

namespace Decimal

variable {a b : Decimal}

/-!
# Zeros at the end
-/

theorem coefficient_eq_mul (h : (a == b) = true) (hle : a.scale ≤ b.scale) :
    b.coefficient = a.coefficient * 10 ^ (b.scale - a.scale) := by
  have hpos : 0 < 10 ^ a.scale := Nat.pow_pos (by decide)
  apply Nat.eq_of_mul_eq_mul_right hpos
  rw [← coefficient_of_beq h, Nat.mul_assoc, ← Nat.pow_add, Nat.sub_add_cancel hle]

theorem stripZeros_mul_pow (c s k : Nat) : stripZeros (c * 10 ^ k) (s + k) = stripZeros c s := by
  induction k with
  | zero => rw [Nat.pow_zero, Nat.mul_one, Nat.add_zero]
  | succ k ih =>
      have hmod : c * 10 ^ (k + 1) % 10 = 0 := by
        rw [Nat.pow_succ, ← Nat.mul_assoc, Nat.mul_mod_left]
      have hdiv : c * 10 ^ (k + 1) / 10 = c * 10 ^ k := by
        rw [Nat.pow_succ, ← Nat.mul_assoc, Nat.mul_div_cancel _ (by decide)]
      rw [← Nat.add_assoc, stripZeros, if_pos hmod, hdiv, ih]

theorem stripZeros_congr (h : (a == b) = true) :
    stripZeros a.coefficient a.scale = stripZeros b.coefficient b.scale := by
  rcases Nat.le_total a.scale b.scale with hle | hle
  · have hstrip := stripZeros_mul_pow a.coefficient a.scale (b.scale - a.scale)
    rw [← coefficient_eq_mul h hle, Nat.add_sub_cancel' hle] at hstrip
    exact hstrip.symm
  · have hstrip := stripZeros_mul_pow b.coefficient b.scale (a.scale - b.scale)
    rw [← coefficient_eq_mul (beq_symm h) hle, Nat.add_sub_cancel' hle] at hstrip
    exact hstrip

theorem normalize_congr (h : (a == b) = true) : a.normalize = b.normalize := by
  have hstrip := stripZeros_congr h
  unfold normalize
  cases hzero : a.isZero with
  | true =>
      have hca : a.coefficient = 0 := beq_iff_eq.mp hzero
      have hcb : b.coefficient = 0 := beq_iff_eq.mp ((isZero_congr h).symm.trans hzero)
      simp only [hca, hcb, bne_self_eq_false, Bool.and_false, if_true]
  | false =>
      have hca : a.coefficient ≠ 0 := beq_eq_false_iff_ne.mp hzero
      have hcb : b.coefficient ≠ 0 :=
        beq_eq_false_iff_ne.mp ((isZero_congr h).symm.trans hzero)
      simp only [hca, hcb, bne_iff_ne.mpr hca, bne_iff_ne.mpr hcb, negative_of_beq h hzero, hstrip,
        if_false]

theorem text_congr (h : (a == b) = true) : a.text = b.text := by
  unfold text
  rw [normalize_congr h]

end Decimal

/-!
# Rounding to a context
-/

namespace DecimalContext

open Decimal

variable {a b : Decimal} {context : DecimalContext}

theorem round_of_isZero (h : a.isZero = true) : context.round a = a := by
  rw [round, h, Bool.or_true, if_pos rfl]

theorem round_of_precision (h : context.precision = 0) : context.round a = a := by
  rw [round, decide_eq_true h, Bool.true_or, if_pos rfl]

theorem round_eq (hprecision : context.precision ≠ 0) (hzero : a.isZero = false) {dropped : Nat}
    (hdropped : Digits.count a.coefficient - context.significantDigits = dropped) :
    context.round a = (ofParts? a.negative
      (context.rounding.quotient a.negative a.coefficient (10 ^ dropped) *
        10 ^ (dropped - a.scale)) (a.scale - dropped)).getD a := by
  have hdigits : context.significantDigits ≠ 0 := Nat.ne_of_gt context.significantDigits_pos
  rw [round, decide_eq_false hprecision, hzero, Bool.or_self, if_neg Bool.false_ne_true,
    roundDigits?, hzero, decide_eq_false hdigits, Bool.or_self, if_neg Bool.false_ne_true]
  dsimp only
  rw [hdropped, RoundingStrategy.natAbs_round _ (Nat.pow_pos (by decide))]

theorem round_of_count_le (h : Digits.count a.coefficient ≤ context.significantDigits) :
    context.round a = a := by
  rcases Nat.eq_zero_or_pos context.precision with hprecision | hprecision
  · exact round_of_precision hprecision
  · cases hzero : a.isZero with
    | true => exact round_of_isZero hzero
    | false =>
        rw [round_eq (Nat.ne_of_gt hprecision) hzero (Nat.sub_eq_zero_of_le h), Nat.pow_zero,
          Rounding.quotient_one, Nat.zero_sub, Nat.pow_zero, Nat.mul_one, Nat.sub_zero,
          ofParts?_of_fits a.coefficient_lt a.scale_le]
        rfl

theorem beq_round_of_zeros (h : (a == b) = true) (hle : a.scale ≤ b.scale)
    (hzero : a.isZero = false)
    (hzeros : Digits.count b.coefficient ≤ context.significantDigits + (b.scale - a.scale)) :
    (a == context.round b) = true := by
  rcases Nat.eq_zero_or_pos context.precision with hprecision | hprecision
  · rw [round_of_precision hprecision]
    exact h
  · have hsign : a.negative = b.negative := negative_of_beq h hzero
    have hshifted := coefficient_eq_mul h hle
    have hdropped : Digits.count b.coefficient - context.significantDigits ≤ b.scale - a.scale :=
      Nat.sub_le_of_le_add (Nat.add_comm .. ▸ hzeros)
    rw [round_eq (Nat.ne_of_gt hprecision) ((isZero_congr h).symm.trans hzero) rfl]
    generalize Digits.count b.coefficient - context.significantDigits = dropped at hdropped
    have hsplit : b.coefficient =
        a.coefficient * 10 ^ (b.scale - a.scale - dropped) * 10 ^ dropped := by
      rw [hshifted, Nat.mul_assoc, ← Nat.pow_add, Nat.sub_add_cancel hdropped]
    have hpow : 0 < 10 ^ dropped := Nat.pow_pos (by decide)
    have hkept : context.rounding.quotient b.negative b.coefficient (10 ^ dropped) =
        a.coefficient * 10 ^ (b.scale - a.scale - dropped) := by
      rw [hsplit, Rounding.quotient_of_mod_eq_zero hpow (Nat.mul_mod_left ..),
        Nat.mul_div_cancel _ hpow]
    have hfits : a.coefficient * 10 ^ (b.scale - a.scale - dropped) < 2 ^ (96 : Nat) := by
      apply Nat.lt_of_le_of_lt _ b.coefficient_lt
      rw [hsplit]
      exact Nat.le_mul_of_pos_right _ hpow
    have hnone : dropped - b.scale = 0 := by omega
    rw [hkept, hnone, Nat.pow_zero, Nat.mul_one,
      ofParts?_of_fits hfits (Nat.le_trans (Nat.sub_le ..) b.scale_le), Option.getD_some]
    apply beq_of_coefficient
    · exact hsign
    · show a.scale ≤ b.scale - dropped
      omega
    · show a.coefficient * 10 ^ (b.scale - dropped - a.scale) = _
      rw [Nat.sub_right_comm]

theorem round_congr_of_le (h : (a == b) = true) (hle : a.scale ≤ b.scale) :
    (context.round a == context.round b) = true := by
  cases hzero : a.isZero with
  | true =>
      rw [round_of_isZero hzero, round_of_isZero ((isZero_congr h).symm.trans hzero)]
      exact h
  | false =>
      rcases Nat.eq_zero_or_pos context.precision with hprecision | hprecision
      · rw [round_of_precision hprecision, round_of_precision hprecision]
        exact h
      · have hne := Nat.ne_of_gt hprecision
        have hzero' := (isZero_congr h).symm.trans hzero
        have hpos : 0 < a.coefficient := Nat.pos_of_ne_zero (beq_eq_false_iff_ne.mp hzero)
        have hshifted := coefficient_eq_mul h hle
        have hsign := negative_of_beq h hzero
        have hcount := Digits.count_mul_pow hpos (b.scale - a.scale)
        rw [← hshifted] at hcount
        rcases Nat.le_total context.significantDigits (Digits.count a.coefficient) with hmany | hfew
        · -- Both are cut to the same digits.
          have hdropped : Digits.count b.coefficient - context.significantDigits =
              Digits.count a.coefficient - context.significantDigits + (b.scale - a.scale) := by
            omega
          rw [round_eq hne hzero rfl, round_eq hne hzero' hdropped, hshifted, hsign, Nat.pow_add,
            Rounding.quotient_mul _ _ _ _ (Nat.pow_pos (by decide))]
          generalize Digits.count a.coefficient - context.significantDigits = dropped
          have hzeros : dropped + (b.scale - a.scale) - b.scale = dropped - a.scale := by omega
          have hscale : b.scale - (dropped + (b.scale - a.scale)) = a.scale - dropped := by omega
          rw [hzeros, hscale]
          cases ofParts? b.negative _ _ with
          | none => exact h
          | some r => exact beq_refl r
        · -- The first is left alone and the second loses zeros at most.
          rw [round_of_count_le hfew]
          exact beq_round_of_zeros h hle hzero (by omega)

theorem round_congr (h : (a == b) = true) : (context.round a == context.round b) = true := by
  rcases Nat.le_total a.scale b.scale with hle | hle
  · exact round_congr_of_le h hle
  · exact beq_symm (round_congr_of_le (beq_symm h) hle)

end DecimalContext

/-!
# Positions
-/

namespace Number

variable {a b : Decimal}

theorem equalsPosition_congr (h : (a == b) = true) (position : Nat) :
    (Number.decimal a).equalsPosition position = (Number.decimal b).equalsPosition position := by
  have hsame : ∀ {a b : Decimal}, (a == b) = true → a.signed = position * 10 ^ a.scale →
      b.signed = position * 10 ^ b.scale := by
    intro a b h hposition
    have hpow : (10 : Int) ^ a.scale ≠ 0 := Int.ne_of_gt (Int.pow_pos (by decide))
    apply Int.eq_of_mul_eq_mul_right hpow
    rw [← Decimal.beq_iff_cross.mp h, hposition, Int.mul_right_comm]
  unfold equalsPosition
  rw [Bool.eq_iff_iff, beq_iff_eq, beq_iff_eq]
  exact ⟨hsame h, hsame (Decimal.beq_symm h)⟩

end Number
end TreeQuery
