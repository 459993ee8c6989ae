import TreeQuery.Proofs.Numeric.Twice

/-!
# Calculating with decimals

What an operation gives is the exact result, fitted to a decimal and then
rounded to the context.  An exact result that is a decimal itself is rounded
only once that way; any other is rounded twice.
-/

namespace TreeQuery

-- Powers are those of the core library, whatever else is in scope.
attribute [local instance (high)] instPowNat

namespace Decimal

variable {a b : Decimal} {negative : Bool} {n d s : ℕ} {x : ℚ} {r : Option Decimal}

/-!
# Fitted numbers
-/

/-- A result is the number fitted to a decimal, or misses because that is impossible. -/
def Approximates (x : ℚ) (r : Option Decimal) : Prop :=
  ∃ (negative : Bool) (n d : ℕ), 0 < d ∧ x = sign negative * (n / d) ∧
    Agree r (fit? negative n d 28)

theorem sign_mul_coefficientAt (negative : Bool) (n : ℕ) (hd : 0 < d) (s : ℕ) :
    sign negative * (coefficientAt n d s / 10 ^ s) =
      Rounding.halfEven.toMultiple (10 ^ (-(s : ℤ))) (sign negative * (n / d)) := by
  have hquotient : coefficientAt n d s = Rounding.halfEven.quotient negative (n * 10 ^ s) d := rfl
  have hcount : sign negative * (n / d) / 10 ^ (-(s : ℤ)) =
      sign negative * ((n * 10 ^ s : ℕ) / d) := by
    rw [zpow_neg, zpow_natCast, div_inv_eq_mul]
    push_cast
    ring
  rw [Rounding.toMultiple, hcount, whole_sign_mul _ _ _ hd, hquotient, zpow_neg, zpow_natCast,
    ← div_eq_mul_inv, mul_div_assoc]

theorem value_fit? {z : Decimal} (hd : 0 < d) (hs : s ≤ 28) (h : fit? negative n d s = some z) :
    z.scale ≤ s ∧
      z.value = Rounding.halfEven.toMultiple (10 ^ (-(z.scale : ℤ))) (sign negative * (n / d)) ∧
        (z.scale = s ∨ 2 ^ (96 : ℕ) ≤ coefficientAt n d (z.scale + 1)) := by
  have hparts : ∀ {s : ℕ}, ofParts? negative (coefficientAt n d s) s = some z → z.scale = s ∧
      z.value = Rounding.halfEven.toMultiple (10 ^ (-(z.scale : ℤ))) (sign negative * (n / d)) := by
    intro s hz
    rcases ofParts?_eq_some_iff.mp hz with ⟨hnegative, hcoefficient, hscale⟩
    rw [hscale, ← sign_mul_coefficientAt negative n hd s, value_eq, hnegative, hcoefficient, hscale]
    exact ⟨rfl, rfl⟩
  induction s with
  | zero =>
      rcases hparts h with ⟨hscale, hvalue⟩
      exact ⟨hscale.le, hvalue, Or.inl hscale⟩
  | succ s ih =>
      rw [fit?] at h
      split at h
      · rename_i result hresult
        cases h
        rcases hparts hresult with ⟨hscale, hvalue⟩
        exact ⟨hscale.le, hvalue, Or.inl hscale⟩
      · rename_i hnone
        have hlarge : 2 ^ (96 : ℕ) ≤ coefficientAt n d (s + 1) := by
          by_contra hlt
          rw [ofParts?_of_fits (Nat.lt_of_not_le hlt) hs] at hnone
          cases hnone
        rcases ih (Nat.le_of_succ_le hs) h with ⟨hle, hvalue, hscale⟩
        refine ⟨Nat.le_succ_of_le hle, hvalue, Or.inr ?_⟩
        rcases hscale with hscale | hmore
        · rw [hscale]
          exact hlarge
        · exact hmore

theorem le_coefficientAt_of_fit?_eq_none (hs : s ≤ 28) (h : fit? negative n d s = none) :
    2 ^ (96 : ℕ) ≤ coefficientAt n d 0 := by
  induction s with
  | zero =>
      by_contra hlt
      rw [fit?, ofParts?_of_fits (Nat.lt_of_not_le hlt) hs] at h
      cases h
  | succ s ih =>
      rw [fit?] at h
      split at h
      · cases h
      · exact ih (Nat.le_of_succ_le hs) h

theorem abs_sign_mul_div (negative : Bool) (n d : ℕ) :
    |sign negative * (n / d : ℚ)| = n / d := by
  rw [abs_mul, abs_sign, one_mul, abs_of_nonneg (by positivity)]

theorem le_of_le_coefficientAt (hd : 0 < d) (h : 2 ^ (96 : ℕ) ≤ coefficientAt n d (s + 1)) :
    (10 : ℚ) ^ (27 - s : ℤ) ≤ n / d := by
  have hsucc := Rounding.halfEven.quotient_le_succ false (n * 10 ^ (s + 1)) d
  have hbound : 10 ^ 28 + 1 ≤ 2 ^ (96 : ℕ) := by decide
  have hquotient : 10 ^ 28 ≤ n * 10 ^ (s + 1) / d :=
    Nat.le_of_succ_le_succ (Nat.le_trans hbound (Nat.le_trans h hsucc))
  have hmul : (10 ^ 28 * d : ℚ) ≤ n * 10 ^ (s + 1) := by
    exact_mod_cast (Nat.le_div_iff_mul_le hd).mp hquotient
  have hpos : (0 : ℚ) < d := by exact_mod_cast hd
  have hsplit : (10 : ℚ) ^ (27 - s : ℤ) * 10 ^ (s + 1) = 10 ^ 28 := by
    rw [← zpow_natCast, ← zpow_natCast, ← zpow_add₀ (by norm_num)]
    congr 1
    push_cast
    omega
  rw [le_div_iff₀ hpos]
  apply le_of_mul_le_mul_right _ (by positivity : (0 : ℚ) < 10 ^ (s + 1))
  calc (10 : ℚ) ^ (27 - s : ℤ) * d * 10 ^ (s + 1) = 10 ^ 28 * d := by rw [mul_right_comm, hsplit]
    _ ≤ n * 10 ^ (s + 1) := hmul

theorem le_of_le_coefficientAt_zero (hd : 0 < d) (h : 2 ^ (96 : ℕ) ≤ coefficientAt n d 0) :
    (2 : ℚ) ^ 96 - 1 / 2 ≤ n / d := by
  have hdouble : 2 ^ 97 * d ≤ 2 * n + d := by
    have hsplit := Nat.div_add_mod n d
    rw [coefficientAt, Nat.pow_zero, Nat.mul_one, Rounding.quotient] at h
    split at h
    · rename_i hraises
      have hhalf : d ≤ 2 * (n % d) := by
        simp only [Rounding.raises, Bool.or_eq_true, Bool.and_eq_true, decide_eq_true_eq,
          beq_iff_eq] at hraises
        omega
      have hmul : d * (2 ^ 96 - 1) ≤ d * (n / d) := Nat.mul_le_mul_left d (by omega)
      omega
    · have hmul : d * 2 ^ 96 ≤ d * (n / d) := Nat.mul_le_mul_left d h
      omega
  have hpos : (0 : ℚ) < d := by exact_mod_cast hd
  have hcast : (2 : ℚ) ^ 97 * d ≤ 2 * n + d := by exact_mod_cast hdouble
  rw [le_div_iff₀ hpos]
  linarith

theorem Approximates.cases (h : Approximates x r) :
    (∃ z, r = some z ∧ ∃ t : ℕ,
      z.value = Rounding.halfEven.toMultiple (10 ^ (-(t : ℤ))) x ∧
        (t = 28 ∨ (10 : ℚ) ^ (27 - t : ℤ) ≤ |x|)) ∨
      r = none ∧ 2 ^ 96 - 1 / 2 ≤ |x| := by
  rcases h with ⟨negative, n, d, hd, rfl, hagree⟩
  rw [abs_sign_mul_div]
  rcases hagree.cases with ⟨z, z', rfl, hfit, hsame⟩ | ⟨rfl, hfit⟩
  · rcases value_fit? hd (Nat.le_refl 28) hfit with ⟨_, hvalue, hscale⟩
    refine Or.inl ⟨z, rfl, z'.scale, (beq_iff_value.mp hsame).trans hvalue, ?_⟩
    rcases hscale with hscale | hmore
    · exact Or.inl hscale
    · exact Or.inr (le_of_le_coefficientAt hd hmore)
  · exact Or.inr ⟨rfl, le_of_le_coefficientAt_zero hd
      (le_coefficientAt_of_fit?_eq_none (Nat.le_refl 28) hfit)⟩

/-- A number that is a decimal is fitted without loss. -/
theorem Approximates.exact (h : Approximates x r) (hx : Representable x) :
    ∃ z, r = some z ∧ z.value = x := by
  rcases h with ⟨negative, n, d, hd, rfl, hagree⟩
  rcases hx with ⟨e, he⟩
  have hratio : (e.coefficient / 10 ^ e.scale : ℚ) = n / d := by
    rw [← abs_value, he, abs_sign_mul_div]
  have hcross : n * 10 ^ e.scale = e.coefficient * d := by
    have hne : (d : ℚ) ≠ 0 := by exact_mod_cast Nat.pos_iff_ne_zero.mp hd
    rw [div_eq_div_iff (pow_ne_zero _ (by norm_num)) hne] at hratio
    exact_mod_cast hratio.symm
  have hdvd : d ∣ n * 10 ^ e.scale := ⟨e.coefficient, by rw [hcross, Nat.mul_comm]⟩
  have hcoefficient : coefficientAt n d e.scale = e.coefficient := by
    rw [coefficientAt_of_dvd hd hdvd, hcross, Nat.mul_div_cancel _ hd]
  have hfits : coefficientAt n d e.scale < 2 ^ (96 : ℕ) := by
    rw [hcoefficient]
    exact e.coefficient_lt
  have hfit := hagree.trans (agree_fit?_of_dvd hd hdvd e.scale_le (Nat.le_refl 28))
  rw [fit?_of_fits hfits e.scale_le] at hfit
  rcases hfit.exists_of_some with ⟨z, hz, hsame⟩
  refine ⟨z, hz, ?_⟩
  rw [beq_iff_value.mp hsame, value_eq]
  show sign negative * (coefficientAt n d e.scale / 10 ^ e.scale : ℚ) = _
  rw [hcoefficient, hratio]

theorem Representable.zero : Representable 0 :=
  ⟨Decimal.zero, value_eq_zero_iff.mpr rfl⟩

/-- An exact result leaves no choice but that of the zeros at the end. -/
theorem Approximates.agree {r' : Option Decimal} (h : Approximates x r) (h' : Approximates x r') :
    Agree r r' := by
  rcases eq_or_ne x 0 with rfl | hx
  · rcases h.exact .zero with ⟨z, rfl, hz⟩
    rcases h'.exact .zero with ⟨z', rfl, hz'⟩
    exact beq_iff_value.mpr (hz.trans hz'.symm)
  · rcases h with ⟨negative, n, d, hd, hvalue, hagree⟩
    rcases h' with ⟨negative', n', d', hd', hvalue', hagree'⟩
    have hratio : (n / d : ℚ) = n' / d' := by
      rw [← abs_sign_mul_div negative, ← hvalue, hvalue', abs_sign_mul_div]
    have hcross : n * d' = n' * d := by
      have hne : (d : ℚ) ≠ 0 := by exact_mod_cast hd.ne'
      have hne' : (d' : ℚ) ≠ 0 := by exact_mod_cast hd'.ne'
      exact_mod_cast (div_eq_div_iff hne hne').mp hratio
    have hsign : sign negative = sign negative' := by
      have hpos : (n' / d' : ℚ) ≠ 0 := by
        intro hzero
        rw [hvalue', hzero, mul_zero] at hx
        exact hx rfl
      rw [hvalue, hratio] at hvalue'
      exact mul_right_cancel₀ hpos hvalue'
    rw [sign_injective hsign, fit?_congr hd hd' hcross] at hagree
    exact hagree.trans hagree'.symm

/-!
# Operations
-/

theorem coefficientAt_self (n s : ℕ) : coefficientAt n (10 ^ s) s = n := by
  have hpos : 0 < 10 ^ s := Nat.pow_pos (by decide)
  rw [coefficientAt_of_dvd hpos (Nat.dvd_mul_left ..), Nat.mul_div_cancel _ hpos]

theorem approximates_value (a : Decimal) : Approximates a.value (some a) := by
  have hpos : 0 < 10 ^ a.scale := Nat.pow_pos (by decide)
  have hcoefficient := coefficientAt_self a.coefficient a.scale
  refine ⟨a.negative, a.coefficient, 10 ^ a.scale, hpos, ?_, ?_⟩
  · rw [value_eq, Nat.cast_pow, Nat.cast_ofNat]
  · apply Agree.symm
    apply (agree_fit?_of_dvd hpos (Nat.dvd_mul_left _ _) a.scale_le (Nat.le_refl 28)).trans
    have hfits : coefficientAt a.coefficient (10 ^ a.scale) a.scale < 2 ^ (96 : ℕ) := by
      rw [hcoefficient]
      exact a.coefficient_lt
    have hsign : (⟨a.negative, _, a.scale, hfits, a.scale_le⟩ : Decimal).negative = a.negative :=
      rfl
    rw [fit?_of_fits hfits a.scale_le]
    exact beq_of_cross hsign (congrArg (· * 10 ^ a.scale) hcoefficient)

theorem cast_unitsAt (a : Decimal) (hs : a.scale ≤ s) : (a.unitsAt s : ℚ) / 10 ^ s = a.value := by
  rw [unitsAt, value]
  push_cast
  rw [div_eq_div_iff (pow_ne_zero _ (by norm_num)) (pow_ne_zero _ (by norm_num)), mul_assoc,
    ← pow_add, Nat.sub_add_cancel hs]

theorem sign_mul_natAbs (k : ℤ) : sign (decide (k < 0)) * (k.natAbs : ℚ) = k := by
  rw [Nat.cast_natAbs, Int.cast_abs]
  by_cases hk : k < 0
  · rw [decide_eq_true hk, sign, if_pos rfl, abs_of_neg (by exact_mod_cast hk)]
    ring
  · rw [decide_eq_false hk, sign, if_neg Bool.false_ne_true,
      abs_of_nonneg (by exact_mod_cast not_lt.mp hk), one_mul]

theorem approximates_add (a b : Decimal) : Approximates (a.value + b.value) (a.add b) := by
  cases ha : a.isZero with
  | true =>
      have hsum : a.add b = some b := by
        rw [add, ha, if_pos rfl]
      rw [hsum, value_eq_zero_iff.mpr ha, zero_add]
      exact approximates_value b
  | false =>
      cases hb : b.isZero with
      | true =>
          have hsum : a.add b = some a := by
            rw [add, ha, hb, if_neg Bool.false_ne_true, if_pos rfl]
          rw [hsum, value_eq_zero_iff.mpr hb, add_zero]
          exact approximates_value a
      | false =>
          refine ⟨_, _, _, Nat.pow_pos (by decide), ?_,
            agree_add_fit? ha hb a.scale_le b.scale_le (Nat.le_refl 28)⟩
          rw [← mul_div_assoc, sign_mul_natAbs, totalAt, ← cast_unitsAt a a.scale_le,
            ← cast_unitsAt b b.scale_le, ← add_div]
          push_cast
          rfl

theorem value_negate (a : Decimal) : a.negate.value = -a.value := by
  rw [value, signed_negate, value, Int.cast_neg, neg_div]
  rfl

theorem approximates_sub (a b : Decimal) : Approximates (a.value - b.value) (a.sub b) := by
  unfold sub
  split
  · rename_i hzero
    rcases Bool.and_eq_true_iff.mp hzero with ⟨ha, hb⟩
    have hvalue : a.value - b.value = b.value := by
      rw [value_eq_zero_iff.mpr ha, value_eq_zero_iff.mpr hb, sub_zero]
    rw [hvalue]
    exact approximates_value b
  · have hsum := approximates_add a b.negate
    rw [value_negate, ← sub_eq_add_neg] at hsum
    exact hsum

theorem sign_bne (negative negative' : Bool) :
    sign (negative != negative') = sign negative * sign negative' := by
  cases negative <;> cases negative' <;> norm_num [sign]

theorem approximates_zero : Approximates 0 (some zero) := by
  have hzero := approximates_value zero
  rw [value_eq_zero_iff.mpr rfl] at hzero
  exact hzero

theorem approximates_mul (a b : Decimal) : Approximates (a.value * b.value) (a.mul b) := by
  unfold mul
  split
  · rename_i hzero
    have hvalue : a.value * b.value = 0 := by
      rw [mul_eq_zero, value_eq_zero_iff, value_eq_zero_iff]
      exact Bool.or_eq_true_iff.mp hzero
    rw [hvalue]
    exact approximates_zero
  · refine ⟨a.negative != b.negative, a.coefficient * b.coefficient, 10 ^ (a.scale + b.scale),
      Nat.pow_pos (by decide), ?_, ?_⟩
    · rw [value_eq, value_eq, sign_bne]
      push_cast
      rw [pow_add]
      ring
    · apply Agree.trans _ agree_fit?_min
      exact agree_map_self plain_beq

theorem approximates_div (a : Decimal) {b : Decimal} (hb : b.isZero = false) :
    Approximates (a.value / b.value) (a.div b) := by
  cases ha : a.isZero with
  | true =>
      have hquotient : a.div b = some zero := by
        rw [div, ha, if_pos rfl]
      rw [hquotient, value_eq_zero_iff.mpr ha, zero_div]
      exact approximates_zero
  | false =>
      have hpos : 0 < b.coefficient := Nat.pos_of_ne_zero (beq_eq_false_iff_ne.mp hb)
      refine ⟨_, _, _, Nat.mul_pos hpos (Nat.pow_pos (by decide)), ?_, agree_div_fit? ha hb⟩
      have hsign : sign b.negative ≠ 0 := by
        intro hzero
        have hself := sign_mul_self b.negative
        rw [hzero, zero_mul] at hself
        exact zero_ne_one hself
      have hsquare : (sign b.negative)⁻¹ = sign b.negative :=
        inv_eq_of_mul_eq_one_left (sign_mul_self _)
      rw [value_eq, value_eq, sign_bne, mul_div_mul_comm, div_div_div_eq, div_eq_mul_inv (sign _),
        hsquare]
      push_cast
      ring

/-!
# Rounding to the context
-/

variable {context : DecimalContext}

theorem value_round_of_exact (hprecision : context.precision ≠ 0) {z : Decimal}
    (hy : Representable
      (context.rounding.toMultiple (digitUnit context.significantDigits z.value) z.value)) :
    (context.round z).value =
      context.rounding.toMultiple (digitUnit context.significantDigits z.value) z.value := by
  rcases value_round hprecision z with ⟨hvalue, _⟩ | ⟨_, hle⟩
  · exact hvalue
  · rcases hy with ⟨d, hd⟩
    rw [← hd] at hle
    exact absurd (abs_value_lt d) (not_lt.mpr hle)

theorem Representable.exists_mul (h : Representable x) :
    ∃ k : ℤ, x = k * 10 ^ (-(28 : ℕ) : ℤ) := by
  rcases h with ⟨d, rfl⟩
  refine ⟨d.unitsAt 28, ?_⟩
  rw [← cast_unitsAt d d.scale_le, zpow_neg, zpow_natCast, div_eq_mul_inv]

/-- Any other number is rounded twice, and misses by one unit at most. -/
theorem abs_value_round_sub (hprecision : context.precision ≠ 0) {z : Decimal} {t : ℕ}
    (hz : z.value = Rounding.halfEven.toMultiple (10 ^ (-(t : ℤ))) x)
    (ht : t = 28 ∨ (10 : ℚ) ^ (27 - t : ℤ) ≤ |x|)
    (hy : Representable (context.rounding.toMultiple (digitUnit context.significantDigits x) x)) :
    |(context.round z).value -
        context.rounding.toMultiple (digitUnit context.significantDigits x) x| ≤
      digitUnit context.significantDigits x := by
  have hdigits := context.significantDigits_pos
  have hmost : context.significantDigits ≤ 28 := context.significantDigits_le
  rcases eq_or_ne x 0 with rfl | hx
  · rw [Rounding.toMultiple_zero] at hz ⊢
    rw [DecimalContext.round_of_isZero (value_eq_zero_iff.mp hz), hz, sub_zero, abs_zero]
    exact (digitUnit_pos _ _).le
  · rcases le_or_gt (-(t : ℤ)) (Int.log 10 |x| + 1 - context.significantDigits) with hfine | hcoarse
    · have htwice := abs_sub_toMultiple_twice context.rounding hdigits hx hfine
      rw [← hz] at htwice
      rcases value_round hprecision z with ⟨hvalue, _⟩ | ⟨hleft, _⟩
      · rw [hvalue]
        exact htwice.2
      · rw [hleft]
        exact htwice.1
    · -- The unit is finer than what a decimal can tell apart, so nothing is left to round.
      have hlast : t = 28 := by
        rcases ht with hlast | hlarge
        · exact hlast
        · have hlog : 27 - (t : ℤ) ≤ Int.log 10 |x| :=
            (Int.zpow_le_iff_le_log (by norm_num) (abs_pos.mpr hx)).mp (by exact_mod_cast hlarge)
          omega
      subst hlast
      rcases hy.exists_mul with ⟨k, hk⟩
      rw [toMultiple_halfEven_of_coarse context.rounding hcoarse hk] at hz
      have hself := toMultiple_toMultiple context.rounding hdigits hx
      rw [← hz] at hself ⊢
      rcases value_round hprecision z with ⟨hvalue, _⟩ | ⟨hleft, _⟩
      · rw [hvalue, hself, sub_self, abs_zero]
        exact (digitUnit_pos _ _).le
      · rw [hleft, sub_self, abs_zero]
        exact (digitUnit_pos _ _).le

end Decimal

end TreeQuery
