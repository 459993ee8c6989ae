import TreeQuery.Proofs.Numeric.Kept

/-!
# Equal decimals calculate alike

A decimal may have zeros at the end of its digits, and equality does not mind
them.  No operation minds them either: with equal operands it gives equal
results or fails in the same way, although the scales on the way, and the
digits that a quotient is cut to, are not the same.
-/

namespace TreeQuery

-- Powers are those of the core library, whatever else is in scope.
attribute [local instance (high)] instPowNat

/-!
# Ratios
-/

namespace Rounding

theorem quotient_mul (mode : Rounding) (negative : Bool) (n d : Nat) {c : Nat} (hc : 0 < c) :
    mode.quotient negative (n * c) (d * c) = mode.quotient negative n d := by
  have hmod : n * c % (d * c) = n % d * c := Nat.mul_mod_mul_right c n d
  have hdiv : n * c / (d * c) = n / d := Nat.mul_div_mul_right n d hc
  have hdouble : 2 * (n % d * c) = 2 * (n % d) * c := (Nat.mul_assoc ..).symm
  have hne : (n % d * c != 0) = (n % d != 0) := by
    rw [Bool.eq_iff_iff, bne_iff_ne, bne_iff_ne, Ne, Nat.mul_eq_zero]
    omega
  have hle : ∀ x y : Nat, x * c ≤ y * c ↔ x ≤ y := fun x y => Nat.mul_le_mul_right_iff hc
  have hlt : ∀ x y : Nat, x * c < y * c ↔ x < y := fun x y => Nat.mul_lt_mul_right hc
  have heq : ∀ x y : Nat, (x * c == y * c) = (x == y) := by
    intro x y
    rw [Bool.eq_iff_iff, beq_iff_eq, beq_iff_eq]
    exact Nat.mul_left_inj (Nat.pos_iff_ne_zero.mp hc)
  have hraises : mode.raises negative (n * c) (d * c) = mode.raises negative n d := by
    unfold raises
    cases mode <;> simp only [hmod, hdiv, hdouble, hne, hle, hlt, heq]
  rw [quotient, quotient, hraises, hdiv]

theorem quotient_congr (mode : Rounding) (negative : Bool) {n d n' d' : Nat} (hd : 0 < d)
    (hd' : 0 < d') (h : n * d' = n' * d) :
    mode.quotient negative n d = mode.quotient negative n' d' := by
  rw [← mode.quotient_mul negative n d hd', ← mode.quotient_mul negative n' d' hd, h,
    Nat.mul_comm d d']

end Rounding

namespace Decimal

variable {a b a' b' c : Decimal}

/-!
# Equality without subtraction
-/

theorem beq_iff_cross : (a == b) = true ↔ a.signed * 10 ^ b.scale = b.signed * 10 ^ a.scale := by
  rw [beq_iff (Nat.le_add_right a.scale b.scale) (Nat.le_add_left b.scale a.scale)]
  unfold unitsAt
  rw [Nat.add_sub_cancel_left, Nat.add_sub_cancel]

theorem beq_refl (a : Decimal) : (a == a) = true :=
  beq_iff_cross.mpr rfl

theorem beq_symm (h : (a == b) = true) : (b == a) = true :=
  beq_iff_cross.mpr (beq_iff_cross.mp h).symm

theorem natAbs_signed (a : Decimal) : a.signed.natAbs = a.coefficient := by
  unfold signed
  split
  · rw [Int.natAbs_neg, Int.natAbs_natCast]
  · exact Int.natAbs_natCast _

theorem coefficient_of_beq (h : (a == b) = true) :
    a.coefficient * 10 ^ b.scale = b.coefficient * 10 ^ a.scale := by
  have habs := congrArg Int.natAbs (beq_iff_cross.mp h)
  rw [Int.natAbs_mul, Int.natAbs_mul, natAbs_signed, natAbs_signed, Int.natAbs_pow,
    Int.natAbs_pow] at habs
  exact habs

theorem isZero_congr (h : (a == b) = true) : a.isZero = b.isZero := by
  have hcross := coefficient_of_beq h
  have hpos : ∀ k, 0 < 10 ^ k := fun k => Nat.pow_pos (by decide)
  unfold isZero
  rw [Bool.eq_iff_iff, beq_iff_eq, beq_iff_eq]
  constructor
  · intro hzero
    rw [hzero, Nat.zero_mul] at hcross
    exact (Nat.mul_eq_zero.mp hcross.symm).resolve_right (Nat.ne_of_gt (hpos _))
  · intro hzero
    rw [hzero, Nat.zero_mul] at hcross
    exact (Nat.mul_eq_zero.mp hcross).resolve_right (Nat.ne_of_gt (hpos _))

theorem negative_eq (hne : a.isZero = false) : a.negative = decide (a.signed < 0) := by
  have hpos : 0 < a.coefficient := by
    unfold isZero at hne
    rw [beq_eq_false_iff_ne] at hne
    exact Nat.pos_of_ne_zero hne
  unfold signed
  cases a.negative with
  | true => simpa using hpos
  | false => simp

theorem mul_pow_neg_iff (x : Int) (k : Nat) : x * 10 ^ k < 0 ↔ x < 0 := by
  have hpow : (0 : Int) < 10 ^ k := Int.pow_pos (by decide)
  constructor
  · intro hlt
    exact Int.not_le.mp fun hle => Int.not_le.mpr hlt (Int.mul_nonneg hle (Int.le_of_lt hpow))
  · intro hlt
    exact Int.mul_neg_of_neg_of_pos hlt hpow

theorem negative_of_beq (h : (a == b) = true) (hne : a.isZero = false) :
    a.negative = b.negative := by
  rw [negative_eq hne, negative_eq ((isZero_congr h).symm.trans hne), decide_eq_decide,
    ← mul_pow_neg_iff a.signed b.scale, ← mul_pow_neg_iff b.signed a.scale, beq_iff_cross.mp h]

theorem beq_of_cross (hsign : a.negative = b.negative)
    (h : a.coefficient * 10 ^ b.scale = b.coefficient * 10 ^ a.scale) : (a == b) = true := by
  have hcast : (a.coefficient : Int) * 10 ^ b.scale = b.coefficient * 10 ^ a.scale := by
    exact_mod_cast h
  rw [beq_iff_cross]
  unfold signed
  rw [hsign]
  split
  · rw [Int.neg_mul, Int.neg_mul, hcast]
  · exact hcast

theorem beq_of_isZero (ha : a.isZero = true) (hb : b.isZero = true) : (a == b) = true := by
  have hsigned : ∀ {d : Decimal}, d.isZero = true → d.signed = 0 := by
    intro d hd
    rw [← Int.natAbs_eq_zero, natAbs_signed]
    exact beq_iff_eq.mp hd
  rw [beq_iff_cross, hsigned ha, hsigned hb, Int.zero_mul, Int.zero_mul]

/-!
# Order and sign
-/

theorem compare_eq {s : Nat} (ha : a.scale ≤ s) (hb : b.scale ≤ s) :
    a.compare b = Ord.compare (a.unitsAt s) (b.unitsAt s) := by
  have hmax : max a.scale b.scale ≤ s := Nat.max_le.mpr ⟨ha, hb⟩
  have hpos : (0 : Int) < 10 ^ (s - max a.scale b.scale) := Int.pow_pos (by decide)
  unfold compare
  rw [unitsAt_eq_mul (Nat.le_max_left ..) hmax, unitsAt_eq_mul (Nat.le_max_right ..) hmax]
  dsimp only
  generalize a.unitsAt (max a.scale b.scale) = x
  generalize b.unitsAt (max a.scale b.scale) = y
  simp only [Ord.compare, compareOfLessAndEq, Int.mul_lt_mul_right hpos,
    Int.mul_eq_mul_right_iff (Int.ne_of_gt hpos)]

theorem unitsAt_congr {s : Nat} (h : (a == b) = true) (ha : a.scale ≤ s) (hb : b.scale ≤ s) :
    a.unitsAt s = b.unitsAt s :=
  (beq_iff ha hb).mp h

theorem compare_congr (ha : (a == a') = true) (hb : (b == b') = true) :
    a.compare b = a'.compare b' := by
  rw [compare_eq a.scale_le b.scale_le, compare_eq a'.scale_le b'.scale_le,
    unitsAt_congr ha a.scale_le a'.scale_le, unitsAt_congr hb b.scale_le b'.scale_le]

theorem signed_negate (a : Decimal) : a.negate.signed = -a.signed := by
  unfold signed negate
  cases a.negative with
  | true => exact (Int.neg_neg _).symm
  | false => rfl

theorem negate_congr (h : (a == b) = true) : (a.negate == b.negate) = true := by
  rw [beq_iff_cross, signed_negate, signed_negate]
  show -a.signed * 10 ^ b.scale = -b.signed * 10 ^ a.scale
  rw [Int.neg_mul, Int.neg_mul, beq_iff_cross.mp h]

theorem abs_congr (h : (a == b) = true) : (a.abs == b.abs) = true := by
  have hcross := coefficient_of_beq h
  exact beq_of_cross rfl hcross

/-!
# Whole numbers
-/

theorem toWhole_congr (mode : Rounding) (h : (a == b) = true) :
    (a.toWhole mode == b.toWhole mode) = true := by
  have hcross := coefficient_of_beq h
  have hquotient : ∀ negative, mode.quotient negative a.coefficient (10 ^ a.scale) =
      mode.quotient negative b.coefficient (10 ^ b.scale) := fun negative =>
    mode.quotient_congr negative (Nat.pow_pos (by decide)) (Nat.pow_pos (by decide)) hcross
  cases hzero : a.isZero with
  | false =>
      have hsign := negative_of_beq h hzero
      have hwhole : (a.toWhole mode).negative = (b.toWhole mode).negative := hsign
      apply beq_of_cross hwhole
      show mode.quotient a.negative _ _ * 10 ^ 0 = mode.quotient b.negative _ _ * 10 ^ 0
      rw [hsign, hquotient]
  | true =>
      have hnone : ∀ {d : Decimal}, d.isZero = true → (d.toWhole mode).isZero = true := by
        intro d hd
        have hle := mode.quotient_le d.negative (n := d.coefficient)
          (Nat.pow_pos (by decide) : 0 < 10 ^ d.scale)
        rw [beq_iff_eq.mp hd] at hle
        show (mode.quotient d.negative d.coefficient (10 ^ d.scale) == 0) = true
        rw [beq_iff_eq.mp hd]
        exact beq_iff_eq.mpr (Nat.le_zero.mp hle)
      exact beq_of_isZero (hnone hzero) (hnone ((isZero_congr h).symm.trans hzero))

/-!
# Results that may not fit
-/

/-- Both fit and are equal, or neither fits. -/
def Agree : Option Decimal → Option Decimal → Prop
  | some a, some b => (a == b) = true
  | none, none => True
  | _, _ => False

theorem agree_refl (r : Option Decimal) : Agree r r := by
  cases r with
  | none => trivial
  | some a => exact beq_refl a

theorem Agree.cases {r r' : Option Decimal} (h : Agree r r') :
    (∃ a b, r = some a ∧ r' = some b ∧ (a == b) = true) ∨ r = none ∧ r' = none := by
  cases r with
  | none =>
      cases r' with
      | none => exact Or.inr ⟨rfl, rfl⟩
      | some b => exact h.elim
  | some a =>
      cases r' with
      | none => exact h.elim
      | some b => exact Or.inl ⟨a, b, rfl, rfl, h⟩

theorem Agree.exists_of_some {r : Option Decimal} {b : Decimal} (h : Agree r (some b)) :
    ∃ a, r = some a ∧ (a == b) = true := by
  rcases h.cases with ⟨a, _, hr, ⟨⟩, hsame⟩ | ⟨_, hnone⟩
  · exact ⟨a, hr, hsame⟩
  · cases hnone

theorem Agree.eq_none {r : Option Decimal} (h : Agree r none) : r = none := by
  rcases h.cases with ⟨_, _, _, hsome, _⟩ | ⟨hr, _⟩
  · cases hsome
  · exact hr

theorem Agree.symm {r r' : Option Decimal} (h : Agree r r') : Agree r' r := by
  rcases h.cases with ⟨a, b, rfl, rfl, hsame⟩ | ⟨rfl, rfl⟩
  · exact beq_symm hsame
  · exact trivial

theorem Agree.trans {r r' r'' : Option Decimal} (h : Agree r r') (h' : Agree r' r'') :
    Agree r r'' := by
  rcases h.cases with ⟨a, b, rfl, rfl, hsame⟩ | ⟨rfl, rfl⟩
  · cases r'' with
    | none => exact h'.elim
    | some c => exact beq_trans hsame h'
  · exact h'

theorem Agree.map {r r' : Option Decimal} {f : Decimal → Decimal} (h : Agree r r')
    (hf : ∀ {a b : Decimal}, (a == b) = true → (f a == f b) = true) :
    Agree (r.map f) (r'.map f) := by
  rcases h.cases with ⟨a, b, rfl, rfl, hsame⟩ | ⟨rfl, rfl⟩
  · exact hf hsame
  · exact trivial

theorem agree_map_self {r : Option Decimal} {f : Decimal → Decimal}
    (hf : ∀ a : Decimal, (f a == a) = true) : Agree (r.map f) r := by
  cases r with
  | none => trivial
  | some a => exact hf a

/-!
# Fitting a quotient
-/

section

variable {negative : Bool} {n d n' d' s t : Nat}

theorem coefficientAt_congr (hd : 0 < d) (hd' : 0 < d') (h : n * d' = n' * d) (s : Nat) :
    coefficientAt n d s = coefficientAt n' d' s := by
  apply Rounding.quotient_congr _ _ hd hd'
  rw [Nat.mul_right_comm, h, Nat.mul_right_comm]

theorem fit?_congr (hd : 0 < d) (hd' : 0 < d') (h : n * d' = n' * d) (s : Nat) :
    fit? negative n d s = fit? negative n' d' s := by
  induction s with
  | zero => rw [fit?, fit?, coefficientAt_congr hd hd' h]
  | succ s ih => rw [fit?, fit?, coefficientAt_congr hd hd' h, ih]

theorem ofParts?_of_fits {coefficient : Nat} (hfits : coefficient < 2 ^ (96 : Nat)) (hs : s ≤ 28) :
    ofParts? negative coefficient s = some ⟨negative, coefficient, s, hfits, hs⟩ :=
  ofParts?_eq_some_iff.mpr ⟨rfl, rfl, rfl⟩

theorem fit?_of_fits (hfits : coefficientAt n d s < 2 ^ (96 : Nat)) (hs : s ≤ 28) :
    fit? negative n d s = some ⟨negative, coefficientAt n d s, s, hfits, hs⟩ := by
  cases s with
  | zero => rw [fit?, ofParts?_of_fits hfits hs]
  | succ s => rw [fit?, ofParts?_of_fits hfits hs]

theorem coefficientAt_of_dvd (hd : 0 < d) (h : d ∣ n * 10 ^ s) :
    coefficientAt n d s = n * 10 ^ s / d :=
  Rounding.quotient_of_mod_eq_zero hd (Nat.mod_eq_zero_of_dvd h)

theorem coefficientAt_mul (hd : 0 < d) (h : d ∣ n * 10 ^ s) (hst : s ≤ t) :
    coefficientAt n d s * 10 ^ (t - s) = coefficientAt n d t := by
  have hpow : n * 10 ^ t = n * 10 ^ s * 10 ^ (t - s) := by
    rw [Nat.mul_assoc, ← Nat.pow_add, Nat.add_sub_cancel' hst]
  have hdvd : d ∣ n * 10 ^ t := by
    rw [hpow]
    exact Nat.dvd_mul_right_of_dvd h _
  rw [coefficientAt_of_dvd hd h, coefficientAt_of_dvd hd hdvd, hpow, Nat.div_mul_right_comm h]

/-- An exact quotient may be looked for at any scale that holds all of its digits. -/
theorem agree_fit?_of_dvd (hd : 0 < d) (h : d ∣ n * 10 ^ s) (hst : s ≤ t) (ht : t ≤ 28) :
    Agree (fit? negative n d t) (fit? negative n d s) := by
  induction hst with
  | refl => exact agree_refl _
  | @step t hst ih =>
      have hmul := coefficientAt_mul hd h (Nat.le_succ_of_le hst)
      rw [fit?]
      split
      · rename_i result hresult
        rcases ofParts?_eq_some_iff.mp hresult with ⟨hsign, hcoefficient, hscale⟩
        have hlt : coefficientAt n d s < 2 ^ (96 : Nat) := by
          apply Nat.lt_of_le_of_lt _ result.coefficient_lt
          rw [hcoefficient, ← hmul]
          exact Nat.le_mul_of_pos_right _ (Nat.pow_pos (by decide))
        rw [fit?_of_fits hlt (Nat.le_trans hst (Nat.le_of_succ_le ht))]
        apply beq_symm
        apply beq_of_coefficient hsign.symm
        · rw [hscale]
          exact Nat.le_succ_of_le hst
        · rw [hscale, hcoefficient]
          exact hmul
      · exact ih (Nat.le_of_succ_le ht)

end

/-!
# Arithmetic
-/

def totalAt (a b : Decimal) (s : Nat) : Int :=
  a.unitsAt s + b.unitsAt s

theorem totalAt_mul {s t : Nat} (ha : a.scale ≤ s) (hb : b.scale ≤ s) (hst : s ≤ t) :
    totalAt a b t = totalAt a b s * 10 ^ (t - s) := by
  unfold totalAt
  rw [unitsAt_eq_mul ha hst, unitsAt_eq_mul hb hst, Int.add_mul]

theorem add_eq (ha : a.isZero = false) (hb : b.isZero = false) :
    a.add b = fit? (decide (totalAt a b (max a.scale b.scale) < 0))
      (totalAt a b (max a.scale b.scale)).natAbs (10 ^ max a.scale b.scale)
      (max a.scale b.scale) := by
  unfold add
  rw [ha, hb]
  rfl

theorem agree_add_fit? (ha : a.isZero = false) (hb : b.isZero = false) {s : Nat}
    (has : a.scale ≤ s) (hbs : b.scale ≤ s) (hs : s ≤ 28) :
    Agree (a.add b) (fit? (decide (totalAt a b s < 0)) (totalAt a b s).natAbs (10 ^ s) s) := by
  have hmax : max a.scale b.scale ≤ s := Nat.max_le.mpr ⟨has, hbs⟩
  have htotal := totalAt_mul (Nat.le_max_left a.scale b.scale) (Nat.le_max_right a.scale b.scale)
    hmax
  rw [add_eq ha hb]
  generalize max a.scale b.scale = m at hmax htotal
  have hsign : decide (totalAt a b s < 0) = decide (totalAt a b m < 0) := by
    rw [htotal, decide_eq_decide, mul_pow_neg_iff]
  have habs : (totalAt a b s).natAbs = (totalAt a b m).natAbs * 10 ^ (s - m) := by
    rw [htotal, Int.natAbs_mul, Int.natAbs_pow]
    rfl
  have hratio : (totalAt a b s).natAbs * 10 ^ m = (totalAt a b m).natAbs * 10 ^ s := by
    rw [habs, Nat.mul_assoc, ← Nat.pow_add, Nat.sub_add_cancel hmax]
  rw [hsign, fit?_congr (Nat.pow_pos (by decide)) (Nat.pow_pos (by decide)) hratio s]
  exact (agree_fit?_of_dvd (Nat.pow_pos (by decide)) (Nat.dvd_mul_left _ _) hmax hs).symm

theorem agree_add (ha : (a == a') = true) (hb : (b == b') = true) :
    Agree (a.add b) (a'.add b') := by
  cases hza : a.isZero with
  | true =>
      have hza' := (isZero_congr ha).symm.trans hza
      unfold add
      rw [hza, hza', if_pos rfl, if_pos rfl]
      exact hb
  | false =>
      have hza' := (isZero_congr ha).symm.trans hza
      cases hzb : b.isZero with
      | true =>
          have hzb' := (isZero_congr hb).symm.trans hzb
          unfold add
          rw [hza, hza', hzb, hzb', if_neg Bool.false_ne_true, if_neg Bool.false_ne_true,
            if_pos rfl, if_pos rfl]
          exact ha
      | false =>
          have hzb' := (isZero_congr hb).symm.trans hzb
          have hleft := agree_add_fit? hza hzb a.scale_le b.scale_le (Nat.le_refl 28)
          have hright := agree_add_fit? hza' hzb' a'.scale_le b'.scale_le (Nat.le_refl 28)
          have htotal : totalAt a b 28 = totalAt a' b' 28 := by
            unfold totalAt
            rw [unitsAt_congr ha a.scale_le a'.scale_le, unitsAt_congr hb b.scale_le b'.scale_le]
          rw [htotal] at hleft
          exact hleft.trans hright.symm

theorem agree_sub (ha : (a == a') = true) (hb : (b == b') = true) :
    Agree (a.sub b) (a'.sub b') := by
  unfold sub
  rw [isZero_congr ha, isZero_congr hb]
  split
  · exact hb
  · exact agree_add ha (negate_congr hb)

theorem agree_fit?_min {negative : Bool} {n s : Nat} :
    Agree (fit? negative n (10 ^ s) (min s maxScale)) (fit? negative n (10 ^ s) 28) := by
  rcases Nat.le_total s maxScale with hle | hle
  · rw [Nat.min_eq_left hle]
    exact (agree_fit?_of_dvd (Nat.pow_pos (by decide)) (Nat.dvd_mul_left _ _) hle
      (Nat.le_refl 28)).symm
  · rw [Nat.min_eq_right hle]
    exact agree_refl _

theorem plain_beq (d : Decimal) :
    (({ d with negative := d.negative && d.coefficient != 0 } : Decimal) == d) = true := by
  cases hzero : d.isZero with
  | true => exact beq_of_isZero hzero hzero
  | false =>
      have hne : (d.coefficient != 0) = true := by
        rw [bne, show (d.coefficient == 0) = false from hzero]
        rfl
      have hsign : ({ d with negative := d.negative && d.coefficient != 0 } : Decimal).negative =
          d.negative := by
        show (d.negative && d.coefficient != 0) = d.negative
        rw [hne, Bool.and_true]
      exact beq_of_cross hsign rfl

theorem plain_congr (h : (a == b) = true) :
    ({ a with negative := a.negative && a.coefficient != 0 } ==
      ({ b with negative := b.negative && b.coefficient != 0 } : Decimal)) = true :=
  beq_trans (plain_beq a) (beq_trans h (beq_symm (plain_beq b)))

theorem agree_mul (ha : (a == a') = true) (hb : (b == b') = true) :
    Agree (a.mul b) (a'.mul b') := by
  unfold mul
  rw [← isZero_congr ha, ← isZero_congr hb]
  cases hza : a.isZero with
  | true => exact agree_refl _
  | false =>
      cases hzb : b.isZero with
      | true => exact agree_refl _
      | false =>
          have hratio : a.coefficient * b.coefficient * 10 ^ (a'.scale + b'.scale) =
              a'.coefficient * b'.coefficient * 10 ^ (a.scale + b.scale) := by
            have hca := coefficient_of_beq ha
            have hcb := coefficient_of_beq hb
            rw [Nat.pow_add, Nat.pow_add, Nat.mul_mul_mul_comm, hca, hcb, Nat.mul_mul_mul_comm]
          rw [negative_of_beq ha hza, negative_of_beq hb hzb]
          simp only [Bool.or_self, Bool.false_eq_true, if_false]
          apply Agree.map _ plain_congr
          apply agree_fit?_min.trans
          rw [fit?_congr (Nat.pow_pos (by decide)) (Nat.pow_pos (by decide)) hratio]
          exact agree_fit?_min.symm

theorem agree_div_fit? (ha : a.isZero = false) (hb : b.isZero = false) :
    Agree (a.div b) (fit? (a.negative != b.negative) (a.coefficient * 10 ^ b.scale)
      (b.coefficient * 10 ^ a.scale) 28) := by
  have hpos : 0 < b.coefficient := Nat.pos_of_ne_zero (beq_eq_false_iff_ne.mp hb)
  have hd : 0 < b.coefficient * 10 ^ a.scale := Nat.mul_pos hpos (Nat.pow_pos (by decide))
  unfold div
  rw [ha, if_neg Bool.false_ne_true]
  dsimp only
  split
  · rename_i heven
    rcases Bool.and_eq_true_iff.mp heven with ⟨hmod, hscale⟩
    have hdvd : b.coefficient ∣ a.coefficient := Nat.dvd_of_mod_eq_zero (of_decide_eq_true hmod)
    have hle : b.scale ≤ a.scale := of_decide_eq_true hscale
    rcases hdvd with ⟨q, hq⟩
    -- The quotient of the coefficients is exact at the difference of the scales.
    have hnumerator : a.coefficient * 10 ^ b.scale * 10 ^ (a.scale - b.scale) =
        q * (b.coefficient * 10 ^ a.scale) := by
      rw [Nat.mul_assoc, ← Nat.pow_add, Nat.add_sub_cancel' hle, hq, Nat.mul_comm b.coefficient q,
        Nat.mul_assoc]
    have hexact : b.coefficient * 10 ^ a.scale ∣
        a.coefficient * 10 ^ b.scale * 10 ^ (a.scale - b.scale) :=
      ⟨q, by rw [hnumerator, Nat.mul_comm]⟩
    have hcoefficient : coefficientAt (a.coefficient * 10 ^ b.scale)
        (b.coefficient * 10 ^ a.scale) (a.scale - b.scale) = q := by
      rw [coefficientAt_of_dvd hd hexact, hnumerator, Nat.mul_div_cancel q hd]
    have hfits : q < 2 ^ (96 : Nat) := by
      apply Nat.lt_of_le_of_lt _ a.coefficient_lt
      rw [hq]
      exact Nat.le_mul_of_pos_left q hpos
    have hs : a.scale - b.scale ≤ 28 := Nat.le_trans (Nat.sub_le ..) a.scale_le
    have hquotient : a.coefficient / b.coefficient = q := by
      rw [hq, Nat.mul_div_cancel_left q hpos]
    apply Agree.symm
    apply (agree_fit?_of_dvd hd hexact hs (Nat.le_refl 28)).trans
    subst hcoefficient
    rw [hquotient, fit?_of_fits hfits hs, ofParts?_of_fits hfits hs]
    exact beq_refl _
  · exact agree_map_self normalize_beq

theorem agree_div (ha : (a == a') = true) (hb : (b == b') = true) (hne : b.isZero = false) :
    Agree (a.div b) (a'.div b') := by
  cases hza : a.isZero with
  | true =>
      have hza' := (isZero_congr ha).symm.trans hza
      unfold div
      rw [hza, hza', if_pos rfl, if_pos rfl]
      exact agree_refl _
  | false =>
      have hza' := (isZero_congr ha).symm.trans hza
      have hne' := (isZero_congr hb).symm.trans hne
      have hpos : ∀ {c d : Decimal}, d.isZero = false → 0 < d.coefficient * 10 ^ c.scale :=
        fun hd => Nat.mul_pos (Nat.pos_of_ne_zero (beq_eq_false_iff_ne.mp hd))
          (Nat.pow_pos (by decide))
      have hratio : a.coefficient * 10 ^ b.scale * (b'.coefficient * 10 ^ a'.scale) =
          a'.coefficient * 10 ^ b'.scale * (b.coefficient * 10 ^ a.scale) := by
        have hca := coefficient_of_beq ha
        have hcb := coefficient_of_beq hb
        calc a.coefficient * 10 ^ b.scale * (b'.coefficient * 10 ^ a'.scale)
            = a.coefficient * 10 ^ a'.scale * (b'.coefficient * 10 ^ b.scale) := by ac_rfl
          _ = a'.coefficient * 10 ^ a.scale * (b.coefficient * 10 ^ b'.scale) := by rw [hca, hcb]
          _ = a'.coefficient * 10 ^ b'.scale * (b.coefficient * 10 ^ a.scale) := by ac_rfl
      apply (agree_div_fit? hza hne).trans
      rw [negative_of_beq ha hza, negative_of_beq hb hne, fit?_congr (hpos hne) (hpos hne') hratio]
      exact (agree_div_fit? hza' hne').symm

/-!
# Remainders
-/

theorem unitsAt_eq_ite (a : Decimal) (s : Nat) :
    a.unitsAt s =
      if a.negative then -((a.coefficient * 10 ^ (s - a.scale) : Nat) : Int)
      else (a.coefficient * 10 ^ (s - a.scale) : Nat) := by
  unfold unitsAt signed
  split
  · rw [Int.neg_mul]
    norm_cast
  · norm_cast

theorem natAbs_unitsAt (a : Decimal) (s : Nat) :
    (a.unitsAt s).natAbs = a.coefficient * 10 ^ (s - a.scale) := by
  rw [unitsAt_eq_ite]
  split
  · rw [Int.natAbs_neg, Int.natAbs_natCast]
  · exact Int.natAbs_natCast _

theorem tmod_unitsAt (a b : Decimal) (s : Nat) :
    (a.unitsAt s).tmod (b.unitsAt s) =
      if a.negative then -(((a.unitsAt s).natAbs % (b.unitsAt s).natAbs : Nat) : Int)
      else ((a.unitsAt s).natAbs % (b.unitsAt s).natAbs : Nat) := by
  have hdivisor : (a.unitsAt s).tmod (b.unitsAt s) =
      (a.unitsAt s).tmod (b.coefficient * 10 ^ (s - b.scale) : Nat) := by
    rw [unitsAt_eq_ite b]
    split
    · exact Int.tmod_neg ..
    · rfl
  rw [hdivisor, natAbs_unitsAt, natAbs_unitsAt, unitsAt_eq_ite a]
  split
  · rw [Int.neg_tmod]
    rfl
  · rfl

theorem ite_sign_of_zero (negative : Bool) (n k : Nat) :
    (if negative && n != 0 then -((n * k : Nat) : Int) else (n * k : Nat)) =
      if negative then -((n * k : Nat) : Int) else (n * k : Nat) := by
  cases n with
  | zero =>
      rw [Nat.zero_mul]
      cases negative <;> rfl
  | succ n =>
      have hne : (n + 1 != 0) = true := rfl
      rw [hne, Bool.and_true]

/-- A remainder always fits, since one of the two numbers has the larger scale. -/
theorem remainder_lt (hb : b.isZero = false) :
    (a.unitsAt (max a.scale b.scale)).natAbs % (b.unitsAt (max a.scale b.scale)).natAbs <
      2 ^ (96 : Nat) := by
  have hpos : 0 < b.coefficient := Nat.pos_of_ne_zero (beq_eq_false_iff_ne.mp hb)
  rcases Nat.le_total a.scale b.scale with hle | hle
  · rw [Nat.max_eq_right hle, natAbs_unitsAt b, Nat.sub_self, Nat.pow_zero, Nat.mul_one]
    exact Nat.lt_trans (Nat.mod_lt _ hpos) b.coefficient_lt
  · rw [Nat.max_eq_left hle, natAbs_unitsAt a, Nat.sub_self, Nat.pow_zero, Nat.mul_one]
    exact Nat.lt_of_le_of_lt (Nat.mod_le ..) a.coefficient_lt

theorem exists_rem (hb : b.isZero = false) :
    ∃ r, a.rem b = some r ∧ r.unitsAt 28 = (a.unitsAt 28).tmod (b.unitsAt 28) := by
  have hzero : zero.unitsAt 28 = 0 := by decide
  rw [tmod_unitsAt]
  cases ha : a.isZero with
  | true =>
      refine ⟨zero, by rw [rem, ha, if_pos rfl], ?_⟩
      rw [natAbs_unitsAt a, beq_iff_eq.mp ha, hzero, Nat.zero_mul, Nat.zero_mod]
      split <;> rfl
  | false =>
      have hmax : max a.scale b.scale ≤ 28 := Nat.max_le.mpr ⟨a.scale_le, b.scale_le⟩
      have hscaled : ∀ {d : Decimal}, d.scale ≤ max a.scale b.scale → (d.unitsAt 28).natAbs =
          (d.unitsAt (max a.scale b.scale)).natAbs * 10 ^ (28 - max a.scale b.scale) := by
        intro d hd
        rw [unitsAt_eq_mul hd hmax, Int.natAbs_mul, Int.natAbs_pow]
        rfl
      have hleft := hscaled (Nat.le_max_left a.scale b.scale)
      have hright := hscaled (Nat.le_max_right a.scale b.scale)
      have hfits := remainder_lt (a := a) hb
      unfold rem
      rw [ha, if_neg Bool.false_ne_true]
      dsimp only
      split
      · rename_i hlt
        refine ⟨a, rfl, ?_⟩
        have hmod : (a.unitsAt 28).natAbs % (b.unitsAt 28).natAbs = (a.unitsAt 28).natAbs := by
          apply Nat.mod_eq_of_lt
          rw [hleft, hright]
          exact Nat.mul_lt_mul_of_pos_right hlt (Nat.pow_pos (by decide))
        rw [hmod, natAbs_unitsAt]
        exact unitsAt_eq_ite a 28
      · split
        · rename_i heq
          refine ⟨zero, rfl, ?_⟩
          rw [hleft, hright, heq, Nat.mod_self, hzero]
          split <;> rfl
        · refine ⟨_, ofParts?_of_fits hfits hmax, ?_⟩
          rw [hleft, hright, Nat.mul_mod_mul_right, unitsAt_eq_ite]
          exact ite_sign_of_zero _ _ _

theorem agree_rem (ha : (a == a') = true) (hb : (b == b') = true) (hne : b.isZero = false) :
    Agree (a.rem b) (a'.rem b') := by
  rcases exists_rem (a := a) hne with ⟨r, hr, hunits⟩
  rcases exists_rem (a := a') ((isZero_congr hb).symm.trans hne) with ⟨r', hr', hunits'⟩
  rw [hr, hr']
  apply (beq_iff r.scale_le r'.scale_le).mpr
  rw [hunits, hunits', unitsAt_congr ha a.scale_le a'.scale_le,
    unitsAt_congr hb b.scale_le b'.scale_le]

theorem round_congr (h : (a == b) = true) : (a.round == b.round) = true := by
  unfold round
  rcases (agree_add h (beq_refl half)).cases with ⟨x, y, hleft, hright, hsame⟩ | ⟨hleft, hright⟩
  · rw [hleft, hright]
    exact toWhole_congr .floor hsame
  · rw [hleft, hright]
    exact h

end Decimal
end TreeQuery
