import Mathlib.Data.Rat.Floor
import Mathlib.Data.Int.Log
import Mathlib.Tactic.FieldSimp
import TreeQuery.Proofs.Numeric.Trimming

/-!
# Rounding exact numbers

What the rounding modes mean for a rational number, without digits: each picks
one of the two whole neighbours, and rounding to a multiple of a unit counts in
that unit.  Rounding a quotient of natural numbers under a sign does the same.
-/

namespace TreeQuery

-- Powers are those of the core library, whatever else is in scope.
attribute [local instance (high)] instPowNat

/-!
# Whole neighbours
-/

namespace Rounding

def outward (x : ℚ) : ℤ :=
  if 0 ≤ x then ⌈x⌉ else ⌊x⌋

def inward (x : ℚ) : ℤ :=
  if 0 ≤ x then ⌊x⌋ else ⌈x⌉

def nearest (x : ℚ) (tie : ℤ) : ℤ :=
  if Int.fract x = 1 / 2 then tie else round x

/-- The whole number that a mode rounds to. -/
def whole (mode : Rounding) (x : ℚ) : ℤ :=
  match mode with
  | .up => outward x
  | .down => inward x
  | .ceiling => ⌈x⌉
  | .floor => ⌊x⌋
  | .halfUp => nearest x (outward x)
  | .halfDown => nearest x (inward x)
  | .halfEven => nearest x (if Even ⌊x⌋ then ⌊x⌋ else ⌈x⌉)

def toMultiple (mode : Rounding) (u x : ℚ) : ℚ :=
  mode.whole (x / u) * u

variable {x : ℚ}

theorem whole_intCast (mode : Rounding) (k : ℤ) : mode.whole k = k := by
  cases mode <;> simp [whole, nearest, outward, inward]

theorem nearest_neg (hwhole : Int.fract x ≠ 0) (tie : ℤ) :
    nearest (-x) (-tie) = -nearest x tie := by
  unfold nearest round
  rw [Int.fract_neg hwhole, Int.floor_neg, Int.ceil_neg]
  rcases lt_trichotomy (2 * Int.fract x) 1 with hlow | hhalf | hhigh
  · rw [if_neg (by linarith), if_neg (by linarith), if_neg (by linarith), if_pos hlow]
  · rw [if_pos (by linarith), if_pos (by linarith)]
  · rw [if_neg (by linarith), if_pos (by linarith), if_neg (by linarith), if_neg (by linarith)]

theorem toMultiple_zero (mode : Rounding) (u : ℚ) : mode.toMultiple u 0 = 0 := by
  rw [toMultiple, zero_div, ← Int.cast_zero, whole_intCast, Int.cast_zero, zero_mul]

theorem ceil_eq_floor_add_one (hwhole : Int.fract x ≠ 0) : ⌈x⌉ = ⌊x⌋ + 1 := by
  have hceil : (⌈x⌉ : ℚ) = ⌊x⌋ + 1 := by
    rw [Int.ceil_eq_add_one_sub_fract hwhole, Int.fract]
    ring
  exact_mod_cast hceil

theorem outward_neg (hx : x ≠ 0) : outward (-x) = -outward x := by
  unfold outward
  rw [Int.ceil_neg, Int.floor_neg]
  rcases lt_or_gt_of_ne hx with hneg | hpos
  · rw [if_pos (by linarith), if_neg (by linarith)]
  · rw [if_neg (by linarith), if_pos (by linarith)]

theorem inward_neg (hx : x ≠ 0) : inward (-x) = -inward x := by
  unfold inward
  rw [Int.ceil_neg, Int.floor_neg]
  rcases lt_or_gt_of_ne hx with hneg | hpos
  · rw [if_pos (by linarith), if_neg (by linarith)]
  · rw [if_neg (by linarith), if_pos (by linarith)]

theorem whole_neg (mode : Rounding) (x : ℚ) : mode.whole (-x) = -mode.mirror.whole x := by
  by_cases hwhole : Int.fract x = 0
  · rcases Int.fract_eq_zero_iff.mp hwhole with ⟨k, rfl⟩
    rw [whole_intCast, ← Int.cast_neg, whole_intCast]
  · have hx : x ≠ 0 := by
      rintro rfl
      exact hwhole Int.fract_zero
    cases mode with
    | up => exact outward_neg hx
    | down => exact inward_neg hx
    | ceiling => exact Int.ceil_neg
    | floor => exact Int.floor_neg
    | halfUp =>
        show nearest (-x) (outward (-x)) = -nearest x (outward x)
        rw [outward_neg hx, nearest_neg hwhole]
    | halfDown =>
        show nearest (-x) (inward (-x)) = -nearest x (inward x)
        rw [inward_neg hx, nearest_neg hwhole]
    | halfEven =>
        -- One of two neighbours is even, also below zero.
        have htie : (if Even ⌊-x⌋ then ⌊-x⌋ else ⌈-x⌉) = -if Even ⌊x⌋ then ⌊x⌋ else ⌈x⌉ := by
          rw [Int.floor_neg, Int.ceil_neg, ceil_eq_floor_add_one hwhole]
          by_cases heven : Even ⌊x⌋
          · rw [if_pos heven, if_neg (by rwa [even_neg, Int.even_add_one, not_not])]
          · rw [if_neg heven, if_pos (by rwa [even_neg, Int.even_add_one])]
        show nearest (-x) (if Even ⌊-x⌋ then ⌊-x⌋ else ⌈-x⌉) = -nearest x _
        rw [htie, nearest_neg hwhole]

/-!
# Quotients of natural numbers
-/

theorem whole_natCast_div (mode : Rounding) (n : ℕ) {d : ℕ} (hd : 0 < d) :
    mode.whole (n / d) = mode.quotient false n d := by
  have hpos : (0 : ℚ) < d := by exact_mod_cast hd
  have hnonneg : (0 : ℚ) ≤ n / d := by positivity
  have hfloor : ⌊(n / d : ℚ)⌋ = ((n / d : ℕ) : ℤ) := by
    rw [Rat.floor_natCast_div_natCast, Int.natCast_div]
  have hfract : Int.fract (n / d : ℚ) = (n % d : ℕ) / d := Int.fract_div_natCast_eq_div_natCast_mod
  have hceil : ⌈(n / d : ℚ)⌉ = if n % d = 0 then ((n / d : ℕ) : ℤ) else (n / d : ℕ) + 1 := by
    split
    · rename_i hmod
      rw [hmod, Nat.cast_zero, zero_div] at hfract
      rcases Int.fract_eq_zero_iff.mp hfract with ⟨k, hk⟩
      rw [← hfloor, ← hk, Int.ceil_intCast, Int.floor_intCast]
    · rename_i hmod
      have hne : Int.fract (n / d : ℚ) ≠ 0 := by
        rw [hfract]
        exact div_ne_zero (by exact_mod_cast hmod) hpos.ne'
      rw [ceil_eq_floor_add_one hne, hfloor]
  have hhalf : Int.fract (n / d : ℚ) = 1 / 2 ↔ d = 2 * (n % d) := by
    rw [hfract, div_eq_div_iff hpos.ne' two_ne_zero, one_mul, mul_comm, eq_comm]
    exact_mod_cast Iff.rfl
  have hbelow : 2 * Int.fract (n / d : ℚ) < 1 ↔ 2 * (n % d) < d := by
    rw [hfract, ← mul_div_assoc, div_lt_one hpos]
    exact_mod_cast Iff.rfl
  cases mode <;>
    simp only [whole, outward, inward, nearest, round, quotient, raises, if_pos hnonneg, hfloor,
      hceil, hhalf, hbelow, Int.even_coe_nat, Nat.even_iff, bne_iff_ne, beq_iff_eq,
      decide_eq_true_eq, Bool.or_eq_true, Bool.and_eq_true, Bool.not_false,
      Bool.false_eq_true, and_true, and_false, if_false] <;>
    split_ifs <;> omega

end Rounding

/-!
# Values
-/

namespace Decimal

def sign (negative : Bool) : ℚ :=
  if negative then -1 else 1

def value (d : Decimal) : ℚ :=
  d.signed / 10 ^ d.scale

/-- A number of at most 28 digits after the point whose coefficient is in range. -/
def Representable (x : ℚ) : Prop :=
  ∃ d : Decimal, d.value = x

variable {a b d : Decimal} {negative : Bool} {mode : Rounding} {x : ℚ}

theorem sign_mul_self (negative : Bool) : sign negative * sign negative = 1 := by
  cases negative with
  | true => norm_num [sign]
  | false => norm_num [sign]

theorem sign_injective {negative negative' : Bool} (h : sign negative = sign negative') :
    negative = negative' := by
  by_contra hne
  rw [Bool.eq_not_of_ne hne] at h
  cases negative' <;> norm_num [sign] at h

theorem abs_sign (negative : Bool) : |sign negative| = 1 := by
  cases negative with
  | true => norm_num [sign]
  | false => norm_num [sign]

theorem whole_sign_mul (mode : Rounding) (negative : Bool) (n : ℕ) {d : ℕ} (hd : 0 < d) :
    (mode.whole (sign negative * (n / d)) : ℚ) = sign negative * mode.quotient negative n d := by
  cases negative with
  | true =>
      rw [sign, if_pos rfl, neg_one_mul, neg_one_mul, Rounding.whole_neg,
        Rounding.whole_natCast_div _ _ hd, Rounding.quotient_true, Int.cast_neg, Int.cast_natCast]
  | false =>
      rw [sign, if_neg Bool.false_ne_true, one_mul, one_mul, Rounding.whole_natCast_div _ _ hd,
        Int.cast_natCast]

theorem cast_signed (d : Decimal) : (d.signed : ℚ) = sign d.negative * d.coefficient := by
  unfold signed sign
  split
  · push_cast
    rw [neg_one_mul]
  · push_cast
    rw [one_mul]

theorem value_eq (d : Decimal) : d.value = sign d.negative * (d.coefficient / 10 ^ d.scale) := by
  rw [value, cast_signed, mul_div_assoc]

theorem beq_iff_value : (a == b) = true ↔ a.value = b.value := by
  have hpos : ∀ k : ℕ, (10 : ℚ) ^ k ≠ 0 := fun k => pow_ne_zero k (by norm_num)
  rw [beq_iff_cross, value, value, div_eq_div_iff (hpos _) (hpos _)]
  exact_mod_cast Iff.rfl

theorem abs_value (d : Decimal) : |d.value| = d.coefficient / 10 ^ d.scale := by
  rw [value_eq, abs_mul, abs_sign, one_mul, abs_of_nonneg (by positivity)]

theorem abs_value_lt (d : Decimal) : |d.value| < 2 ^ 96 := by
  have hcoefficient : (d.coefficient : ℚ) < 2 ^ 96 := by exact_mod_cast d.coefficient_lt
  rw [abs_value]
  exact lt_of_le_of_lt (div_le_self (by positivity) (one_le_pow₀ (by norm_num))) hcoefficient

theorem value_eq_zero_iff : d.value = 0 ↔ d.isZero = true := by
  have hpos : (0 : ℚ) < 10 ^ d.scale := by positivity
  rw [← abs_eq_zero, abs_value, div_eq_zero_iff, or_iff_left hpos.ne', Nat.cast_eq_zero]
  exact beq_iff_eq.symm

/-!
# Significant digits
-/

/-- One unit in the last of so many digits, counted from the first that is not zero. -/
def digitUnit (digits : ℕ) (x : ℚ) : ℚ :=
  10 ^ (Int.log 10 |x| + 1 - digits)

theorem log_natCast_div {n : ℕ} (hn : 0 < n) (scale : ℕ) :
    Int.log 10 (n / 10 ^ scale : ℚ) = Digits.count n - 1 - scale := by
  have hpos : (0 : ℚ) < n / 10 ^ scale := by positivity
  have hscale : (10 : ℚ) ^ scale = 10 ^ (scale : ℤ) := (zpow_natCast 10 scale).symm
  have hcount := Digits.count_pos n
  have hbelow : 10 ^ (Digits.count n - 1) ≤ n := by
    rcases Nat.eq_zero_or_pos (Digits.count n - 1) with hzero | hmore
    · rw [hzero]
      exact hn
    · by_contra hlt
      have hle := Digits.count_le hmore (Nat.lt_of_not_le hlt)
      omega
  have hlow : ((10 : ℕ) : ℚ) ^ ((Digits.count n : ℤ) - 1 - scale) ≤ n / 10 ^ scale := by
    rw [zpow_sub₀ (by norm_num), Nat.cast_ofNat, zpow_natCast]
    apply div_le_div_of_nonneg_right _ (by positivity)
    have hcast : ((Digits.count n : ℤ) - 1) = ((Digits.count n - 1 : ℕ) : ℤ) := by omega
    rw [hcast, zpow_natCast]
    exact_mod_cast hbelow
  have hhigh : (n / 10 ^ scale : ℚ) < ((10 : ℕ) : ℚ) ^ ((Digits.count n : ℤ) - scale) := by
    rw [zpow_sub₀ (by norm_num), Nat.cast_ofNat, zpow_natCast, zpow_natCast]
    apply div_lt_div_of_pos_right _ (by positivity)
    exact_mod_cast Digits.lt_pow_count n
  have hle := (Int.zpow_le_iff_le_log (by norm_num) hpos).mp hlow
  have hlt := (Int.lt_zpow_iff_log_lt (by norm_num) hpos).mp hhigh
  omega

theorem toMultiple_sign_mul (mode : Rounding) (negative : Bool) (n scale : ℕ) (m : ℤ) :
    mode.toMultiple (10 ^ (m - scale)) (sign negative * (n / 10 ^ scale)) =
      sign negative * mode.quotient negative n (10 ^ m.toNat) * 10 ^ ((m.toNat : ℤ) - scale) := by
  unfold Rounding.toMultiple
  rcases Int.le_total 0 m with hm | hm
  · rcases Int.eq_ofNat_of_zero_le hm with ⟨k, rfl⟩
    have hcount : sign negative * (n / 10 ^ scale) / 10 ^ ((k : ℤ) - scale) =
        sign negative * (n / (10 ^ k : ℕ)) := by
      rw [zpow_sub₀ (by norm_num), zpow_natCast, zpow_natCast]
      push_cast
      field_simp
    rw [hcount, whole_sign_mul _ _ _ (Nat.pow_pos (by decide)), Int.toNat_natCast]
  · rcases Int.exists_eq_neg_ofNat hm with ⟨k, rfl⟩
    have hcount : sign negative * (n / 10 ^ scale) / 10 ^ (-(k : ℤ) - scale) =
        sign negative * ((n * 10 ^ k : ℕ) / (1 : ℕ)) := by
      rw [zpow_sub₀ (by norm_num), zpow_neg, zpow_natCast, zpow_natCast]
      push_cast
      field_simp
    rw [hcount, whole_sign_mul _ _ _ Nat.one_pos, Rounding.quotient_one,
      Int.toNat_of_nonpos (by omega), Nat.pow_zero, Rounding.quotient_one]
    rw [zpow_sub₀ (by norm_num), zpow_sub₀ (by norm_num), zpow_neg, zpow_natCast, zpow_natCast]
    push_cast
    field_simp

/-!
# Cut coefficients
-/

theorem ofParts?_cut (negative : Bool) {kept dropped scale : ℕ} (hkept : kept < 2 ^ (96 : ℕ))
    (hscale : scale - dropped ≤ 28) :
    (∃ d, ofParts? negative (kept * 10 ^ (dropped - scale)) (scale - dropped) = some d ∧
        d.value = sign negative * kept * 10 ^ ((dropped : ℤ) - scale) ∧
          |sign negative * kept * 10 ^ ((dropped : ℤ) - scale)| < 2 ^ 96) ∨
      ofParts? negative (kept * 10 ^ (dropped - scale)) (scale - dropped) = none ∧
        2 ^ 96 ≤ |sign negative * kept * 10 ^ ((dropped : ℤ) - scale)| := by
  have hvalue : (kept : ℚ) * 10 ^ ((dropped : ℤ) - scale) =
      (kept * 10 ^ (dropped - scale) : ℕ) / 10 ^ (scale - dropped) := by
    have hsplit :
        ((dropped : ℤ) - scale) = ((dropped - scale : ℕ) : ℤ) - (scale - dropped : ℕ) := by
      omega
    rw [hsplit, zpow_sub₀ (by norm_num), zpow_natCast, zpow_natCast, ← mul_div_assoc]
    push_cast
    rfl
  by_cases hfits : kept * 10 ^ (dropped - scale) < 2 ^ (96 : ℕ)
  · have hd : ofParts? negative (kept * 10 ^ (dropped - scale)) (scale - dropped) = some _ :=
      ofParts?_of_fits hfits hscale
    refine Or.inl ⟨_, hd, ?_, ?_⟩
    · rw [value_eq, mul_assoc, hvalue]
    · rw [mul_assoc, hvalue, ← value_eq ⟨negative, _, _, hfits, hscale⟩]
      exact abs_value_lt _
  · have hdropped : scale - dropped = 0 := by
      by_contra hmore
      have hnone : dropped - scale = 0 := by omega
      rw [hnone, Nat.pow_zero, Nat.mul_one] at hfits
      exact hfits hkept
    refine Or.inr ⟨dif_neg fun h => hfits h.1, ?_⟩
    rw [mul_assoc, hvalue, hdropped, pow_zero, div_one, abs_mul, abs_sign, one_mul, Nat.abs_cast]
    exact_mod_cast Nat.le_of_not_lt hfits

theorem quotient_lt {context : DecimalContext} (negative : Bool) {n dropped : ℕ}
    (h : Digits.count n ≤ context.significantDigits + dropped) :
    context.rounding.quotient negative n (10 ^ dropped) < 2 ^ (96 : ℕ) := by
  have hpow : 10 ^ context.significantDigits ≤ 10 ^ (28 : ℕ) :=
    Nat.pow_le_pow_right (by decide) context.significantDigits_le
  have hle := Nat.le_trans (DecimalContext.quotient_le_pow negative h) hpow
  exact Nat.lt_of_le_of_lt hle (by decide)

/-- A context rounds a decimal to the digits it asks for, and leaves it alone where the result is
out of range. -/
theorem value_round {context : DecimalContext} (hprecision : context.precision ≠ 0) (d : Decimal) :
    (context.round d).value =
        context.rounding.toMultiple (digitUnit context.significantDigits d.value) d.value ∧
      |context.rounding.toMultiple (digitUnit context.significantDigits d.value) d.value| < 2 ^ 96 ∧
      context.Keeps (context.round d).coefficient ∨
    context.round d = d ∧
      2 ^ 96 ≤
        |context.rounding.toMultiple (digitUnit context.significantDigits d.value) d.value| := by
  cases hzero : d.isZero with
  | true =>
      have hvalue := value_eq_zero_iff.mpr hzero
      have hnone : d.coefficient = 0 * 10 ^ 0 := beq_iff_eq.mp hzero
      rw [DecimalContext.round_of_isZero hzero, hvalue, Rounding.toMultiple_zero]
      exact Or.inl ⟨rfl, by norm_num, 0, 0, Nat.pow_pos (by decide), hnone⟩
  | false =>
      have hpos : 0 < d.coefficient := Nat.pos_of_ne_zero (beq_eq_false_iff_ne.mp hzero)
      have hunit : digitUnit context.significantDigits d.value =
          10 ^ ((Digits.count d.coefficient : ℤ) - context.significantDigits - d.scale) := by
        rw [digitUnit, abs_value, log_natCast_div hpos]
        congr 1
        omega
      have hdropped : ((Digits.count d.coefficient : ℤ) - context.significantDigits).toNat =
          Digits.count d.coefficient - context.significantDigits := by
        omega
      rw [hunit, value_eq d, toMultiple_sign_mul, hdropped,
        DecimalContext.round_eq hprecision hzero rfl]
      have hcut : Digits.count d.coefficient ≤ context.significantDigits +
          (Digits.count d.coefficient - context.significantDigits) := by
        omega
      have hscale : d.scale - (Digits.count d.coefficient - context.significantDigits) ≤ 28 :=
        Nat.le_trans (Nat.sub_le ..) d.scale_le
      rcases ofParts?_cut d.negative (quotient_lt d.negative hcut) hscale with
        ⟨r, hr, hvalue, hlt⟩ | ⟨hr, hle⟩
      · have hcoefficient := (ofParts?_eq_some_iff.mp hr).2.1
        rw [hr, Option.getD_some, hcoefficient]
        exact Or.inl ⟨hvalue, hlt, (DecimalContext.keeps_quotient d.negative hcut).mul_pow _⟩
      · rw [hr]
        exact Or.inr ⟨rfl, hle⟩

end Decimal
end TreeQuery
