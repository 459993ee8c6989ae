import TreeQuery.Proofs.Numeric.Exact

/-!
# Rounding twice

A number that was first rounded to the nearest multiple of a fine unit, and then
to a number of digits, may miss the number that was rounded to those digits
alone.  Both lie between the same two neighbours, so that they are at most one
unit in the last digit apart.
-/

namespace TreeQuery

-- Powers are those of the core library, whatever else is in scope.
attribute [local instance (high)] instPowNat

/-!
# Between multiples
-/

namespace Rounding

variable {mode : Rounding} {u x : ℚ} {j k : ℤ}

theorem floor_le_whole (mode : Rounding) (x : ℚ) : ⌊x⌋ ≤ mode.whole x := by
  have hle := Int.floor_le_ceil x
  have houtward : ⌊x⌋ ≤ outward x := by
    unfold outward
    split
    · exact hle
    · exact le_rfl
  have hinward : ⌊x⌋ ≤ inward x := by
    unfold inward
    split
    · exact le_rfl
    · exact hle
  have hnearest : ∀ {tie : ℤ}, ⌊x⌋ ≤ tie → ⌊x⌋ ≤ nearest x tie := by
    intro tie htie
    unfold nearest round
    split_ifs
    · exact htie
    · exact le_rfl
    · exact hle
  cases mode with
  | up => exact houtward
  | down => exact hinward
  | ceiling => exact hle
  | floor => exact le_rfl
  | halfUp => exact hnearest houtward
  | halfDown => exact hnearest hinward
  | halfEven =>
      apply hnearest
      split
      · exact le_rfl
      · exact hle

theorem whole_le_ceil (mode : Rounding) (x : ℚ) : mode.whole x ≤ ⌈x⌉ := by
  have hmirror := floor_le_whole mode.mirror (-x)
  rw [Int.floor_neg, whole_neg] at hmirror
  have hmode : mode.mirror.mirror = mode := by
    cases mode <;> rfl
  rw [hmode] at hmirror
  exact neg_le_neg_iff.mp hmirror

theorem toMultiple_mem (mode : Rounding) (hu : 0 < u) (hlow : j * u ≤ x) (hhigh : x ≤ k * u) :
    j * u ≤ mode.toMultiple u x ∧ mode.toMultiple u x ≤ k * u := by
  have hj : j ≤ mode.whole (x / u) :=
    le_trans (Int.le_floor.mpr ((le_div_iff₀ hu).mpr hlow)) (floor_le_whole mode _)
  have hk : mode.whole (x / u) ≤ k :=
    le_trans (whole_le_ceil mode _) (Int.ceil_le.mpr ((div_le_iff₀ hu).mpr hhigh))
  constructor
  · exact mul_le_mul_of_nonneg_right (by exact_mod_cast hj) hu.le
  · exact mul_le_mul_of_nonneg_right (by exact_mod_cast hk) hu.le

theorem toMultiple_mul (mode : Rounding) (hu : 0 < u) (k : ℤ) :
    mode.toMultiple u (k * u) = k * u := by
  rw [toMultiple, mul_div_cancel_right₀ _ hu.ne', whole_intCast]

theorem abs_toMultiple_mem (mode : Rounding) (hu : 0 < u) (hj : 0 ≤ j) (hlow : j * u ≤ |x|)
    (hhigh : |x| ≤ k * u) :
    j * u ≤ |mode.toMultiple u x| ∧ |mode.toMultiple u x| ≤ k * u := by
  have hnonneg : 0 ≤ j * u := mul_nonneg (by exact_mod_cast hj) hu.le
  rcases le_total 0 x with hx | hx
  · rw [abs_of_nonneg hx] at hlow hhigh
    have hmem := toMultiple_mem mode hu hlow hhigh
    rw [abs_of_nonneg (le_trans hnonneg hmem.1)]
    exact hmem
  · rw [abs_of_nonpos hx] at hlow hhigh
    have hmem : ((-k : ℤ) : ℚ) * u ≤ mode.toMultiple u x ∧
        mode.toMultiple u x ≤ ((-j : ℤ) : ℚ) * u :=
      toMultiple_mem mode hu (by push_cast; linarith) (by push_cast; linarith)
    push_cast at hmem
    rw [abs_of_nonpos (by linarith)]
    constructor <;> linarith

theorem abs_toMultiple_sub_lt (mode : Rounding) (hu : 0 < u) : |mode.toMultiple u x - x| < u := by
  have hlow : (⌊x / u⌋ : ℚ) ≤ mode.whole (x / u) := by exact_mod_cast floor_le_whole mode _
  have hhigh : (mode.whole (x / u) : ℚ) ≤ ⌈x / u⌉ := by exact_mod_cast whole_le_ceil mode _
  have hwhole : |(mode.whole (x / u) : ℚ) - x / u| < 1 := by
    rw [abs_lt]
    constructor
    · linarith [Int.lt_floor_add_one (x / u)]
    · linarith [Int.ceil_lt_add_one (x / u)]
  have hfactor : mode.toMultiple u x - x = (mode.whole (x / u) - x / u) * u := by
    rw [toMultiple, sub_mul, div_mul_cancel₀ _ hu.ne']
  rw [hfactor, abs_mul, abs_of_pos hu]
  exact mul_lt_of_lt_one_left hu hwhole

theorem toMultiple_halfEven_of_near (hu : 0 < u) (h : |x - k * u| < u / 2) :
    halfEven.toMultiple u x = k * u := by
  have hnear : |x / u - k| < 1 / 2 := by
    have hfactor : x / u - k = (x - k * u) / u := by
      rw [sub_div, mul_div_cancel_right₀ _ hu.ne']
    rw [hfactor, abs_div, abs_of_pos hu, div_lt_iff₀ hu]
    linarith
  rcases abs_lt.mp hnear with ⟨hlow, hhigh⟩
  have hround : round (x / u) = k := by
    rw [round_eq, Int.floor_eq_iff]
    constructor <;> linarith
  have hfract : Int.fract (x / u) ≠ 1 / 2 := by
    intro hhalf
    have hsplit := Int.floor_add_fract (x / u)
    rw [hhalf] at hsplit
    have hle : (⌊x / u⌋ : ℚ) < k := by linarith
    have hlt : (k : ℚ) - 1 < ⌊x / u⌋ := by linarith
    have hle' : ⌊x / u⌋ < k := by exact_mod_cast hle
    have hlt' : k - 1 < ⌊x / u⌋ := by exact_mod_cast hlt
    omega
  rw [toMultiple, whole, nearest, if_neg hfract, hround]

end Rounding

/-!
# Between digits
-/

namespace Decimal

open Rounding

variable {digits : ℕ} {x w : ℚ} {e f : ℤ}

theorem zpow_pos_ten (e : ℤ) : (0 : ℚ) < 10 ^ e :=
  zpow_pos (by norm_num) e

theorem digitUnit_pos (digits : ℕ) (x : ℚ) : 0 < digitUnit digits x :=
  zpow_pos_ten _

theorem exists_mul_zpow (h : f ≤ e) : ∃ k : ℤ, 0 ≤ k ∧ (10 : ℚ) ^ e = k * 10 ^ f := by
  refine ⟨10 ^ (e - f).toNat, by positivity, ?_⟩
  have hcast : (((10 : ℤ) ^ (e - f).toNat : ℤ) : ℚ) = 10 ^ (e - f) := by
    push_cast
    rw [← zpow_natCast, Int.toNat_of_nonneg (by omega)]
  rw [hcast, ← zpow_add₀ (by norm_num)]
  congr 1
  omega

theorem zpow_log_le (hx : x ≠ 0) : (10 : ℚ) ^ Int.log 10 |x| ≤ |x| := by
  have hle := Int.zpow_log_le_self (b := 10) (by norm_num) (abs_pos.mpr hx)
  exact_mod_cast hle

theorem lt_zpow_log (x : ℚ) : |x| < (10 : ℚ) ^ (Int.log 10 |x| + 1) := by
  have hlt := Int.lt_zpow_succ_log_self (b := 10) (by norm_num) |x|
  exact_mod_cast hlt

theorem le_log (hx : 10 ^ e ≤ |x|) : e ≤ Int.log 10 |x| := by
  have hpos : 0 < |x| := lt_of_lt_of_le (zpow_pos_ten e) hx
  exact (Int.zpow_le_iff_le_log (b := 10) (by norm_num) hpos).mp (by exact_mod_cast hx)

theorem exists_mul_digitUnit (hdigits : 1 ≤ digits) {k : ℤ} (hk : w = k * 10 ^ e)
    (hw : |w| ≤ 10 ^ (e + digits)) : ∃ j : ℤ, w = j * digitUnit digits w := by
  rcases eq_or_ne w 0 with hzero | hne
  · exact ⟨0, by rw [hzero, Int.cast_zero, zero_mul]⟩
  · have hlog : Int.log 10 |w| ≤ e + digits := by
      have hpow := le_trans (zpow_log_le hne) hw
      exact (zpow_le_zpow_iff_right₀ (by norm_num)).mp hpow
    rcases lt_or_ge (Int.log 10 |w|) (e + digits) with hlt | hge
    · rcases exists_mul_zpow (show Int.log 10 |w| + 1 - digits ≤ e by omega) with ⟨m, _, hm⟩
      refine ⟨k * m, ?_⟩
      rw [digitUnit, Int.cast_mul, mul_assoc, ← hm]
      exact hk
    · -- Only the power of ten itself is left.
      have hfull : Int.log 10 |w| = e + digits := by omega
      have habs : |w| = 10 ^ (e + digits) := by
        apply le_antisymm hw
        rw [← hfull]
        exact zpow_log_le hne
      have hexponent : Int.log 10 |w| + 1 - digits ≤ e + digits := by omega
      rcases exists_mul_zpow hexponent with ⟨m, _, hm⟩
      rcases abs_eq (zpow_pos_ten _).le |>.mp habs with hpos | hneg
      · refine ⟨m, ?_⟩
        rw [digitUnit, ← hm]
        exact hpos
      · refine ⟨-m, ?_⟩
        rw [digitUnit, Int.cast_neg, neg_mul, ← hm]
        exact hneg

theorem toMultiple_digitUnit_self (mode : Rounding) (hdigits : 1 ≤ digits) {k : ℤ}
    (hk : w = k * 10 ^ e) (hw : |w| ≤ 10 ^ (e + digits)) :
    mode.toMultiple (digitUnit digits w) w = w := by
  rcases exists_mul_digitUnit hdigits hk hw with ⟨j, hj⟩
  have hmul := toMultiple_mul mode (digitUnit_pos digits w) j
  rw [← hj] at hmul
  exact hmul

theorem abs_toMultiple_digits (mode : Rounding) (hx : x ≠ 0) (h : e ≤ Int.log 10 |x|) :
    10 ^ Int.log 10 |x| ≤ |mode.toMultiple (10 ^ e) x| ∧
      |mode.toMultiple (10 ^ e) x| ≤ 10 ^ (Int.log 10 |x| + 1) := by
  rcases exists_mul_zpow h with ⟨j, hj, hlow⟩
  rcases exists_mul_zpow (show e ≤ Int.log 10 |x| + 1 by omega) with ⟨k, _, hhigh⟩
  have hbelow := zpow_log_le hx
  have habove := (lt_zpow_log x).le
  rw [hlow] at hbelow ⊢
  rw [hhigh] at habove ⊢
  exact abs_toMultiple_mem mode (zpow_pos_ten e) hj hbelow habove

/-- Rounded to so many digits, a number has no more of them. -/
theorem toMultiple_toMultiple (mode : Rounding) (hdigits : 1 ≤ digits) (hx : x ≠ 0) :
    mode.toMultiple (digitUnit digits (mode.toMultiple (digitUnit digits x) x))
      (mode.toMultiple (digitUnit digits x) x) = mode.toMultiple (digitUnit digits x) x := by
  apply toMultiple_digitUnit_self mode hdigits rfl
  rw [sub_add_cancel]
  exact (abs_toMultiple_digits mode hx (by omega)).2

theorem digitUnit_eq (digits : ℕ) (hlow : 10 ^ e ≤ |w|) (hhigh : |w| < 10 ^ (e + 1)) :
    digitUnit digits w = 10 ^ (e + 1 - digits) := by
  have hpos : 0 < |w| := lt_of_lt_of_le (zpow_pos_ten _) hlow
  have hle : e ≤ Int.log 10 |w| := le_log hlow
  have hlt : Int.log 10 |w| < e + 1 :=
    (Int.lt_zpow_iff_log_lt (b := 10) (by norm_num) hpos).mp (by exact_mod_cast hhigh)
  have hlog : Int.log 10 |w| = e := by omega
  rw [digitUnit, hlog]

/-- Rounded to a unit that is fine enough first, a number ends up at a neighbour of the same
pair. -/
theorem abs_sub_toMultiple_twice (mode : Rounding) (hdigits : 1 ≤ digits) (hx : x ≠ 0)
    (hfine : e ≤ Int.log 10 |x| + 1 - digits) :
    let y := mode.toMultiple (digitUnit digits x) x
    let z := halfEven.toMultiple (10 ^ e) x
    |z - y| ≤ digitUnit digits x ∧
      |mode.toMultiple (digitUnit digits z) z - y| ≤ digitUnit digits x := by
  intro y z
  have hu := digitUnit_pos digits x
  have hlow : (⌊x / digitUnit digits x⌋ : ℚ) * digitUnit digits x ≤ x :=
    (le_div_iff₀ hu).mp (Int.floor_le _)
  have hhigh : x ≤ (⌈x / digitUnit digits x⌉ : ℚ) * digitUnit digits x :=
    (div_le_iff₀ hu).mp (Int.le_ceil _)
  have hgap : (⌈x / digitUnit digits x⌉ : ℚ) ≤ ⌊x / digitUnit digits x⌋ + 1 := by
    exact_mod_cast Int.ceil_le_floor_add_one (x / digitUnit digits x)
  generalize ⌊x / digitUnit digits x⌋ = j at hlow hgap
  generalize ⌈x / digitUnit digits x⌉ = k at hhigh hgap
  have hwidth : k * digitUnit digits x ≤ j * digitUnit digits x + digitUnit digits x := by
    have hmul := mul_le_mul_of_nonneg_right hgap hu.le
    linarith
  have hy := toMultiple_mem mode hu hlow hhigh
  have hnear : ∀ {v : ℚ}, j * digitUnit digits x ≤ v → v ≤ k * digitUnit digits x →
      |v - y| ≤ digitUnit digits x := by
    intro v hv hv'
    rw [abs_le]
    constructor <;> linarith [hy.1, hy.2]
  have hz : j * digitUnit digits x ≤ z ∧ z ≤ k * digitUnit digits x := by
    rcases exists_mul_zpow hfine with ⟨m, _, hm⟩
    have hcast : ∀ i : ℤ, i * digitUnit digits x = (i * m : ℤ) * 10 ^ e := by
      intro i
      rw [digitUnit, hm, Int.cast_mul, mul_assoc]
    rw [hcast] at hlow hhigh ⊢
    rw [hcast]
    exact toMultiple_mem halfEven (zpow_pos_ten e) hlow hhigh
  refine ⟨hnear hz.1 hz.2, ?_⟩
  have hdigitsz := abs_toMultiple_digits halfEven hx (show e ≤ Int.log 10 |x| by omega)
  rcases lt_or_eq_of_le hdigitsz.2 with hbelow | hcarried
  · have hunit : digitUnit digits z = digitUnit digits x :=
      digitUnit_eq digits hdigitsz.1 hbelow
    rw [hunit]
    have hv := toMultiple_mem mode hu hz.1 hz.2
    exact hnear hv.1 hv.2
  · have hself : mode.toMultiple (digitUnit digits z) z = z := by
      have hpow : |z| ≤ 10 ^ (Int.log 10 |x| + 1 + digits) := by
        rw [hcarried]
        exact (zpow_le_zpow_iff_right₀ (by norm_num)).mpr (by omega)
      rcases (abs_eq (zpow_pos_ten _).le).mp hcarried with hpos | hneg
      · exact toMultiple_digitUnit_self mode hdigits (k := 1) (by simpa using hpos) hpow
      · exact toMultiple_digitUnit_self mode hdigits (k := -1) (by simpa using hneg) hpow
    rw [hself]
    exact hnear hz.1 hz.2

/-- A number that comes to a multiple of a coarse unit after being rounded to a fine one comes to
the same multiple at once. -/
theorem toMultiple_halfEven_of_coarse (mode : Rounding) (hcoarse : Int.log 10 |x| + 1 - digits < e)
    {k : ℤ} (hk : mode.toMultiple (digitUnit digits x) x = k * 10 ^ e) :
    halfEven.toMultiple (10 ^ e) x = mode.toMultiple (digitUnit digits x) x := by
  have hunit : digitUnit digits x ≤ 10 ^ e / 2 := by
    have hle : digitUnit digits x ≤ 10 ^ (e - 1) :=
      (zpow_le_zpow_iff_right₀ (by norm_num)).mpr (by omega)
    have hten : (10 : ℚ) ^ e = 10 ^ (e - 1) * 10 := by
      rw [← zpow_add_one₀ (by norm_num), sub_add_cancel]
    have hpos := zpow_pos_ten (e - 1)
    linarith
  have herror := abs_toMultiple_sub_lt mode (x := x) (digitUnit_pos digits x)
  rw [hk, abs_sub_comm] at herror
  rw [hk]
  exact toMultiple_halfEven_of_near (zpow_pos_ten e) (lt_of_lt_of_le herror hunit)

end Decimal
end TreeQuery
