import TreeQuery.Proofs.Numeric.Library

/-!
# The nearest whole number

The nearest whole number is found by adding one half and going down to a whole
number.  The sum has to be a decimal, too, and if it is not one it is rounded to
one digit less.  Only where that carries it up to a whole number the result is
not the nearest one, but the one after it.
-/

namespace TreeQuery

-- Powers are those of the core library, whatever else is in scope.
attribute [local instance (high)] instPowNat

namespace Decimal

open Rounding

variable {l : Library} {d z : Decimal} {k : ℕ}

def Library.round (l : Library) (d : Decimal) : Decimal :=
  match l.add d half with
  | some shifted => l.floor shifted
  | none => d

theorem value_half : half.value = 1 / 2 := by
  norm_num [half, value, signed]

theorem value_round_of_add (h : l.Lawful) (hz : l.add d half = some z) :
    (l.round d).value = ⌊z.value⌋ := by
  rw [Library.round, hz]
  exact h.floor z

theorem value_round_of_representable (h : l.Lawful) (hx : Representable (d.value + 1 / 2)) :
    (l.round d).value = ⌊d.value + 1 / 2⌋ := by
  have happroximates := h.add d half
  rw [value_half] at happroximates
  rcases happroximates.exact hx with ⟨z, hz, hvalue⟩
  rw [value_round_of_add h hz, hvalue]

/-!
# The sum
-/

theorem value_add_half (hk : max d.scale 1 = k + 1) :
    d.value + 1 / 2 = sign (decide (totalAt d half (k + 1) < 0)) *
      ((totalAt d half (k + 1)).natAbs / (10 ^ (k + 1) : ℕ)) := by
  have hd : d.scale ≤ k + 1 := hk ▸ Nat.le_max_left ..
  have hhalf : half.scale ≤ k + 1 := hk ▸ Nat.le_max_right ..
  rw [← mul_div_assoc, sign_mul_natAbs, totalAt, ← value_half, ← cast_unitsAt d hd,
    ← cast_unitsAt half hhalf, ← add_div]
  push_cast
  rfl

theorem natAbs_totalAt_half_le (d : Decimal) (k : ℕ) :
    (totalAt d half (k + 1)).natAbs ≤ d.coefficient * 10 ^ (k + 1 - d.scale) + 5 * 10 ^ k := by
  have habs := Int.natAbs_add_le (d.unitsAt (k + 1)) (half.unitsAt (k + 1))
  rw [natAbs_unitsAt, natAbs_unitsAt] at habs
  exact habs

theorem natAbs_totalAt_half_lt (hk : max d.scale 1 = k + 1) :
    (totalAt d half (k + 1)).natAbs < 2 ^ (96 : ℕ) + 10 ^ (28 : ℕ) ∨
      d.scale = 0 ∧ k = 0 := by
  -- Only a whole number that has no digits behind the point comes near the bound with the next
  -- digit.
  have hle := natAbs_totalAt_half_le d k
  have hcoefficient := d.coefficient_lt
  have hscale := d.scale_le
  rcases Nat.eq_zero_or_pos d.scale with hwhole | hpos
  · rw [hwhole] at hk
    exact Or.inr ⟨hwhole, by omega⟩
  · have hlast : d.scale = k + 1 := by omega
    have hpow : 10 ^ k ≤ 10 ^ (27 : ℕ) := Nat.pow_le_pow_right (by decide) (by omega)
    rw [hlast, Nat.sub_self, Nat.pow_zero, Nat.mul_one] at hle
    left
    omega

theorem le_natAbs_of_not_representable (hk : max d.scale 1 = k + 1)
    (hx : ¬Representable (d.value + 1 / 2)) :
    2 ^ (96 : ℕ) ≤ (totalAt d half (k + 1)).natAbs := by
  by_contra hlt
  have hscale : k + 1 ≤ 28 := hk ▸ Nat.max_le.mpr ⟨d.scale_le, by decide⟩
  apply hx
  refine ⟨⟨decide (totalAt d half (k + 1) < 0), _, k + 1, Nat.lt_of_not_le hlt, hscale⟩, ?_⟩
  rw [value_add_half hk, value_eq]
  push_cast
  rfl

theorem coefficientAt_tenth (n k : ℕ) :
    coefficientAt n (10 ^ (k + 1)) k = halfEven.quotient false n 10 := by
  rw [coefficientAt, Nat.pow_succ', Rounding.quotient_mul _ _ _ _ (Nat.pow_pos (by decide))]

theorem add_half_eq_fit? (hk : max d.scale 1 = k + 1) (hx : ¬Representable (d.value + 1 / 2)) :
    d.add half = fit? (decide (totalAt d half (k + 1) < 0)) (totalAt d half (k + 1)).natAbs
      (10 ^ (k + 1)) k := by
  have hd : d.isZero = false := by
    rw [Bool.eq_false_iff]
    intro hzero
    apply hx
    refine ⟨half, ?_⟩
    rw [value_eq_zero_iff.mpr hzero, value_half, zero_add]
  have hhalf : half.scale = 1 := rfl
  have hlarge := le_natAbs_of_not_representable hk hx
  rw [add_eq hd rfl, hhalf, hk, fit?, coefficientAt_self]
  split
  · rename_i result hresult
    have hcoefficient := (ofParts?_eq_some_iff.mp hresult).2.1
    exact absurd result.coefficient_lt (Nat.not_lt.mpr (hcoefficient ▸ hlarge))
  · rfl

/-- With one digit less there is a sum, but for the largest of the whole numbers. -/
theorem add_half_cases (hk : max d.scale 1 = k + 1) (hx : ¬Representable (d.value + 1 / 2)) :
    (∃ z, d.add half = some z ∧
        z.value = halfEven.toMultiple (10 ^ (-(k : ℤ))) (d.value + 1 / 2)) ∨
      d.add half = none ∧ d.scale = 0 ∧
        2 ^ 96 ≤ |halfEven.toMultiple (10 ^ (-(k : ℤ))) (d.value + 1 / 2)| := by
  have hscale : k ≤ 28 := by
    have := d.scale_le
    omega
  have hvalue := sign_mul_coefficientAt (decide (totalAt d half (k + 1) < 0))
    (totalAt d half (k + 1)).natAbs (Nat.pow_pos (by decide) : 0 < 10 ^ (k + 1)) k
  rw [← value_add_half hk] at hvalue
  rw [add_half_eq_fit? hk hx, ← hvalue]
  by_cases hfits : coefficientAt (totalAt d half (k + 1)).natAbs (10 ^ (k + 1)) k < 2 ^ (96 : ℕ)
  · left
    rw [fit?_of_fits hfits hscale]
    exact ⟨_, rfl, value_eq _⟩
  · right
    have hlarge := Nat.le_of_not_lt hfits
    have hsucc := halfEven.quotient_le_succ false (totalAt d half (k + 1)).natAbs 10
    rcases natAbs_totalAt_half_lt hk with hlt | ⟨hwhole, rfl⟩
    · rw [coefficientAt_tenth] at hlarge
      omega
    · refine ⟨dif_neg fun h => hfits h.1, hwhole, ?_⟩
      rw [abs_mul, abs_sign, one_mul, pow_zero, div_one, Nat.abs_cast]
      exact_mod_cast hlarge

theorem sum_half_cases (h : l.Lawful) (hk : max d.scale 1 = k + 1)
    (hx : ¬Representable (d.value + 1 / 2)) :
    (∃ z, l.add d half = some z ∧
        z.value = halfEven.toMultiple (10 ^ (-(k : ℤ))) (d.value + 1 / 2)) ∨
      l.add d half = none ∧ d.scale = 0 ∧
        2 ^ 96 ≤ |halfEven.toMultiple (10 ^ (-(k : ℤ))) (d.value + 1 / 2)| := by
  have hagree : Agree (l.add d half) (d.add half) := (h.agree lawful_library).1 d half
  rcases add_half_cases hk hx with ⟨w, hw, hvalue⟩ | ⟨hnone, hlarge⟩
  · rw [hw] at hagree
    rcases hagree.exists_of_some with ⟨z, hz, hsame⟩
    exact Or.inl ⟨z, hz, (beq_iff_value.mp hsame).trans hvalue⟩
  · rw [hnone] at hagree
    exact Or.inr ⟨hagree.eq_none, hlarge⟩

/-!
# Up to the next whole number
-/

theorem toMultiple_mem_floor (mode : Rounding) (k : ℕ) (x : ℚ) :
    (⌊x⌋ : ℚ) ≤ mode.toMultiple (10 ^ (-(k : ℤ))) x ∧
      mode.toMultiple (10 ^ (-(k : ℤ))) x ≤ ⌊x⌋ + 1 := by
  have hu : (0 : ℚ) < 10 ^ (-(k : ℤ)) := zpow_pos_ten _
  have hmul : ∀ j : ℤ, (j : ℚ) = (j * 10 ^ k : ℤ) * 10 ^ (-(k : ℤ)) := by
    intro j
    rw [zpow_neg, zpow_natCast]
    push_cast
    rw [mul_assoc, mul_inv_cancel₀ (pow_ne_zero k (by norm_num)), mul_one]
  have hlow := Int.floor_le x
  have hhigh : x ≤ ((⌊x⌋ + 1 : ℤ) : ℚ) := by
    push_cast
    exact (Int.lt_floor_add_one x).le
  rw [hmul] at hlow hhigh
  have hmem := toMultiple_mem mode hu hlow hhigh
  rw [← hmul, ← hmul] at hmem
  exact_mod_cast hmem

theorem floor_add_half_of_scale (h : d.scale = 0) : d.value = ⌊d.value + 1 / 2⌋ := by
  have hvalue : d.value = d.signed := by
    rw [value, h, pow_zero, div_one]
  have hfloor : ⌊(d.signed : ℚ) + 1 / 2⌋ = d.signed := by
    rw [Int.floor_eq_iff]
    constructor <;> linarith
  rw [hvalue, hfloor]

/-- Of a sum that is no decimal the result is the floor, unless its rounding reaches the next whole
number. -/
theorem value_round_of_not_representable (h : l.Lawful) (hk : max d.scale 1 = k + 1)
    (hx : ¬Representable (d.value + 1 / 2)) :
    ((l.round d).value = ⌊d.value + 1 / 2⌋ ∨ (l.round d).value = ⌊d.value + 1 / 2⌋ + 1) ∧
      ((l.round d).value = ⌊d.value + 1 / 2⌋ + 1 ↔
        ⌊d.value + 1 / 2⌋ + 1 ≤ halfEven.toMultiple (10 ^ (-(k : ℤ))) (d.value + 1 / 2) ∧
          |halfEven.toMultiple (10 ^ (-(k : ℤ))) (d.value + 1 / 2)| < 2 ^ 96) := by
  have hmem := toMultiple_mem_floor halfEven k (d.value + 1 / 2)
  rcases sum_half_cases h hk hx with ⟨z, hz, hvalue⟩ | ⟨hnone, hwhole, hlarge⟩
  · rw [← hvalue] at hmem ⊢
    rw [value_round_of_add h hz]
    rcases lt_or_ge z.value (⌊d.value + 1 / 2⌋ + 1) with hbelow | habove
    · have hfloor : ⌊z.value⌋ = ⌊d.value + 1 / 2⌋ := Int.floor_eq_iff.mpr ⟨hmem.1, hbelow⟩
      rw [hfloor]
      exact ⟨Or.inl rfl, iff_of_false (by simp) fun h => absurd h.1 (not_le.mpr hbelow)⟩
    · have hcarried : z.value = ((⌊d.value + 1 / 2⌋ + 1 : ℤ) : ℚ) := by
        push_cast
        exact le_antisymm hmem.2 habove
      have hfloor : ⌊z.value⌋ = ⌊d.value + 1 / 2⌋ + 1 := by
        rw [hcarried, Int.floor_intCast]
      rw [hfloor]
      push_cast
      exact ⟨Or.inr rfl, iff_of_true rfl ⟨habove, abs_value_lt z⟩⟩
  · have hleft : l.round d = d := by
      rw [Library.round, hnone]
    have hfloor := floor_add_half_of_scale hwhole
    rw [hleft]
    refine ⟨Or.inl hfloor, iff_of_false ?_ fun h => absurd h.2 (not_lt.mpr hlarge)⟩
    rw [← hfloor]
    simp

end Decimal

namespace Number

open Decimal

/-- Halves go up, and the result is the nearest whole number wherever the sum with one half is a
decimal.  It is the next one exactly where the sum is none and where rounding it to one digit less
carries it there. -/
theorem round_nearest (d : Decimal) :
    let x := d.value + 1 / 2
    let y := Rounding.halfEven.toMultiple (10 ^ (1 - (max d.scale 1 : ℕ) : ℤ)) x
    ∃ r, Number.round (.decimal d) = .decimal r ∧ (Representable x → r.value = ⌊x⌋) ∧
      (r.value = ⌊x⌋ ∨ r.value = ⌊x⌋ + 1) ∧
      (r.value = ⌊x⌋ + 1 ↔ ¬Representable x ∧ ⌊x⌋ + 1 ≤ y ∧ |y| < 2 ^ 96) := by
  intro x y
  refine ⟨d.round, rfl, value_round_of_representable lawful_library, ?_⟩
  by_cases hx : Representable x
  · have hfloor : d.round.value = ⌊x⌋ := value_round_of_representable lawful_library hx
    refine ⟨Or.inl hfloor, iff_of_false ?_ fun h => h.1 hx⟩
    rw [hfloor]
    simp
  · rcases Nat.exists_eq_succ_of_ne_zero (show max d.scale 1 ≠ 0 by omega) with ⟨k, hk⟩
    have hunit : (1 - (max d.scale 1 : ℕ) : ℤ) = -(k : ℤ) := by
      rw [hk]
      push_cast
      omega
    have hy : y = Rounding.halfEven.toMultiple (10 ^ (-(k : ℤ))) x := by
      rw [← hunit]
    rw [hy]
    have hround := value_round_of_not_representable lawful_library hk hx
    exact ⟨hround.1, hround.2.trans (and_iff_right hx).symm⟩

/-- Five halves below zero. -/
theorem round_nearest_halves :
    let d : Decimal := ⟨true, 25, 1, by decide, by decide⟩
    Representable (d.value + 1 / 2) ∧
      ∃ r, Number.round (.decimal d) = .decimal r ∧ r.value = -2 := by
  intro d
  have hvalue : d.value = -5 / 2 := by
    norm_num [d, Decimal.value, Decimal.signed]
  have hrepresentable : Representable (d.value + 1 / 2) := by
    rw [hvalue]
    exact ⟨⟨true, 2, 0, by decide, by decide⟩, by norm_num [Decimal.value, Decimal.signed]⟩
  rcases round_nearest d with ⟨r, hr, hexact, _⟩
  refine ⟨hrepresentable, r, hr, ?_⟩
  have hfloor : ⌊(-5 / 2 + 1 / 2 : ℚ)⌋ = -2 := by
    rw [Int.floor_eq_iff]
    norm_num
  rw [hexact hrepresentable, hvalue, hfloor]
  norm_num

/-- A number of twenty-nine digits, a tenth above a whole number, which is taken for the next
one. -/
theorem round_tenth_up :
    let d : Decimal := ⟨false, 79228162514264337593543950331, 1, by decide, by decide⟩
    let nearest : Decimal := ⟨false, 7922816251426433759354395033, 0, by decide, by decide⟩
    nearest.value = ⌊d.value + 1 / 2⌋ ∧
      ∃ r, Number.round (.decimal d) = .decimal r ∧ r.value = nearest.value + 1 := by
  intro d nearest
  have hround : d.round = ⟨false, 7922816251426433759354395034, 0, by decide, by decide⟩ := by
    decide +kernel
  have hfloor : ⌊d.value + 1 / 2⌋ = 7922816251426433759354395033 := by
    rw [Int.floor_eq_iff]
    norm_num [d, Decimal.value, Decimal.signed]
  refine ⟨?_, d.round, rfl, ?_⟩
  · rw [hfloor]
    norm_num [nearest, Decimal.value, Decimal.signed]
  · rw [hround]
    norm_num [nearest, Decimal.value, Decimal.signed]

end Number
end TreeQuery
