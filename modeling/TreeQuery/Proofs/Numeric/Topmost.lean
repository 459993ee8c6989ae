import TreeQuery.Proofs.Numeric.Spelling
import TreeQuery.Proofs.Numeric.Twice

/-!
# The top of the range

The largest decimal has twenty-nine digits and a context keeps at most
twenty-eight, so that rounding may lead out of the range.  The largest decimal
with the digits of the context decides: every literal up to there is read, and
of those beyond only the ones that are rounded back to it.
-/

namespace TreeQuery

-- Powers are those of the core library, whatever else is in scope.
attribute [local instance (high)] instPowNat

namespace Decimal

/-- The largest decimal of no more than so many significant digits. -/
def topmost (digits : ℕ) : ℕ :=
  (2 ^ (96 : ℕ) - 1) / 10 ^ (29 - digits) * 10 ^ (29 - digits)

variable {digits : ℕ} {x : ℚ} {e : ℤ}

/-!
# Its neighbours
-/

theorem topmost_lt (digits : ℕ) : topmost digits < 2 ^ (96 : ℕ) :=
  Nat.lt_of_le_of_lt (Nat.div_mul_le_self ..) (by decide)

theorem le_topmost_add (digits : ℕ) : 2 ^ (96 : ℕ) ≤ topmost digits + 10 ^ (29 - digits) := by
  have hpow : 0 < 10 ^ (29 - digits) := Nat.pow_pos (by decide)
  have hlt := Nat.lt_div_mul_add (a := 2 ^ (96 : ℕ) - 1) hpow
  unfold topmost
  omega

theorem pow_le_topmost (hdigits : 1 ≤ digits) : 10 ^ (28 : ℕ) ≤ topmost digits := by
  have hsplit : 10 ^ (28 : ℕ) = 10 ^ (28 - (29 - digits)) * 10 ^ (29 - digits) := by
    rw [← Nat.pow_add, Nat.sub_add_cancel (by omega)]
  have hcount : 10 ^ (28 - (29 - digits)) ≤ (2 ^ (96 : ℕ) - 1) / 10 ^ (29 - digits) := by
    rw [Nat.le_div_iff_mul_le (Nat.pow_pos (by decide)), ← hsplit]
    decide
  rw [hsplit]
  exact Nat.mul_le_mul_right _ hcount

theorem le_topmost {n zeros : ℕ} (hdigits : 1 ≤ digits) (hn : n < 10 ^ digits)
    (hfits : n * 10 ^ zeros < 2 ^ (96 : ℕ)) : n * 10 ^ zeros ≤ topmost digits := by
  rcases Nat.lt_or_ge zeros (29 - digits) with hfew | hmany
  · have hpow : n * 10 ^ zeros < 10 ^ (digits + zeros) := by
      rw [Nat.pow_add]
      exact Nat.mul_lt_mul_of_pos_right hn (Nat.pow_pos (by decide))
    have hle : 10 ^ (digits + zeros) ≤ 10 ^ (28 : ℕ) :=
      Nat.pow_le_pow_right (by decide) (by omega)
    exact Nat.le_of_lt (Nat.lt_of_lt_of_le hpow (Nat.le_trans hle (pow_le_topmost hdigits)))
  · have hdvd : 10 ^ (29 - digits) ∣ n * 10 ^ zeros :=
      Nat.dvd_trans (Nat.pow_dvd_pow 10 hmany) (Nat.dvd_mul_left ..)
    have hle : n * 10 ^ zeros ≤ 2 ^ (96 : ℕ) - 1 := Nat.le_sub_one_of_lt hfits
    calc n * 10 ^ zeros = n * 10 ^ zeros / 10 ^ (29 - digits) * 10 ^ (29 - digits) :=
          (Nat.div_mul_cancel hdvd).symm
      _ ≤ topmost digits := Nat.mul_le_mul_right _ (Nat.div_le_div_right hle)

theorem cast_topmost (digits : ℕ) :
    (topmost digits : ℚ) =
      ((2 ^ (96 : ℕ) - 1) / 10 ^ (29 - digits) : ℕ) * 10 ^ ((29 - digits : ℕ) : ℤ) := by
  rw [topmost, zpow_natCast, Nat.cast_mul, Nat.cast_pow, Nat.cast_ofNat]

/-!
# Rounding below and above it
-/

theorem log_lt (hx : |x| < 10 ^ e) (he : 0 < e) : Int.log 10 |x| < e := by
  rcases (abs_nonneg x).eq_or_lt with hzero | hpos
  · rw [← hzero, Int.log_zero_right]
    exact he
  · exact (Int.lt_zpow_iff_log_lt (b := 10) (by norm_num) hpos).mp (by exact_mod_cast hx)

theorem abs_toMultiple_le_topmost (mode : Rounding) (he : e ≤ (29 - digits : ℕ))
    (hx : |x| ≤ topmost digits) : |mode.toMultiple (10 ^ e) x| ≤ topmost digits := by
  rcases exists_mul_zpow he with ⟨m, _, hm⟩
  have hmul : (topmost digits : ℚ) =
      (((2 ^ (96 : ℕ) - 1) / 10 ^ (29 - digits) : ℕ) * m : ℤ) * 10 ^ e := by
    rw [cast_topmost, hm, Int.cast_mul, Int.cast_natCast, mul_assoc]
  rw [hmul] at hx ⊢
  have hzero : ((0 : ℤ) : ℚ) * 10 ^ e ≤ |x| := by
    rw [Int.cast_zero, zero_mul]
    exact abs_nonneg x
  exact (Rounding.abs_toMultiple_mem mode (zpow_pos_ten e) le_rfl hzero hx).2

theorem le_abs_toMultiple_of_topmost_lt {mode : Rounding}
    (h : topmost digits < |mode.toMultiple (10 ^ ((29 - digits : ℕ) : ℤ)) x|) :
    2 ^ 96 ≤ |mode.toMultiple (10 ^ ((29 - digits : ℕ) : ℤ)) x| := by
  have hpos := zpow_pos_ten ((29 - digits : ℕ) : ℤ)
  have hbeyond : (2 : ℚ) ^ 96 ≤ topmost digits + 10 ^ ((29 - digits : ℕ) : ℤ) := by
    rw [zpow_natCast]
    exact_mod_cast le_topmost_add digits
  unfold Rounding.toMultiple at h ⊢
  rw [abs_mul, abs_of_pos hpos] at h ⊢
  rw [cast_topmost] at h hbeyond
  generalize mode.whole (x / 10 ^ ((29 - digits : ℕ) : ℤ)) = k at h ⊢
  generalize (2 ^ (96 : ℕ) - 1) / 10 ^ (29 - digits) = j at h hbeyond
  have hcount : (j : ℚ) < |(k : ℚ)| := lt_of_mul_lt_mul_right h hpos.le
  have hsucc : (j : ℚ) + 1 ≤ |(k : ℚ)| := by
    have hint : (j : ℤ) < |k| := by exact_mod_cast hcount
    exact_mod_cast Int.add_one_le_of_lt hint
  have hmul := mul_le_mul_of_nonneg_right hsucc hpos.le
  linarith

theorem le_abs_toMultiple (mode : Rounding) {k : ℤ} (hx : 10 ^ k ≤ |x|)
    (he : e ≤ Int.log 10 |x|) : 10 ^ k ≤ |mode.toMultiple (10 ^ e) x| := by
  have hpos : 0 < |x| := lt_of_lt_of_le (zpow_pos_ten k) hx
  exact le_trans ((zpow_le_zpow_iff_right₀ (by norm_num)).mpr (le_log hx))
    (abs_toMultiple_digits mode (abs_pos.mp hpos) he).1

/-- Whether a number is in range after it was rounded shows at twenty-nine digits. -/
theorem le_abs_toMultiple_iff (mode : Rounding) (hpos : 1 ≤ digits) (hmax : digits ≤ 28)
    (hfine : Int.log 10 |x| + 1 - digits ≤ e)
    (hcoarse : e ≤ max (Int.log 10 |x| + 1 - digits) (-28)) :
    2 ^ 96 ≤ |mode.toMultiple (10 ^ e) x| ↔
      topmost digits < |mode.toMultiple (10 ^ ((29 - digits : ℕ) : ℤ)) x| := by
  have htop : (topmost digits : ℚ) < 2 ^ 96 := by exact_mod_cast topmost_lt digits
  rcases lt_or_ge |x| (10 ^ (29 : ℤ)) with hbelow | hbeyond
  · have hlog : Int.log 10 |x| < 29 := log_lt hbelow (by decide)
    rcases le_or_gt |x| (topmost digits) with hlow | hhigh
    · have he : e ≤ (29 - digits : ℕ) := by omega
      have hunit := abs_toMultiple_le_topmost mode he hlow
      have htopUnit := abs_toMultiple_le_topmost mode le_rfl hlow
      exact iff_of_false (by linarith) (by linarith)
    · -- Only here, with twenty-nine digits, can rounding lead out of the range.
      have hlog' : 28 ≤ Int.log 10 |x| := by
        have hpow : (10 : ℚ) ^ (28 : ℤ) ≤ topmost digits := by
          exact_mod_cast pow_le_topmost hpos
        exact le_log (le_trans hpow hhigh.le)
      have he : e = (29 - digits : ℕ) := by omega
      rw [he]
      exact ⟨lt_of_lt_of_le htop, le_abs_toMultiple_of_topmost_lt⟩
  · have hlog : 29 ≤ Int.log 10 |x| := le_log hbeyond
    have hpow : (2 : ℚ) ^ 96 < 10 ^ (29 : ℤ) := by norm_num
    have hunit := le_abs_toMultiple mode (e := e) hbeyond (by omega)
    have htopUnit := le_abs_toMultiple mode (e := (29 - digits : ℕ)) hbeyond (by omega)
    exact iff_of_true (by linarith) (by linarith)

end Decimal

namespace Literal

open Decimal

theorem unit_eq_zpow (l : Literal) (context : DecimalContext) :
    l.unit context =
      10 ^ max (Int.log 10 |l.value| + 1 - context.significantDigits) (-28) := by
  have hmono : Monotone fun k : ℤ => (10 : ℚ) ^ k := zpow_right_mono₀ (by norm_num)
  rw [unit, digitUnit, ← hmono.map_max]

/-!
# The whole part
-/

theorem abs_value_lt_read {l : Literal} {text : List Char} (h : l.Spells text) :
    |l.value| < Digits.read l.whole + 1 := by
  have hdigits : ∀ c ∈ l.fraction, isDigit c = true := by
    cases h with
    | digits _ _ => exact List.forall_mem_nil _
    | pointed _ _ hfraction => exact hfraction
    | fraction hfraction _ => exact hfraction
  have hfraction : (Digits.read l.fraction : ℚ) / 10 ^ l.fraction.length < 1 := by
    rw [div_lt_one (by positivity)]
    exact_mod_cast Digits.read_lt hdigits
  rw [value, abs_mul, abs_sign, one_mul, abs_of_nonneg (by positivity)]
  linarith

end Literal

namespace Number

open Decimal

variable {text : String} {context : DecimalContext} {l : Literal}

theorem parse_eq_outOfRange_iff (h : l.Spells (Blank.trim text.toList)) :
    parse text ⟨.decimal, context⟩ =
        .error (.outOfRange (String.ofList (Blank.trim text.toList))) ↔
      topmost context.significantDigits < |context.rounding.toMultiple
        (10 ^ ((29 - context.significantDigits : ℕ) : ℤ)) l.value| := by
  have hunit := le_abs_toMultiple_iff context.rounding context.significantDigits_pos
    context.significantDigits_le (le_max_left (Int.log 10 |l.value| + 1 - _) (-28)) le_rfl
  rw [← hunit, ← l.unit_eq_zpow]
  rcases parse_cases h with ⟨d, hd, _, hlt⟩ | ⟨hd, hle⟩
  · rw [hd]
    exact iff_of_false nofun (not_le.mpr hlt)
  · exact iff_of_true hd hle

theorem exists_decimal_of_ne_outOfRange (h : l.Spells (Blank.trim text.toList))
    (hrange : parse text ⟨.decimal, context⟩ ≠
      .error (.outOfRange (String.ofList (Blank.trim text.toList)))) :
    ∃ d, parse text ⟨.decimal, context⟩ = .ok (.decimal d) := by
  rcases parse_cases h with ⟨d, hd, _⟩ | ⟨hd, _⟩
  · exact ⟨d, hd⟩
  · exact absurd hd hrange

theorem abs_value_lt_rounded {digits : ℕ} {mode : Rounding} {text : List Char} (h : l.Spells text)
    (hwhole : Digits.read l.whole < 2 ^ (96 : ℕ))
    (hout : topmost digits < |mode.toMultiple (10 ^ ((29 - digits : ℕ) : ℤ)) l.value|) :
    |l.value| < |mode.toMultiple (10 ^ ((29 - digits : ℕ) : ℤ)) l.value| := by
  -- A whole part in range goes out of range only if the literal is rounded away from zero.
  have hsucc : (Digits.read l.whole : ℚ) + 1 ≤ 2 ^ 96 := by exact_mod_cast hwhole
  calc |l.value| < Digits.read l.whole + 1 := Literal.abs_value_lt_read h
    _ ≤ 2 ^ 96 := hsucc
    _ ≤ |mode.toMultiple (10 ^ ((29 - digits : ℕ) : ℤ)) l.value| :=
      le_abs_toMultiple_of_topmost_lt hout

/-- Up to the largest decimal with the digits of the context every literal is read.  Beyond there
the rounded literal decides, and a whole part in range is no help to a literal that is rounded
away from zero. -/
theorem parse_outOfRange_iff (context : DecimalContext) (h : l.Spells (Blank.trim text.toList)) :
    let top : ℚ := topmost context.significantDigits
    let rounded :=
      |context.rounding.toMultiple (10 ^ (29 - context.significantDigits)) l.value|
    let outOfRange := Except.error (.outOfRange (String.ofList (Blank.trim text.toList)))
    (parse text ⟨.decimal, context⟩ = outOfRange ↔ top < rounded) ∧
      (rounded ≤ top → ∃ d, parse text ⟨.decimal, context⟩ = .ok (.decimal d)) ∧
      (|l.value| ≤ top → ∃ d, parse text ⟨.decimal, context⟩ = .ok (.decimal d)) ∧
      (parse text ⟨.decimal, context⟩ = outOfRange → Digits.read l.whole < 2 ^ (96 : ℕ) →
        top < |l.value| ∧ |l.value| < rounded) := by
  intro top rounded outOfRange
  have hrounded : rounded = |context.rounding.toMultiple
      (10 ^ ((29 - context.significantDigits : ℕ) : ℤ)) l.value| := by
    rw [zpow_natCast]
  rw [hrounded]
  have hrange := @parse_eq_outOfRange_iff text context l h
  have hbelow := abs_toMultiple_le_topmost context.rounding (x := l.value)
    (le_refl ((29 - context.significantDigits : ℕ) : ℤ))
  refine ⟨hrange, ?_, ?_, ?_⟩
  · intro hle
    exact exists_decimal_of_ne_outOfRange h fun hout => absurd (hrange.mp hout) (not_lt.mpr hle)
  · intro hle
    apply exists_decimal_of_ne_outOfRange h
    exact fun hout => absurd (hrange.mp hout) (not_lt.mpr (hbelow hle))
  · intro hout hwhole
    have hlt := hrange.mp hout
    exact ⟨not_le.mp fun hle => absurd (hbelow hle) (not_le.mpr hlt),
      abs_value_lt_rounded h hwhole hlt⟩

/-- The smallest decimal is beyond the last one of twenty-eight digits.  With halves toward zero it
is rounded back, and with halves to the even digit it is not. -/
theorem parse_smallest :
    let text := "-79228162514264337593543950335"
    let l : Literal := ⟨true, "79228162514264337593543950335".toList, []⟩
    l.Spells (Blank.trim text.toList) ∧ topmost 28 < |l.value| ∧
      Digits.read l.whole < 2 ^ (96 : ℕ) ∧
      (∃ d, parse text ⟨.decimal, ⟨28, .halfDown⟩⟩ = .ok (.decimal d)) ∧
      parse text ⟨.decimal, ⟨28, .halfEven⟩⟩ = .error (.outOfRange text) ∧
      |l.value| < |Rounding.halfEven.toMultiple 10 l.value| := by
  intro text l
  have hspells : l.Spells (Blank.trim text.toList) := by
    apply Literal.read?_eq_some_iff.mp
    decide +kernel
  have hwhole : Digits.read l.whole < 2 ^ (96 : ℕ) := by decide +kernel
  have htrim : String.ofList (Blank.trim text.toList) = text := by decide +kernel
  have hnone : l.toDecimal? ⟨28, .halfEven⟩ = none := by decide +kernel
  have hout : parse text ⟨.decimal, ⟨28, .halfEven⟩⟩ =
      .error (.outOfRange (String.ofList (Blank.trim text.toList))) := by
    rw [parse_of_spells hspells, hnone]
  have hdown : |Rounding.halfDown.toMultiple (10 ^ (29 - 28)) l.value| ≤ topmost 28 := by
    have hkept : Rounding.halfDown.quotient true l.coefficient (10 ^ (1 : ℕ)) =
        7922816251426433759354395033 := by decide +kernel
    have hround := toMultiple_sign_mul .halfDown true l.coefficient 0 1
    rw [Int.toNat_one, hkept] at hround
    have hvalue : l.value = sign true * (l.coefficient / 10 ^ 0) := l.value_eq
    have hunit : (10 : ℚ) ^ (29 - 28) = 10 ^ (1 - (0 : ℕ) : ℤ) := by norm_num
    have htop : (topmost 28 : ℚ) = 79228162514264337593543950330 := by
      exact_mod_cast (by decide +kernel : topmost 28 = 79228162514264337593543950330)
    rw [hvalue, hunit, hround, htop]
    norm_num [sign]
  have heven := (parse_outOfRange_iff ⟨28, .halfEven⟩ hspells).2.2.2 hout hwhole
  have hread := (parse_outOfRange_iff ⟨28, .halfDown⟩ hspells).2.1 hdown
  rw [htrim] at hout
  exact ⟨hspells, heven.1, hwhole, hread, hout, heven.2⟩

/-- The largest decimal as a literal: its whole part is in range and it is rejected. -/
theorem parse_largest :
    let text := "79228162514264337593543950335"
    let l : Literal := ⟨false, text.toList, []⟩
    l.Spells (Blank.trim text.toList) ∧ Digits.read l.whole = 2 ^ (96 : ℕ) - 1 ∧
      parse text .standard = .error (.outOfRange text) := by
  intro text l
  have hspells : l.Spells (Blank.trim text.toList) := by
    apply Literal.read?_eq_some_iff.mp
    decide +kernel
  have hnone : l.toDecimal? .decimal = none := by decide +kernel
  have htrim : String.ofList (Blank.trim text.toList) = text := by decide +kernel
  refine ⟨hspells, by decide +kernel, ?_⟩
  rw [Arithmetic.standard, parse_of_spells hspells, hnone, htrim]

end Number
end TreeQuery
