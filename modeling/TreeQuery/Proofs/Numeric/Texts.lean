import TreeQuery.Proofs.Numeric.Library
import TreeQuery.Proofs.Numeric.Precision
import TreeQuery.Expression.Value

/-!
# The text of a decimal

The text of a decimal is a literal with the value of the decimal.  So reading it
under a context rounds to the same number as the context itself, and reading it
under a context that keeps its digits gives the number back.  Decimals of the
same text have the same value.
-/

namespace TreeQuery

-- Powers are those of the core library, whatever else is in scope.
attribute [local instance (high)] instPowNat

namespace Decimal

variable {a b d : Decimal}

/-!
# The literal of a text
-/

theorem value_literal (d : Decimal) : d.literal.value = d.value := by
  have hlength : d.literal.fraction.length = d.scale := length_fractionText d
  rw [Literal.value_eq, coefficient_literal, hlength, value_eq]
  rfl

theorem value_normalize (d : Decimal) : d.normalize.value = d.value :=
  beq_iff_value.mp (normalize_beq d)

theorem spells_text (d : Decimal) : d.normalize.literal.Spells (Blank.trim d.text.toList) := by
  rw [trim_text]
  exact Literal.read?_eq_some_iff.mp d.read?_text

theorem text_eq_iff : a.text = b.text ↔ (a == b) = true := by
  constructor
  · intro h
    have hread : some a.normalize.literal = some b.normalize.literal := by
      rw [← read?_text, ← read?_text, h]
    rw [beq_iff_value, ← value_normalize a, ← value_normalize b, ← value_literal, ← value_literal,
      Option.some.inj hread]
  · exact text_congr

/-!
# Rounding a decimal to digits
-/

theorem toMultiple_max (mode : Rounding) (digits : ℕ) (d : Decimal) :
    mode.toMultiple (max (digitUnit digits d.value) (10 ^ (-28 : ℤ))) d.value =
      mode.toMultiple (digitUnit digits d.value) d.value := by
  -- A decimal is not finer than the last digit that it may have, so that a finer unit leaves it
  -- alone.
  rcases le_total (10 ^ (-28 : ℤ)) (digitUnit digits d.value) with hle | hle
  · rw [max_eq_left hle]
  · rw [max_eq_right hle]
    have hfine : Int.log 10 |d.value| + 1 - digits ≤ -28 :=
      (zpow_le_zpow_iff_right₀ (by norm_num)).mp hle
    rcases exists_mul_zpow hfine with ⟨m, _, hm⟩
    rcases Representable.exists_mul ⟨d, rfl⟩ with ⟨k, hk⟩
    have hk' : d.value = (k * m : ℤ) * digitUnit digits d.value := by
      rw [digitUnit, Int.cast_mul, mul_assoc, ← hm]
      exact hk
    have hunit : mode.toMultiple (10 ^ (-28 : ℤ)) d.value = d.value := by
      have hmul := Rounding.toMultiple_mul mode (zpow_pos_ten (-28)) k
      have hvalue : d.value = k * 10 ^ (-28 : ℤ) := hk
      rw [← hvalue] at hmul
      exact hmul
    have hdigits : mode.toMultiple (digitUnit digits d.value) d.value = d.value := by
      have hmul := Rounding.toMultiple_mul mode (digitUnit_pos digits d.value) (k * m)
      rw [← hk'] at hmul
      exact hmul
    rw [hunit, hdigits]

theorem unit_literal (context : DecimalContext) (d : Decimal) :
    d.normalize.literal.unit context =
      max (digitUnit context.significantDigits d.value) (10 ^ (-28 : ℤ)) := by
  rw [Literal.unit, value_literal, value_normalize]

end Decimal

namespace DecimalContext

open Decimal

/-- What was rounded to the digits of a context is not rounded again. -/
theorem round_round {context : DecimalContext} (hprecision : context.precision ≠ 0) (d : Decimal) :
    (context.round (context.round d) == context.round d) = true := by
  rcases value_round hprecision d with ⟨hvalue, _⟩ | ⟨hleft, _⟩
  · rcases value_round hprecision (context.round d) with ⟨hagain, _⟩ | ⟨hleft, _⟩
    · rw [beq_iff_value, hagain, hvalue]
      rcases eq_or_ne d.value 0 with hzero | hne
      · rw [hzero, Rounding.toMultiple_zero, Rounding.toMultiple_zero]
      · exact toMultiple_toMultiple context.rounding context.significantDigits_pos hne
    · rw [hleft]
      exact beq_refl _
  · rw [hleft, hleft]
    exact beq_refl d

end DecimalContext

namespace Number

open Decimal

variable {context : DecimalContext} {d : Decimal}

/-!
# Reading a text
-/

theorem parse_text_cases (hprecision : context.precision ≠ 0) (d : Decimal) :
    let y := context.rounding.toMultiple (digitUnit context.significantDigits d.value) d.value
    (∃ e, parse (text (.decimal d)) ⟨.decimal, context⟩ = .ok (.decimal e) ∧ e.value = y ∧
        (context.round d).value = y) ∨
      parse (text (.decimal d)) ⟨.decimal, context⟩ = .error (.outOfRange (text (.decimal d))) ∧
        context.round d = d ∧ ¬Representable y := by
  intro y
  have hy : context.rounding.toMultiple (d.normalize.literal.unit context)
      d.normalize.literal.value = y := by
    rw [unit_literal, value_literal, value_normalize, toMultiple_max]
  have htrim : String.ofList (Blank.trim (text (.decimal d)).toList) = text (.decimal d) := by
    show String.ofList (Blank.trim d.text.toList) = d.text
    rw [trim_text, String.ofList_toList]
  have hread := @parse_cases (text (.decimal d)) context _ d.spells_text
  dsimp only at hread
  rw [hy, htrim] at hread
  rcases hread with ⟨e, he, hvalue, hlt⟩ | ⟨hout, hle⟩
  · rcases value_round hprecision d with ⟨hround, _⟩ | ⟨_, hle⟩
    · exact Or.inl ⟨e, he, hvalue, hround⟩
    · exact absurd hlt (not_lt.mpr hle)
  · rcases value_round hprecision d with ⟨_, hlt, _⟩ | ⟨hleft, _⟩
    · exact absurd hlt (not_lt.mpr hle)
    · refine Or.inr ⟨hout, hleft, ?_⟩
      rintro ⟨e, he⟩
      exact absurd (abs_value_lt e) (not_lt.mpr (he ▸ hle))

/-- The text of a decimal is read as what the context rounds the decimal to, wherever that is a
decimal.  Rounding to a context twice is rounding once. -/
theorem parse_text_rounds (context : DecimalContext) (hprecision : 1 ≤ context.precision)
    (d : Decimal) :
    let y := context.rounding.toMultiple (digitUnit (min context.precision 28) d.value) d.value
    (Representable y →
      ∃ e, parse (text (.decimal d)) ⟨.decimal, context⟩ = .ok (.decimal e) ∧
        (e == context.round d) = true ∧ (context.round d).value = y) ∧
      (¬Representable y →
        parse (text (.decimal d)) ⟨.decimal, context⟩ = .error (.outOfRange (text (.decimal d))) ∧
          context.round d = d) ∧
      (context.round (context.round d) == context.round d) = true := by
  intro y
  have hne : context.precision ≠ 0 := Nat.ne_of_gt hprecision
  have hcases := parse_text_cases hne d
  rw [DecimalContext.significantDigits_eq hprecision] at hcases
  refine ⟨fun hy => ?_, fun hy => ?_, DecimalContext.round_round hne d⟩
  · rcases hcases with ⟨e, he, hvalue, hround⟩ | ⟨_, _, hnone⟩
    · exact ⟨e, he, beq_iff_value.mpr (hvalue.trans hround.symm), hround⟩
    · exact absurd hy hnone
  · rcases hcases with ⟨_, _, _, hround⟩ | ⟨hout, hleft, _⟩
    · exact absurd ⟨_, hround⟩ hy
    · exact ⟨hout, hleft⟩

/-- A number below zero that is cut within its whole part. -/
theorem parse_text_rounds_whole :
    let d : Decimal := ⟨true, 12345600, 3, by decide, by decide⟩
    let context : DecimalContext := ⟨3, .floor⟩
    let y := context.rounding.toMultiple (digitUnit (min context.precision 28) d.value) d.value
    1 ≤ context.precision ∧ Representable y ∧
      ∃ e, parse (text (.decimal d)) ⟨.decimal, context⟩ = .ok (.decimal e) ∧
        (e == context.round d) = true ∧ e.value = -12400 := by
  intro d context y
  have hvalue : d.value = -123456 / 10 := by
    norm_num [d, Decimal.value, Decimal.signed]
  have hunit : digitUnit (min context.precision 28) d.value = 100 := by
    have hlow : (10 : ℚ) ^ (4 : ℤ) ≤ |-123456 / 10| := by norm_num [abs_div]
    have hhigh : |-123456 / 10| < (10 : ℚ) ^ (4 + 1 : ℤ) := by norm_num [abs_div]
    rw [hvalue, digitUnit_eq _ hlow hhigh]
    norm_num [context]
  have hy : y = -12400 := by
    have hfloor : ⌊(-123456 / 10 / 100 : ℚ)⌋ = -124 := by
      rw [Int.floor_eq_iff]
      norm_num
    show (⌊d.value / digitUnit (min context.precision 28) d.value⌋ : ℚ) * _ = _
    rw [hunit, hvalue, hfloor]
    norm_num
  have hrepresentable : Representable y := by
    rw [hy]
    exact ⟨⟨true, 12400, 0, by decide, by decide⟩, by norm_num [Decimal.value, Decimal.signed]⟩
  rcases (parse_text_rounds context (by decide) d).1 hrepresentable with ⟨e, he, hsame, hround⟩
  refine ⟨by decide, hrepresentable, e, he, hsame, ?_⟩
  rw [beq_iff_value.mp hsame, hround]
  exact hy

/-!
# Digits that are kept
-/

theorem parse_surrounded (h : context.Keeps d.coefficient) {left right : List Char}
    (hblank : ∀ c ∈ left ++ right, Blank.isBlank c = true) :
    parse (String.ofList (left ++ (text (.decimal d)).toList ++ right)) ⟨.decimal, context⟩ =
      .ok (.decimal d.normalize) := by
  apply parse_of_trim h
  rw [String.toList_ofList]
  exact Blank.trim_surrounded (fun c hc => hblank c (List.mem_append_left right hc))
    (fun c hc => hblank c (List.mem_append_right left hc)) (fun _ => not_blank_of_mem_text)
    d.text_ne_nil

/-- A decimal whose digits the context keeps is read back from its text, also with blanks around it
and as a value.  Decimals have the same text exactly when they are equal. -/
theorem text_faithful (context : DecimalContext) :
    (∀ d : Decimal, d.digitCount ≤ context.significantDigits →
      (∃ e, parse (text (.decimal d)) ⟨.decimal, context⟩ = .ok (.decimal e) ∧ (e == d) = true) ∧
      ∀ left right : List Char, (∀ c ∈ left ++ right, Blank.isBlank c = true) →
        ∃ e, (Value.text (String.ofList
            (left ++ (Value.number (.decimal d)).toText.toList ++ right))).toNumber
              ⟨.decimal, context⟩ = .ok (.decimal e) ∧ (e == d) = true) ∧
    ∀ a b : Decimal, text (.decimal a) = text (.decimal b) ↔ (a == b) = true := by
  refine ⟨fun d hdigits => ?_, fun _ _ => text_eq_iff⟩
  have hkept : context.Keeps d.coefficient := Digits.significant_le_iff.mp hdigits
  refine ⟨⟨d.normalize, parse_text hkept, normalize_beq d⟩, ?_⟩
  intro left right hblank
  refine ⟨d.normalize, ?_, normalize_beq d⟩
  have hparse := parse_surrounded (d := d) hkept hblank
  unfold Value.toNumber Value.toText
  dsimp only
  rw [hparse]

/-- A number with a run of zeros to both sides of the point, between blanks. -/
theorem text_faithful_zeros :
    let d : Decimal := ⟨true, 1200000, 3, by decide, by decide⟩
    let context : DecimalContext := ⟨2, .up⟩
    d.digitCount ≤ context.significantDigits ∧
      (∃ e, parse (text (.decimal d)) ⟨.decimal, context⟩ = .ok (.decimal e) ∧ (e == d) = true) ∧
      (∀ c ∈ [' '] ++ ['\t'], Blank.isBlank c = true) ∧
      ∃ e, (Value.text (String.ofList
          ([' '] ++ (Value.number (.decimal d)).toText.toList ++ ['\t']))).toNumber
            ⟨.decimal, context⟩ = .ok (.decimal e) ∧ (e == d) = true := by
  intro d context
  have hdigits : d.digitCount ≤ context.significantDigits := by decide +kernel
  have hblank : ∀ c ∈ [' '] ++ ['\t'], Blank.isBlank c = true := by
    intro c hc
    rcases List.mem_pair.mp hc with rfl | rfl
    · decide
    · decide
  have hfaithful := (text_faithful context).1 d hdigits
  exact ⟨hdigits, hfaithful.1, hblank, hfaithful.2 [' '] ['\t'] hblank⟩

end Number
end TreeQuery
