import TreeQuery.Proofs.Numeric.Written
import TreeQuery.Proofs.Parser.Scanning

/-!
# Literals that were read

Reading a literal rounds it, so the context keeps whatever a literal gives.  A
literal of the grammar has no sign, and neither has its number.
-/

namespace TreeQuery

-- Powers are those of the core library, whatever else is in scope.
attribute [local instance (high)] instPowNat

/-!
# Rounded coefficients
-/

namespace DecimalContext

variable {context : DecimalContext}

theorem quotient_le_pow (negative : Bool) {n dropped : Nat}
    (h : Digits.count n ≤ context.significantDigits + dropped) :
    context.rounding.quotient negative n (10 ^ dropped) ≤ 10 ^ context.significantDigits := by
  have hlt : n / 10 ^ dropped < 10 ^ context.significantDigits := by
    apply (Nat.div_lt_iff_lt_mul (Nat.pow_pos (by decide))).mpr
    rw [← Nat.pow_add]
    exact Nat.lt_of_lt_of_le (Digits.lt_pow_count n) (Nat.pow_le_pow_right (by decide) h)
  exact Nat.le_trans (context.rounding.quotient_le_succ negative n (10 ^ dropped)) hlt

/-- Cut to the digits that a context asks for, a coefficient is kept, even if rounding gave it one
digit more. -/
theorem keeps_quotient (negative : Bool) {n dropped : Nat}
    (h : Digits.count n ≤ context.significantDigits + dropped) :
    context.Keeps (context.rounding.quotient negative n (10 ^ dropped)) := by
  have hpos := context.significantDigits_pos
  have hle := quotient_le_pow negative h
  rcases Nat.lt_or_ge (context.rounding.quotient negative n (10 ^ dropped))
      (10 ^ context.significantDigits) with hkept | hcarried
  · exact ⟨_, 0, hkept, (Nat.mul_one _).symm⟩
  · refine ⟨1, context.significantDigits, Nat.one_lt_pow (by omega) (by decide), ?_⟩
    omega

theorem Keeps.mul_pow {coefficient : Nat} (h : context.Keeps coefficient) (zeros : Nat) :
    context.Keeps (coefficient * 10 ^ zeros) := by
  rcases h with ⟨digits, more, hdigits, rfl⟩
  refine ⟨digits, more + zeros, hdigits, ?_⟩
  rw [Nat.mul_assoc, Nat.pow_add]

end DecimalContext

namespace Literal

variable {l : Literal} {context : DecimalContext} {d : Decimal}

theorem count_le_excess (l : Literal) (context : DecimalContext) :
    Digits.count l.coefficient ≤ context.significantDigits + l.excess context := by
  unfold excess
  omega

theorem keeps_toDecimal? (hl : ∀ c ∈ l.whole ++ l.fraction, isDigit c = true)
    (h : l.toDecimal? context = some d) : context.Keeps d.coefficient := by
  have hkept := DecimalContext.keeps_quotient l.negative (l.count_le_excess context)
  rw [toDecimal?_eq_quotient? hl, quotient?] at h
  split at h
  · cases h
    exact ⟨0, 0, Nat.pow_pos (by decide), rfl⟩
  · rcases Decimal.ofParts?_eq_some_iff.mp h with ⟨_, hcoefficient, _⟩
    rw [hcoefficient]
    exact hkept.mul_pow _

theorem signed_toDecimal?_nonneg (hl : ∀ c ∈ l.whole ++ l.fraction, isDigit c = true)
    (hsign : l.negative = false) (h : l.toDecimal? context = some d) : 0 ≤ d.signed := by
  have hnegative : d.negative = false := by
    rw [toDecimal?_eq_quotient? hl, quotient?] at h
    split at h
    · cases h
      rfl
    · exact (Decimal.ofParts?_eq_some_iff.mp h).1.trans hsign
  rw [Decimal.signed, hnegative]
  exact Int.natCast_nonneg _

theorem negative_of_unsigned? {chars : List Char} {negative : Bool}
    (h : unsigned? negative chars = some l) : l.negative = negative := by
  unfold unsigned? at h
  dsimp only at h
  split at h
  · cases h
    rfl
  · cases h

end Literal

namespace Number

theorem trim_number {chars : List Char} (h : Lexeme.IsNumber chars) : Blank.trim chars = chars := by
  apply trim_of_not_blank
  intro c hc
  rcases h.1 c hc with hdigit | rfl
  · exact not_blank_of_digit hdigit
  · decide

theorem read?_number {chars : List Char} (h : Lexeme.IsNumber chars) :
    Literal.read? chars = Literal.unsigned? false chars := by
  cases chars with
  | nil =>
      rcases h.2.2 with ⟨c, hc, _⟩
      cases hc
  | cons c rest => exact Literal.read?_of_unsigned (h.1 c List.mem_cons_self)

theorem parse_number {chars : List Char} {context : DecimalContext} {value : Number}
    (h : Lexeme.IsNumber chars)
    (hparse : parse (String.ofList chars) ⟨.decimal, context⟩ = .ok value) :
    ∃ d, value = .decimal d ∧ 0 ≤ d.signed ∧ context.Keeps d.coefficient := by
  unfold parse at hparse
  simp only [String.toList_ofList, trim_number h, read?_number h] at hparse
  cases hread : Literal.unsigned? false chars with
  | none =>
      rw [hread] at hparse
      cases hparse
  | some l =>
      rw [hread] at hparse
      cases hdecimal : l.toDecimal? context with
      | none =>
          simp only [hdecimal] at hparse
          cases hparse
      | some d =>
          simp only [hdecimal] at hparse
          cases hparse
          have hl := Literal.isDigit_of_unsigned? hread
          exact ⟨d, rfl,
            Literal.signed_toDecimal?_nonneg hl (Literal.negative_of_unsigned? hread) hdecimal,
            Literal.keeps_toDecimal? hl hdecimal⟩

end Number
end TreeQuery
