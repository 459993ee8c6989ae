import TreeQuery.Proofs.Numeric.Topmost

/-!
# The precision of results

A context keeps so many significant digits, and neither a literal nor the
result of an operation has more of them.  There is one gap.  A result that
cannot be rounded is left as it is, so that above the largest decimal with the
digits of the context a number may keep all twenty-nine.
-/

namespace TreeQuery

-- Powers are those of the core library, whatever else is in scope.
attribute [local instance (high)] instPowNat

/-!
# Significant digits
-/

namespace Digits

def significant (n : ℕ) : ℕ :=
  if n = 0 then 0 else if n % 10 = 0 then significant (n / 10) else count n

theorem significant_le_iff {n k : ℕ} :
    significant n ≤ k ↔ ∃ digits zeros : ℕ, digits < 10 ^ k ∧ n = digits * 10 ^ zeros := by
  fun_induction significant n with
  | case1 =>
      exact iff_of_true (Nat.zero_le k) ⟨0, 0, Nat.pow_pos (by decide), rfl⟩
  | case2 n hne hlast ih =>
      rw [ih]
      constructor
      · rintro ⟨digits, zeros, hdigits, hn⟩
        refine ⟨digits, zeros + 1, hdigits, ?_⟩
        rw [Nat.pow_succ, ← Nat.mul_assoc, ← hn]
        omega
      · rintro ⟨digits, zeros, hdigits, rfl⟩
        cases zeros with
        | zero =>
            refine ⟨digits / 10, 0, Nat.lt_of_le_of_lt (Nat.div_le_self ..) hdigits, ?_⟩
            rw [Nat.pow_zero, Nat.mul_one, Nat.mul_one]
        | succ zeros =>
            refine ⟨digits, zeros, hdigits, ?_⟩
            rw [Nat.pow_succ, ← Nat.mul_assoc, Nat.mul_div_cancel _ (by decide)]
  | case3 n hne hlast =>
      constructor
      · intro hle
        have hpow : n < 10 ^ k :=
          Nat.lt_of_lt_of_le (lt_pow_count n) (Nat.pow_le_pow_right (by decide) hle)
        exact ⟨n, 0, hpow, (Nat.mul_one n).symm⟩
      · rintro ⟨digits, zeros, hdigits, rfl⟩
        cases zeros with
        | zero =>
            rw [Nat.pow_zero, Nat.mul_one] at hne ⊢
            apply count_le _ hdigits
            by_contra hk
            rw [Nat.eq_zero_of_not_pos hk] at hdigits
            omega
        | succ zeros =>
            rw [Nat.pow_succ, ← Nat.mul_assoc] at hlast
            exact absurd (Nat.mul_mod_left ..) hlast

end Digits

namespace Decimal

/-- The number of significant digits, zeros at the end not counted. -/
def digitCount (d : Decimal) : ℕ :=
  Digits.significant d.coefficient

theorem isGreatest_topmost {digits : ℕ} (hdigits : 1 ≤ digits) :
    IsGreatest {n | n < 2 ^ (96 : ℕ) ∧ Digits.significant n ≤ digits} (topmost digits) := by
  constructor
  · have hpow : 10 ^ (29 : ℕ) ≤ 10 ^ (29 - digits) * 10 ^ digits := by
      rw [← Nat.pow_add]
      exact Nat.pow_le_pow_right (by decide) (by omega)
    have hfew : (2 ^ (96 : ℕ) - 1) / 10 ^ (29 - digits) < 10 ^ digits :=
      Nat.div_lt_of_lt_mul (Nat.lt_of_lt_of_le (by decide) hpow)
    exact ⟨topmost_lt digits, Digits.significant_le_iff.mpr ⟨_, _, hfew, rfl⟩⟩
  · rintro n ⟨hfits, hcount⟩
    rcases Digits.significant_le_iff.mp hcount with ⟨m, zeros, hm, rfl⟩
    exact le_topmost hdigits hm hfits

theorem abs_value_le_topmost {d : Decimal} {digits : ℕ} (hdigits : 1 ≤ digits)
    (h : d.digitCount ≤ digits) : |d.value| ≤ topmost digits := by
  have hle : (d.coefficient : ℚ) ≤ topmost digits := by
    exact_mod_cast (isGreatest_topmost hdigits).2 ⟨d.coefficient_lt, h⟩
  rw [abs_value]
  exact le_trans (div_le_self (by positivity) (one_le_pow₀ (by norm_num))) hle

end Decimal

namespace DecimalContext

open Decimal

variable {context : DecimalContext} {d : Decimal}

/-- A decimal has no more digits than the context keeps, up to the largest decimal with as many.
Any other decimal cannot be rounded to them. -/
structure Confines (context : DecimalContext) (d : Decimal) : Prop where
  digitCount_le_iff :
    d.digitCount ≤ min context.precision 28 ↔ |d.value| ≤ topmost (min context.precision 28)
  out_of_range : min context.precision 28 < d.digitCount →
    2 ^ 96 ≤ |context.rounding.toMultiple (digitUnit (min context.precision 28) d.value) d.value|

theorem significantDigits_eq (hprecision : 1 ≤ context.precision) :
    context.significantDigits = min context.precision 28 := by
  rw [significantDigits, if_neg (Nat.ne_of_gt hprecision), maxPrecision]

theorem digitCount_le_of_keeps (hprecision : 1 ≤ context.precision)
    (h : context.Keeps d.coefficient) : d.digitCount ≤ min context.precision 28 := by
  rw [← significantDigits_eq hprecision]
  exact Digits.significant_le_iff.mpr h

theorem confines_of_keeps (hprecision : 1 ≤ context.precision)
    (h : context.Keeps d.coefficient) : context.Confines d := by
  have hcount := digitCount_le_of_keeps hprecision h
  have hpos : 1 ≤ min context.precision 28 := Nat.le_min.mpr ⟨hprecision, by decide⟩
  exact ⟨iff_of_true hcount (abs_value_le_topmost hpos hcount),
    fun hmore => absurd hcount (Nat.not_le.mpr hmore)⟩

theorem confines_of_out_of_range (hprecision : 1 ≤ context.precision)
    (h : 2 ^ 96 ≤
      |context.rounding.toMultiple (digitUnit (min context.precision 28) d.value) d.value|) :
    context.Confines d := by
  have hpos : 1 ≤ min context.precision 28 := Nat.le_min.mpr ⟨hprecision, by decide⟩
  have hlarge : ¬|d.value| ≤ topmost (min context.precision 28) := by
    intro hle
    have hlt := (le_abs_toMultiple_iff context.rounding hpos (Nat.min_le_right ..) le_rfl
      (le_max_left ..)).mp h
    exact absurd (abs_toMultiple_le_topmost context.rounding le_rfl hle) (not_le.mpr hlt)
  exact ⟨iff_of_false (fun hcount => hlarge (abs_value_le_topmost hpos hcount)) hlarge, fun _ => h⟩

theorem confines_round (hprecision : 1 ≤ context.precision) (d : Decimal) :
    context.Confines (context.round d) := by
  rcases value_round (Nat.ne_of_gt hprecision) d with ⟨_, _, hkept⟩ | ⟨hleft, hlarge⟩
  · exact confines_of_keeps hprecision hkept
  · rw [significantDigits_eq hprecision] at hlarge
    rw [hleft]
    exact confines_of_out_of_range hprecision hlarge

end DecimalContext

/-!
# Computations
-/

namespace Number

open Decimal DecimalContext

variable {context : DecimalContext}

def operations (context : DecimalContext) : List (Number → Number → Except NumberError Number) :=
  [add context, sub context, mul context, div context, rem context]

/-- The numbers that come from literals by operations, all of them under the same context. -/
inductive Computed (context : DecimalContext) : Number → Prop
  | literal {text : String} {v : Number} (h : parse text ⟨.decimal, context⟩ = .ok v) :
      Computed context v
  | operation {op : Number → Number → Except NumberError Number} {a b v : Number}
      (hop : op ∈ operations context) (ha : Computed context a) (hb : Computed context b)
      (h : op a b = .ok v) : Computed context v

theorem parse_of_toDecimal? {text : String} {l : Literal} {d : Decimal}
    (hread : Literal.read? (Blank.trim text.toList) = some l) (hd : l.toDecimal? context = some d) :
    parse text ⟨.decimal, context⟩ = .ok (.decimal d) := by
  rw [parse_of_spells (Literal.read?_eq_some_iff.mp hread), hd]

theorem exists_keeps_of_parse {text : String} {v : Number}
    (h : parse text ⟨.decimal, context⟩ = .ok v) :
    ∃ d, v = .decimal d ∧ context.Keeps d.coefficient := by
  by_cases hspells : ∃ l : Literal, l.Spells (Blank.trim text.toList)
  · rcases hspells with ⟨l, hl⟩
    rw [parse_of_spells hl] at h
    cases hmade : l.toDecimal? context with
    | none =>
        rw [hmade] at h
        cases h
    | some d =>
        rw [hmade] at h
        cases h
        have hdigits := Literal.isDigit_of_read? (Literal.read?_eq_some_iff.mpr hl)
        exact ⟨d, rfl, Literal.keeps_toDecimal? hdigits hmade⟩
  · rw [parse_of_not_spells hspells] at h
    cases h

theorem exists_round_of_combine {operation : String}
    {decimal : Decimal → Decimal → Option Decimal} {double : Double → Double → Double}
    {a b : Decimal} {v : Number}
    (h : combine context operation decimal double (.decimal a) (.decimal b) = .ok v) :
    ∃ z, v = .decimal (context.round z) := by
  unfold combine at h
  dsimp only at h
  split at h
  · cases h
    exact ⟨_, rfl⟩
  · cases h

/-- Every operation rounds last. -/
theorem exists_round_of_mem_operations {op : Number → Number → Except NumberError Number}
    {a b : Decimal} {v : Number} (hop : op ∈ operations context)
    (h : op (.decimal a) (.decimal b) = .ok v) : ∃ z, v = .decimal (context.round z) := by
  unfold operations at hop
  simp only [List.mem_cons, List.not_mem_nil, or_false] at hop
  rcases hop with rfl | rfl | rfl | rfl | rfl
  · exact exists_round_of_combine h
  · exact exists_round_of_combine h
  · exact exists_round_of_combine h
  · unfold div at h
    split at h
    · cases h
    · exact exists_round_of_combine h
  · unfold rem at h
    split at h
    · cases h
    · exact exists_round_of_combine h

/-- No literal has more digits than the context keeps.  The result of an operation has not either,
whatever the operands, and so has none after any number of operations, up to the gap at the top of
the range. -/
theorem computed_confined (hprecision : 1 ≤ context.precision) :
    (∀ text v, parse text ⟨.decimal, context⟩ = .ok v →
      ∃ d, v = .decimal d ∧ d.digitCount ≤ min context.precision 28) ∧
    (∀ op ∈ operations context, ∀ (a b : Decimal) (v : Number),
      op (.decimal a) (.decimal b) = .ok v → ∃ d, v = .decimal d ∧ context.Confines d) ∧
    ∀ v, Computed context v → ∃ d, v = .decimal d ∧ context.Confines d := by
  have hstep : ∀ op ∈ operations context, ∀ (a b : Decimal) (v : Number),
      op (.decimal a) (.decimal b) = .ok v → ∃ d, v = .decimal d ∧ context.Confines d := by
    intro op hop a b v h
    rcases exists_round_of_mem_operations hop h with ⟨z, rfl⟩
    exact ⟨_, rfl, confines_round hprecision z⟩
  refine ⟨?_, hstep, ?_⟩
  · intro text v h
    rcases exists_keeps_of_parse h with ⟨d, rfl, hkept⟩
    exact ⟨d, rfl, digitCount_le_of_keeps hprecision hkept⟩
  · intro v hv
    induction hv with
    | literal h =>
        rcases exists_keeps_of_parse h with ⟨d, rfl, hkept⟩
        exact ⟨d, rfl, confines_of_keeps hprecision hkept⟩
    | operation hop _ _ h iha ihb =>
        rcases iha with ⟨a, rfl, _⟩
        rcases ihb with ⟨b, rfl, _⟩
        exact hstep _ hop a b _ h

/-- Two thirds to three digits. -/
theorem computed_confined_thirds :
    let context : DecimalContext := ⟨3, .halfUp⟩
    1 ≤ context.precision ∧
      ∃ a b v, parse "2" ⟨.decimal, context⟩ = .ok a ∧ parse " 3.0 " ⟨.decimal, context⟩ = .ok b ∧
        div context a b = .ok v ∧ ∃ d, v = .decimal d ∧ context.Confines d ∧ d.digitCount = 3 := by
  intro context
  have hprecision : 1 ≤ context.precision := by decide
  let two : Decimal := ⟨false, 2, 0, by decide, by decide⟩
  let three : Decimal := ⟨false, 30, 1, by decide, by decide⟩
  let thirds : Decimal := ⟨false, 667, 3, by decide, by decide⟩
  have ha : parse "2" ⟨.decimal, context⟩ = .ok (.decimal two) :=
    parse_of_toDecimal? (l := ⟨false, ['2'], []⟩) (by decide +kernel) (by decide +kernel)
  have hb : parse " 3.0 " ⟨.decimal, context⟩ = .ok (.decimal three) :=
    parse_of_toDecimal? (l := ⟨false, ['3'], ['0']⟩) (by decide +kernel) (by decide +kernel)
  have hv : div context (.decimal two) (.decimal three) = .ok (.decimal thirds) := by
    let quotient : Decimal := ⟨false, 6666666666666666666666666667, 28, by decide, by decide⟩
    have hdiv : two.div three = some quotient := by decide +kernel
    have hround : context.round quotient = thirds := by decide +kernel
    rw [div, dividesByZero, combine, hdiv, ← hround]
    rfl
  have hcomputed : Computed context (.decimal thirds) :=
    .operation (by simp [operations]) (.literal ha) (.literal hb) hv
  rcases (computed_confined hprecision).2.2 _ hcomputed with ⟨d, hd, hconfines⟩
  cases hd
  exact ⟨hprecision, _, _, _, ha, hb, hv, thirds, rfl, hconfines, by decide +kernel⟩

/-- Two numbers of no more than twenty-eight digits each, with a sum of twenty-nine. -/
theorem add_all_digits :
    let a : Decimal := ⟨false, 79228162514264337593543950330, 0, by decide, by decide⟩
    let b : Decimal := ⟨false, 5, 0, by decide, by decide⟩
    parse "79228162514264337593543950330" .standard = .ok (.decimal a) ∧
      parse "5" .standard = .ok (.decimal b) ∧ a.digitCount = 28 ∧ b.digitCount = 1 ∧
      ∃ d, add .decimal (.decimal a) (.decimal b) = .ok (.decimal d) ∧ d.digitCount = 29 := by
  intro a b
  let sum : Decimal := ⟨false, 79228162514264337593543950335, 0, by decide, by decide⟩
  have ha : parse "79228162514264337593543950330" .standard = .ok (.decimal a) :=
    parse_of_toDecimal? (l := ⟨false, "79228162514264337593543950330".toList, []⟩)
      (by decide +kernel) (by decide +kernel)
  have hb : parse "5" .standard = .ok (.decimal b) :=
    parse_of_toDecimal? (l := ⟨false, ['5'], []⟩) (by decide +kernel) (by decide +kernel)
  have hadd : add .decimal (.decimal a) (.decimal b) = .ok (.decimal sum) := by
    have hsum : a.add b = some sum := by decide +kernel
    have hround : DecimalContext.decimal.round sum = sum := by decide +kernel
    rw [add, combine, hsum]
    show Except.ok (decimal (DecimalContext.decimal.round sum)) = _
    rw [hround]
  exact ⟨ha, hb, by decide +kernel, by decide +kernel, sum, hadd, by decide +kernel⟩

end Number
end TreeQuery
