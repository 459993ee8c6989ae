import TreeQuery.Proofs.Numeric.Exact

/-!
# Literals and the numbers they stand for

Which texts are plain literals is a matter of spelling.  The number of a literal
is exact, however long it is; the decimal that is read is that number, rounded
once to the digits of the context and to those that a decimal has.
-/

namespace TreeQuery

-- Powers are those of the core library, whatever else is in scope.
attribute [local instance (high)] instPowNat

namespace Literal

open Decimal

/-- The spellings of literals: digits, digits with a point and perhaps more of them, or a point
with digits, behind an optional minus sign. -/
inductive Spells : Literal → List Char → Prop
  | digits {negative : Bool} {whole : List Char} (hwhole : ∀ c ∈ whole, isDigit c = true)
      (hne : whole ≠ []) : Spells ⟨negative, whole, []⟩ (signText negative ++ whole)
  | pointed {negative : Bool} {whole fraction : List Char} (hwhole : ∀ c ∈ whole, isDigit c = true)
      (hne : whole ≠ []) (hfraction : ∀ c ∈ fraction, isDigit c = true) :
      Spells ⟨negative, whole, fraction⟩ (signText negative ++ (whole ++ '.' :: fraction))
  | fraction {negative : Bool} {fraction : List Char} (hfraction : ∀ c ∈ fraction, isDigit c = true)
      (hne : fraction ≠ []) : Spells ⟨negative, [], fraction⟩ (signText negative ++ '.' :: fraction)

def value (l : Literal) : ℚ :=
  sign l.negative * (Digits.read l.whole + Digits.read l.fraction / 10 ^ l.fraction.length)

/-- The coarser of two units: one in the last digit that the context keeps, and the smallest that a
decimal has. -/
def unit (context : DecimalContext) (l : Literal) : ℚ :=
  max (digitUnit context.significantDigits l.value) (10 ^ (-28 : ℤ))

variable {l : Literal} {text : List Char} {negative : Bool} {context : DecimalContext}

/-!
# Spelling
-/

theorem spells_of_unsigned? (h : unsigned? negative text = some l) :
    l.Spells (signText negative ++ text) := by
  unfold unsigned? split at h
  dsimp only at h
  split at h
  · rename_i hdigits
    cases h
    rcases Bool.and_eq_true_iff.mp hdigits with ⟨hboth, hsome⟩
    rcases Bool.and_eq_true_iff.mp hboth with ⟨hwhole, hfraction⟩
    have htext := List.takeWhile_append_dropWhile (p := (· != '.')) (l := text)
    have hpoint : ∀ c rest, text.dropWhile (· != '.') = c :: rest → c = '.' := by
      intro c rest hrest
      have hhead := List.head?_dropWhile_not (· != '.') text
      rw [hrest] at hhead
      simpa using hhead
    generalize text.takeWhile (· != '.') = whole at *
    generalize text.dropWhile (· != '.') = rest at *
    subst htext
    cases rest with
    | nil =>
        rw [List.append_nil]
        apply Spells.digits (List.all_eq_true.mp hwhole)
        rintro rfl
        cases hsome
    | cons c fraction =>
        rw [hpoint c fraction rfl]
        cases whole with
        | nil =>
            apply Spells.fraction (List.all_eq_true.mp hfraction)
            rintro hnone
            rw [List.drop_one, List.tail_cons] at hnone
            rw [hnone] at hsome
            cases hsome
        | cons first whole =>
            exact Spells.pointed (List.all_eq_true.mp hwhole) (List.cons_ne_nil _ _)
              (List.all_eq_true.mp hfraction)
  · cases h

theorem read?_eq_some_iff : read? text = some l ↔ l.Spells text := by
  constructor
  · intro h
    unfold read? at h
    split at h
    · exact spells_of_unsigned? h
    · exact spells_of_unsigned? h
  · intro h
    cases h with
    | @digits negative whole hwhole hne =>
        rcases List.exists_cons_of_ne_nil hne with ⟨c, rest, rfl⟩
        rw [read?_signText negative (Or.inl (hwhole c List.mem_cons_self))]
        apply unsigned?_of_split (split_of_digits hwhole) _ (by simp)
        rw [List.append_nil]
        exact hwhole
    | @pointed negative whole fraction hwhole hne hfraction =>
        have hboth : ∀ c ∈ whole ++ fraction, isDigit c = true :=
          List.forall_mem_append.mpr ⟨hwhole, hfraction⟩
        have hsplit : split (whole ++ '.' :: fraction) = (whole, fraction) := split_of_point hwhole
        have hread := unsigned?_of_split hsplit hboth (by simp [hne]) negative
        rcases List.exists_cons_of_ne_nil hne with ⟨c, rest, rfl⟩
        rw [List.cons_append] at hread ⊢
        rw [read?_signText negative (Or.inl (hwhole c List.mem_cons_self))]
        exact hread
    | @fraction negative fraction hfraction hne =>
        have hsplit : split ('.' :: fraction) = ([], fraction) :=
          split_of_point (List.forall_mem_nil _)
        rw [read?_signText negative (Or.inr rfl)]
        exact unsigned?_of_split hsplit hfraction hne negative

theorem read?_eq_none_iff : read? text = none ↔ ¬∃ l : Literal, l.Spells text := by
  rw [Option.eq_none_iff_forall_ne_some, not_exists]
  exact forall_congr' fun l => not_congr read?_eq_some_iff

/-!
# Rounding a literal
-/

theorem value_eq (l : Literal) :
    l.value = sign l.negative * (l.coefficient / 10 ^ l.fraction.length) := by
  have hpow : (10 : ℚ) ^ l.fraction.length ≠ 0 := pow_ne_zero _ (by norm_num)
  rw [value, coefficient, Digits.read_append]
  push_cast
  rw [add_div, mul_div_cancel_right₀ _ hpow]

theorem unit_eq (hpos : 0 < l.coefficient) :
    l.unit context = 10 ^ (max ((Digits.count l.coefficient : ℤ) - context.significantDigits)
      (l.fraction.length - 28) - l.fraction.length) := by
  have habs : |l.value| = l.coefficient / 10 ^ l.fraction.length := by
    rw [value_eq, abs_mul, abs_sign, one_mul, abs_of_nonneg (by positivity)]
  have hmono : Monotone fun k : ℤ => (10 : ℚ) ^ k := zpow_right_mono₀ (by norm_num)
  rw [unit, digitUnit, habs, log_natCast_div hpos, ← hmono.map_max]
  congr 1
  omega

theorem toNat_excess (l : Literal) (context : DecimalContext) :
    (max ((Digits.count l.coefficient : ℤ) - context.significantDigits)
      (l.fraction.length - 28)).toNat = l.excess context := by
  unfold excess maxScale
  omega

/-- A literal gives its number, rounded once, unless that is too large. -/
theorem toDecimal?_cases {l : Literal} (h : ∀ c ∈ l.whole ++ l.fraction, isDigit c = true)
    (context : DecimalContext) :
    (∃ d, l.toDecimal? context = some d ∧
        d.value = context.rounding.toMultiple (l.unit context) l.value ∧
          |context.rounding.toMultiple (l.unit context) l.value| < 2 ^ 96) ∨
      l.toDecimal? context = none ∧
        2 ^ 96 ≤ |context.rounding.toMultiple (l.unit context) l.value| := by
  have hzero : zero.value = 0 := value_eq_zero_iff.mpr rfl
  have hle := context.rounding.quotient_le l.negative (n := l.coefficient)
    (Nat.pow_pos (by decide) : 0 < 10 ^ l.excess context)
  have hlt := quotient_lt l.negative (l.count_le_excess context)
  have hscale : l.fraction.length - l.excess context ≤ 28 := by
    unfold excess maxScale
    omega
  have hy : context.rounding.toMultiple (l.unit context) l.value =
      sign l.negative *
          context.rounding.quotient l.negative l.coefficient (10 ^ l.excess context) *
        10 ^ ((l.excess context : ℤ) - l.fraction.length) := by
    rcases Nat.eq_zero_or_pos l.coefficient with hnone | hpos
    · rw [hnone, Nat.le_zero] at hle
      rw [value_eq, hnone, hle]
      simp [Rounding.toMultiple_zero]
    · rw [unit_eq hpos, value_eq, toMultiple_sign_mul, toNat_excess]
  rw [toDecimal?_eq_quotient? h, quotient?, hy]
  split
  · rename_i hkept
    refine Or.inl ⟨zero, rfl, ?_, ?_⟩
    · rw [hzero, hkept, Nat.cast_zero, mul_zero, zero_mul]
    · rw [hkept]
      norm_num
  · exact ofParts?_cut l.negative hlt hscale

end Literal

namespace Number

variable {text : String} {context : DecimalContext}

theorem parse_of_spells {l : Literal} (h : l.Spells (Blank.trim text.toList)) :
    parse text ⟨.decimal, context⟩ =
      match l.toDecimal? context with
      | some d => .ok (.decimal d)
      | none => .error (.outOfRange (String.ofList (Blank.trim text.toList))) := by
  have hread : Literal.read? (Blank.trim text.toList) = some l := Literal.read?_eq_some_iff.mpr h
  cases hl : l.toDecimal? context with
  | none => simp only [parse, hread, hl]
  | some d => simp only [parse, hread, hl]

theorem parse_of_not_spells (h : ¬∃ l : Literal, l.Spells (Blank.trim text.toList)) :
    parse text ⟨.decimal, context⟩ = .error (.invalidLiteral text) := by
  unfold parse
  simp only [Literal.read?_eq_none_iff.mpr h]

theorem parse_cases {l : Literal} (h : l.Spells (Blank.trim text.toList)) :
    let y := context.rounding.toMultiple (l.unit context) l.value
    (∃ d : Decimal, parse text ⟨.decimal, context⟩ = .ok (.decimal d) ∧ d.value = y ∧
        |y| < 2 ^ 96) ∨
      parse text ⟨.decimal, context⟩ =
          .error (.outOfRange (String.ofList (Blank.trim text.toList))) ∧ 2 ^ 96 ≤ |y| := by
  have hdigits := Literal.isDigit_of_read? (Literal.read?_eq_some_iff.mpr h)
  rw [parse_of_spells h]
  rcases Literal.toDecimal?_cases hdigits context with ⟨d, hd, hvalue, hlt⟩ | ⟨hd, hle⟩
  · rw [hd]
    exact Or.inl ⟨d, rfl, hvalue, hlt⟩
  · rw [hd]
    exact Or.inr ⟨rfl, hle⟩

/-- Exactly the spellings of literals are read, blanks around them allowed.  The decimal is the
number of the literal, rounded to a multiple of its unit, and the literal is out of range exactly
when that multiple is. -/
theorem parse_rounds (text : String) (context : DecimalContext) :
    (parse text ⟨.decimal, context⟩ = .error (.invalidLiteral text) ↔
      ¬∃ l : Literal, l.Spells (Blank.trim text.toList)) ∧
    ∀ l : Literal, l.Spells (Blank.trim text.toList) →
      let y := context.rounding.toMultiple (l.unit context) l.value
      (∃ d : Decimal, parse text ⟨.decimal, context⟩ = .ok (.decimal d) ∧ d.value = y ∧
          |y| < 2 ^ 96) ∨
        parse text ⟨.decimal, context⟩ =
            .error (.outOfRange (String.ofList (Blank.trim text.toList))) ∧ 2 ^ 96 ≤ |y| := by
  refine ⟨⟨?_, parse_of_not_spells⟩, fun _ => parse_cases⟩
  rintro hinvalid ⟨l, hl⟩
  rcases parse_cases hl with ⟨d, hd, _⟩ | ⟨hrange, _⟩
  · rw [hinvalid] at hd
    cases hd
  · rw [hinvalid] at hrange
    cases hrange

/-- Nines that carry past the first digit, behind zeros and below zero. -/
theorem parse_rounds_nines :
    let l : Literal := ⟨true, "00".toList, "0009999951".toList⟩
    l.Spells (Blank.trim " -00.0009999951 ".toList) ∧
      ∃ d, parse " -00.0009999951 " ⟨.decimal, ⟨5, .floor⟩⟩ = .ok (.decimal d) ∧
        d.value = Rounding.floor.toMultiple (l.unit ⟨5, .floor⟩) l.value ∧ d.value = -1 / 1000 := by
  intro l
  have hspells : l.Spells (Blank.trim " -00.0009999951 ".toList) := by
    apply Literal.read?_eq_some_iff.mp
    decide +kernel
  have hmade : l.toDecimal? ⟨5, .floor⟩ = some ⟨true, 100000, 8, by decide, by decide⟩ := by
    decide +kernel
  have hparse : parse " -00.0009999951 " ⟨.decimal, ⟨5, .floor⟩⟩ =
      .ok (.decimal ⟨true, 100000, 8, by decide, by decide⟩) := by
    rw [parse_of_spells hspells, hmade]
  refine ⟨hspells, ?_⟩
  rcases (parse_rounds " -00.0009999951 " ⟨5, .floor⟩).2 l hspells with
    ⟨d, hd, hvalue, _⟩ | ⟨hrange, _⟩
  · refine ⟨d, hd, hvalue, ?_⟩
    rw [hparse] at hd
    cases hd
    norm_num [Decimal.value, Decimal.signed]
  · rw [hparse] at hrange
    cases hrange

end Number
end TreeQuery
