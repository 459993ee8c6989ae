import TreeQuery.Numeric.Number
import TreeQuery.Proofs.Numeric.Digitwise

/-!
# Decimals read back

The text of a decimal is a plain literal.  Reading it under a context that
keeps all of its significant digits gives the same number again, whatever
rounding the context asks for and however many zeros stand at the end.
-/

namespace TreeQuery

-- Powers are those of the core library, whatever else is in scope.
attribute [local instance (high)] instPowNat

namespace Digits

/-!
# Filled rows
-/

theorem length_writePadded {width n : Nat} (h : n < 10 ^ width) (hwidth : 0 < width) :
    (writePadded width n).length = width := by
  have hcount := count_le hwidth h
  unfold writePadded
  rw [List.length_append, List.length_replicate]
  exact Nat.sub_add_cancel hcount

theorem read_writePadded (width n : Nat) : read (writePadded width n) = n := by
  unfold writePadded
  rw [read_append, read_zeros, read_write, Nat.zero_mul, Nat.zero_add]

theorem isDigit_of_mem_writePadded {width n : Nat} {c : Char} (h : c ∈ writePadded width n) :
    Literal.isDigit c = true := by
  rcases List.mem_append.mp h with hzero | hwritten
  · rw [List.eq_of_mem_replicate hzero]
    decide
  · exact isDigit_of_mem_write hwritten

end Digits

namespace Decimal

/-!
# The literal of a decimal
-/

def fractionText (d : Decimal) : List Char :=
  if d.scale = 0 then [] else Digits.writePadded d.scale (d.coefficient % 10 ^ d.scale)

def wholeText (d : Decimal) : List Char :=
  Digits.write (d.coefficient / 10 ^ d.scale)

def literal (d : Decimal) : Literal :=
  ⟨d.negative, d.wholeText, d.fractionText⟩

theorem digitsText_eq (d : Decimal) :
    d.digitsText =
      d.wholeText ++ if d.scale = 0 then [] else '.' :: d.fractionText := by
  unfold digitsText fractionText wholeText
  dsimp only
  congr 1
  split
  · rfl
  · rfl

theorem length_fractionText (d : Decimal) : d.fractionText.length = d.scale := by
  unfold fractionText
  split
  · rename_i hscale
    exact hscale.symm
  · rename_i hscale
    exact Digits.length_writePadded (Nat.mod_lt _ (Nat.pow_pos (by omega)))
      (Nat.pos_of_ne_zero hscale)

theorem isDigit_of_mem_wholeText {d : Decimal} {c : Char} (h : c ∈ d.wholeText) :
    Literal.isDigit c = true :=
  Digits.isDigit_of_mem_write h

theorem isDigit_of_mem_fractionText {d : Decimal} {c : Char} (h : c ∈ d.fractionText) :
    Literal.isDigit c = true := by
  unfold fractionText at h
  split at h
  · cases h
  · exact Digits.isDigit_of_mem_writePadded h

theorem isDigit_of_mem_literal (d : Decimal) :
    ∀ c ∈ d.literal.whole ++ d.literal.fraction, Literal.isDigit c = true := fun _ hc =>
  (List.mem_append.mp hc).elim isDigit_of_mem_wholeText isDigit_of_mem_fractionText

theorem wholeText_ne_nil (d : Decimal) : d.wholeText ≠ [] :=
  Digits.write_ne_nil _

theorem coefficient_literal (d : Decimal) : d.literal.coefficient = d.coefficient := by
  show Digits.read (d.wholeText ++ d.fractionText) = d.coefficient
  rw [Digits.read_append, length_fractionText, wholeText, Digits.read_write]
  unfold fractionText
  split
  · rename_i hscale
    rw [hscale]
    show d.coefficient / 1 * 1 + 0 = d.coefficient
    rw [Nat.div_one, Nat.mul_one, Nat.add_zero]
  · rw [Digits.read_writePadded, Nat.mul_comm]
    exact Nat.div_add_mod ..

theorem split_digitsText (d : Decimal) :
    Literal.split d.digitsText = (d.wholeText, d.fractionText) := by
  have hwhole : ∀ c ∈ d.wholeText, Literal.isDigit c = true := fun c =>
    isDigit_of_mem_wholeText
  rw [digitsText_eq]
  by_cases hscale : d.scale = 0
  · have hfraction : d.fractionText = [] := by
      rw [fractionText, if_pos hscale]
    rw [if_pos hscale, hfraction, List.append_nil, Literal.split_of_digits hwhole]
  · rw [if_neg hscale, Literal.split_of_point hwhole]

theorem unsigned?_digitsText (d : Decimal) (negative : Bool) :
    Literal.unsigned? negative d.digitsText =
      some ⟨negative, d.wholeText, d.fractionText⟩ := by
  apply Literal.unsigned?_of_split d.split_digitsText d.isDigit_of_mem_literal
  exact List.append_ne_nil_of_left_ne_nil d.wholeText_ne_nil _

theorem exists_cons_digitsText (d : Decimal) :
    ∃ c rest, d.digitsText = c :: rest ∧ Literal.isDigit c = true := by
  rcases List.exists_cons_of_ne_nil d.wholeText_ne_nil with ⟨c, rest, hwhole⟩
  have hdigit : Literal.isDigit c = true := by
    apply isDigit_of_mem_wholeText (d := d)
    rw [hwhole]
    exact List.mem_cons_self
  rw [digitsText_eq, hwhole, List.cons_append]
  exact ⟨c, _, rfl, hdigit⟩

/-- The characters of a decimal are a literal, which is read as it was meant. -/
theorem read?_fullText (d : Decimal) :
    Literal.read? (signText d.negative ++ d.digitsText) = some d.literal := by
  unfold literal
  cases hnegative : d.negative with
  | true => exact d.unsigned?_digitsText true
  | false =>
      rcases d.exists_cons_digitsText with ⟨c, rest, hdigits, hdigit⟩
      have hplain : Literal.read? d.digitsText = Literal.unsigned? false d.digitsText := by
        rw [hdigits]
        exact Literal.read?_of_unsigned (Or.inl hdigit)
      rw [signText, if_neg Bool.false_ne_true, List.nil_append, hplain, unsigned?_digitsText]

theorem mem_fullText {d : Decimal} {c : Char} (h : c ∈ signText d.negative ++ d.digitsText) :
    Literal.isDigit c = true ∨ c = '.' ∨ c = '-' := by
  rcases List.mem_append.mp h with hsign | hdigits
  · unfold signText at hsign
    split at hsign
    · exact Or.inr (Or.inr (List.mem_singleton.mp hsign))
    · cases hsign
  · rw [digitsText_eq] at hdigits
    rcases List.mem_append.mp hdigits with hwhole | hrest
    · exact Or.inl (isDigit_of_mem_wholeText hwhole)
    · split at hrest
      · cases hrest
      · rcases List.mem_cons.mp hrest with rfl | hfraction
        · exact Or.inr (Or.inl rfl)
        · exact Or.inl (isDigit_of_mem_fractionText hfraction)

end Decimal

/-!
# Contexts that keep a number
-/

/-- The context keeps all significant digits of a coefficient.  Zeros at the end are none. -/
def DecimalContext.Keeps (context : DecimalContext) (coefficient : Nat) : Prop :=
  ∃ digits zeros : Nat,
    digits < 10 ^ context.significantDigits ∧ coefficient = digits * 10 ^ zeros

namespace Decimal

variable {context : DecimalContext}

theorem pow_excess_dvd {coefficient : Nat} (h : context.Keeps coefficient) :
    10 ^ (Digits.count coefficient - context.significantDigits) ∣ coefficient := by
  -- The digits that a literal gives up are zeros.
  rcases h with ⟨digits, zeros, hdigits, rfl⟩
  have hlt : digits * 10 ^ zeros < 10 ^ (context.significantDigits + zeros) := by
    rw [Nat.pow_add]
    exact Nat.mul_lt_mul_of_pos_right hdigits (Nat.pow_pos (by omega))
  have hpos := context.significantDigits_pos
  have hcount := Digits.count_le (by omega) hlt
  have hle : Digits.count (digits * 10 ^ zeros) - context.significantDigits ≤ zeros := by
    omega
  exact Nat.dvd_trans (Nat.pow_dvd_pow 10 hle) (Nat.dvd_mul_left ..)

theorem unitsAt_eq_mul {d : Decimal} {s t : Nat} (hs : d.scale ≤ s) (ht : s ≤ t) :
    d.unitsAt t = d.unitsAt s * 10 ^ (t - s) := by
  unfold unitsAt
  rw [Int.mul_assoc, ← Int.pow_add]
  congr 2
  omega

theorem beq_iff {a b : Decimal} {s : Nat} (ha : a.scale ≤ s) (hb : b.scale ≤ s) :
    (a == b) = true ↔ a.unitsAt s = b.unitsAt s := by
  have hmax : max a.scale b.scale ≤ s := Nat.max_le.mpr ⟨ha, hb⟩
  show (a.compare b == .eq) = true ↔ _
  unfold compare
  rw [beq_iff_eq, Int.compare_eq_eq, unitsAt_eq_mul (Nat.le_max_left ..) hmax,
    unitsAt_eq_mul (Nat.le_max_right ..) hmax]
  have hpos : (10 : Int) ^ (s - max a.scale b.scale) ≠ 0 :=
    Int.ne_of_gt (Int.pow_pos (by omega))
  exact (Int.mul_eq_mul_right_iff hpos).symm

theorem beq_trans {a b c : Decimal} (hab : (a == b) = true) (hbc : (b == c) = true) :
    (a == c) = true := by
  rw [beq_iff a.scale_le b.scale_le] at hab
  rw [beq_iff b.scale_le c.scale_le] at hbc
  rw [beq_iff a.scale_le c.scale_le, hab, hbc]

theorem beq_of_coefficient {a b : Decimal} (hsign : a.negative = b.negative)
    (hscale : a.scale ≤ b.scale)
    (h : a.coefficient * 10 ^ (b.scale - a.scale) = b.coefficient) : (a == b) = true := by
  rw [beq_iff hscale (Nat.le_refl _)]
  have hunits : (a.coefficient : Int) * 10 ^ (b.scale - a.scale) = b.coefficient := by
    rw [← h]
    simp
  unfold unitsAt signed
  rw [hsign, Nat.sub_self, Int.pow_zero, Int.mul_one, ← hunits]
  split
  · exact Int.neg_mul ..
  · rfl

theorem toDecimal?_literal {d : Decimal} (h : context.Keeps d.coefficient)
    (hlast : d.scale = 0 ∨ ¬ 10 ∣ d.coefficient) (hzero : d.coefficient = 0 → d = zero) :
    d.literal.toDecimal? context = some d := by
  have hexcess : d.literal.excess context =
      Digits.count d.coefficient - context.significantDigits := by
    have hscale : d.scale ≤ maxScale := d.scale_le
    unfold Literal.excess
    rw [coefficient_literal]
    show max _ (d.fractionText.length - maxScale) = _
    rw [length_fractionText, Nat.sub_eq_zero_of_le hscale, Nat.max_zero]
  rw [Literal.toDecimal?_eq_quotient? d.isDigit_of_mem_literal, Literal.quotient?,
    coefficient_literal, hexcess]
  have hdvd := pow_excess_dvd h
  generalize Digits.count d.coefficient - context.significantDigits = dropped at hdvd
  have hpos : 0 < 10 ^ dropped := Nat.pow_pos (by omega)
  rw [Rounding.quotient_of_mod_eq_zero hpos (Nat.mod_eq_zero_of_dvd hdvd)]
  -- What the literal has given up comes back as zeros, or else it has given up nothing.
  have hdropped : dropped = 0 ∨ d.scale = 0 := by
    rcases hlast with hscale | hlast
    · exact Or.inr hscale
    · cases dropped with
      | zero => exact Or.inl rfl
      | succ k => exact absurd (Nat.dvd_trans (Nat.dvd_mul_left 10 (10 ^ k)) hdvd) hlast
  rcases hdvd with ⟨kept, hkept⟩
  have hdiv : d.coefficient / 10 ^ dropped = kept := by
    rw [hkept, Nat.mul_div_cancel_left kept hpos]
  rw [hdiv]
  by_cases hnone : kept = 0
  · rw [if_pos hnone, hzero (by rw [hkept, hnone, Nat.mul_zero])]
  · rw [if_neg hnone]
    show ofParts? d.negative (kept * 10 ^ (dropped - d.fractionText.length))
      (d.fractionText.length - dropped) = some d
    rw [length_fractionText, ofParts?_eq_some_iff]
    refine ⟨rfl, ?_, by omega⟩
    rw [hkept, Nat.mul_comm]
    congr 2
    omega

/-!
# Normal form
-/

theorem normalize_beq (d : Decimal) : (d.normalize == d) = true := by
  by_cases hzero : d.coefficient = 0
  · rw [beq_iff d.normalize.scale_le d.scale_le]
    unfold unitsAt signed normalize
    simp [hzero]
  · apply beq_of_coefficient
    · simp [normalize, hzero]
    · simp only [normalize, hzero, if_false]
      exact (stripZeros_le ..).2
    · simp only [normalize, hzero, if_false]
      exact stripZeros_mul ..

theorem keeps_of_mul_pow {coefficient zeros : Nat} (h : context.Keeps (coefficient * 10 ^ zeros)) :
    context.Keeps coefficient := by
  rcases h with ⟨digits, more, hdigits, heq⟩
  rcases Nat.le_total zeros more with hle | hle
  · refine ⟨digits, more - zeros, hdigits, ?_⟩
    apply Nat.eq_of_mul_eq_mul_right (Nat.pow_pos (by omega) : 0 < 10 ^ zeros)
    rw [heq, Nat.mul_assoc, ← Nat.pow_add, Nat.sub_add_cancel hle]
  · refine ⟨coefficient, 0, Nat.lt_of_le_of_lt ?_ hdigits, (Nat.mul_one _).symm⟩
    have hcancel : coefficient * 10 ^ (zeros - more) = digits := by
      apply Nat.eq_of_mul_eq_mul_right (Nat.pow_pos (by omega) : 0 < 10 ^ more)
      rw [Nat.mul_assoc, ← Nat.pow_add, Nat.sub_add_cancel hle, heq]
    rw [← hcancel]
    exact Nat.le_mul_of_pos_right _ (Nat.pow_pos (by omega))

theorem keeps_normalize {d : Decimal} (h : context.Keeps d.coefficient) :
    context.Keeps d.normalize.coefficient := by
  by_cases hzero : d.coefficient = 0
  · refine ⟨0, 0, Nat.pow_pos (by omega), ?_⟩
    simp [normalize, hzero]
  · simp only [normalize, hzero, if_false]
    have hstripped := stripZeros_mul d.coefficient d.scale
    exact keeps_of_mul_pow (hstripped ▸ h)

theorem stripZeros_last (c s : Nat) : (stripZeros c s).2 = 0 ∨ ¬ 10 ∣ (stripZeros c s).1 := by
  fun_induction stripZeros c s with
  | case1 => exact Or.inl rfl
  | case2 c s h ih => exact ih
  | case3 c s h => exact Or.inr fun hdvd => h (Nat.mod_eq_zero_of_dvd hdvd)

theorem stripZeros_of_last {c s : Nat} (h : s = 0 ∨ ¬ 10 ∣ c) : stripZeros c s = (c, s) := by
  cases s with
  | zero => rfl
  | succ s =>
      rw [stripZeros, if_neg]
      exact fun hmod => (h.resolve_left (Nat.succ_ne_zero s)) (Nat.dvd_of_mod_eq_zero hmod)

theorem normalize_last (d : Decimal) :
    d.normalize.scale = 0 ∨ ¬ 10 ∣ d.normalize.coefficient := by
  by_cases hzero : d.coefficient = 0
  · simp [normalize, hzero]
  · simp only [normalize, hzero, if_false]
    exact stripZeros_last ..

theorem normalize_of_coefficient {d : Decimal} (h : d.normalize.coefficient = 0) :
    d.normalize = zero := by
  by_cases hzero : d.coefficient = 0
  · simp [normalize, hzero, zero]
  · simp only [normalize, hzero, if_false] at h
    have hstripped := stripZeros_mul d.coefficient d.scale
    rw [h, Nat.zero_mul] at hstripped
    exact absurd hstripped.symm hzero

end Decimal

namespace Number

theorem trim_of_not_blank {text : List Char} (h : ∀ c ∈ text, Blank.isBlank c = false) :
    Blank.trim text = text := by
  cases text with
  | nil => rfl
  | cons c rest =>
      have hnone : ∀ c ∈ ([] : List Char), Blank.isBlank c = true := nofun
      have htrim := Blank.trim_surrounded hnone hnone h (List.cons_ne_nil c rest)
      rw [List.nil_append, List.append_nil] at htrim
      exact htrim

theorem not_blank_of_digit {c : Char} (h : Literal.isDigit c = true) :
    Blank.isBlank c = false := by
  unfold Literal.isDigit at h
  rw [Bool.and_eq_true, decide_eq_true_eq, decide_eq_true_eq, Char.le_def, Char.le_def,
    UInt32.le_iff_toNat_le, UInt32.le_iff_toNat_le] at h
  have hlow : 48 ≤ c.toNat := h.1
  have hhigh : c.toNat ≤ 57 := h.2
  unfold Blank.isBlank
  simp only [Bool.or_eq_false_iff, Bool.and_eq_false_imp, decide_eq_true_eq,
    decide_eq_false_iff_not, beq_eq_false_iff_ne]
  omega

end Number

namespace Decimal

variable {d : Decimal}

theorem toList_text (d : Decimal) :
    d.text.toList = signText d.normalize.negative ++ d.normalize.digitsText :=
  String.toList_ofList

theorem text_ne_nil (d : Decimal) : d.text.toList ≠ [] := by
  rcases d.normalize.exists_cons_digitsText with ⟨c, rest, hdigits, _⟩
  rw [toList_text, hdigits]
  exact List.append_ne_nil_of_right_ne_nil _ (List.cons_ne_nil c rest)

theorem not_blank_of_mem_text {c : Char} (h : c ∈ d.text.toList) : Blank.isBlank c = false := by
  rw [toList_text] at h
  rcases mem_fullText h with hdigit | rfl | rfl
  · exact Number.not_blank_of_digit hdigit
  · decide
  · decide

theorem trim_text (d : Decimal) : Blank.trim d.text.toList = d.text.toList :=
  Number.trim_of_not_blank fun _ => not_blank_of_mem_text

theorem read?_text (d : Decimal) : Literal.read? d.text.toList = some d.normalize.literal := by
  rw [toList_text]
  exact d.normalize.read?_fullText

end Decimal

namespace Number

variable {d : Decimal} {context : DecimalContext}

theorem parse_of_trim {text : String} (h : context.Keeps d.coefficient)
    (htrim : Blank.trim text.toList = d.text.toList) :
    parse text ⟨.decimal, context⟩ = .ok (.decimal d.normalize) := by
  have hread := Decimal.toDecimal?_literal (Decimal.keeps_normalize h) d.normalize_last
    Decimal.normalize_of_coefficient
  unfold parse
  simp only [htrim, Decimal.read?_text, hread]

/-- The text of a decimal is read as its normal form, if the context keeps its digits. -/
theorem parse_text (h : context.Keeps d.coefficient) :
    parse (text (.decimal d)) ⟨.decimal, context⟩ = .ok (.decimal d.normalize) :=
  parse_of_trim h d.trim_text

end Number
end TreeQuery
