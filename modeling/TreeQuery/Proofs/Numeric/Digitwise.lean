import TreeQuery.Proofs.Numeric.Rows

/-!
# Rounding digit by digit

A literal is rounded on its row of digits: the row is cut, the last digit that
stays may go up and carry, and the row is written and read again.  On numbers
that is a quotient by a power of ten.
-/

namespace TreeQuery

-- Powers are those of the core library, whatever else is in scope.
attribute [local instance (high)] instPowNat

namespace DigitRow

/-!
# The number of a row
-/

def Plain (digits : List Nat) : Prop :=
  ∀ d ∈ digits, d < 10

def number (digits : List Nat) : Nat :=
  Digits.read (digits.map Digits.digit)

variable {digits xs ys : List Nat} {d : Nat}

theorem plain_append_iff : Plain (xs ++ ys) ↔ Plain xs ∧ Plain ys :=
  List.forall_mem_append

theorem plain_cons_iff : Plain (d :: xs) ↔ d < 10 ∧ Plain xs :=
  List.forall_mem_cons

theorem number_append (xs ys : List Nat) :
    number (xs ++ ys) = number xs * 10 ^ ys.length + number ys := by
  rw [number, List.map_append, Digits.read_append, List.length_map]
  rfl

theorem number_cons (hd : d < 10) (xs : List Nat) :
    number (d :: xs) = d * 10 ^ xs.length + number xs := by
  rw [number, List.map_cons, Digits.read_cons, Digits.value_digit, Nat.mod_eq_of_lt hd,
    List.length_map]
  rfl

theorem number_concat (hd : d < 10) (xs : List Nat) :
    number (xs ++ [d]) = number xs * 10 + d := by
  rw [number_append, number_cons hd, List.length_singleton, List.length_nil, Nat.pow_one,
    Nat.pow_zero, Nat.mul_one]
  rfl

theorem number_zeros (count : Nat) : number (List.replicate count 0) = 0 := by
  rw [number, List.map_replicate]
  exact Digits.read_zeros count

theorem number_lt (digits : List Nat) : number digits < 10 ^ digits.length := by
  rw [← List.length_map Digits.digit]
  apply Digits.read_lt
  intro c hc
  rcases List.mem_map.mp hc with ⟨d, _, rfl⟩
  exact Digits.isDigit_digit d

theorem number_eq_zero_iff (h : Plain digits) : number digits = 0 ↔ ∀ d ∈ digits, d = 0 := by
  induction digits with
  | nil => exact iff_of_true rfl (List.forall_mem_nil _)
  | cons d digits ih =>
      rcases plain_cons_iff.mp h with ⟨hd, hdigits⟩
      rw [number_cons hd, Nat.add_eq_zero_iff, ih hdigits, List.forall_mem_cons,
        Nat.mul_eq_zero, or_iff_left (Nat.ne_of_gt (Nat.pow_pos (by decide)))]

theorem count_number {lead : Nat} (h : Plain digits)
    (hlead : digits.findIdx? (· != 0) = some lead) :
    Digits.count (number digits) + lead = digits.length := by
  -- The digits from the first one on that is not zero are those of the written number.
  induction digits generalizing lead with
  | nil => cases hlead
  | cons d digits ih =>
      rcases plain_cons_iff.mp h with ⟨hd, hdigits⟩
      have hlt := number_lt digits
      rw [List.findIdx?_cons] at hlead
      rw [number_cons hd, List.length_cons]
      split at hlead
      · rename_i hne
        cases hlead
        have hfirst : 1 * 10 ^ digits.length ≤ d * 10 ^ digits.length :=
          Nat.mul_le_mul_right _ (Nat.pos_of_ne_zero (bne_iff_ne.mp hne))
        have hlast : d * 10 ^ digits.length ≤ 9 * 10 ^ digits.length :=
          Nat.mul_le_mul_right _ (Nat.le_of_lt_succ hd)
        apply Digits.count_eq
        · omega
        · rw [Nat.pow_succ]
          omega
      · rename_i hzero
        rcases Option.map_eq_some_iff.mp hlead with ⟨rest, hrest, rfl⟩
        have hnone : d = 0 := by simpa using hzero
        rw [hnone, Nat.zero_mul, Nat.zero_add, ← ih hdigits hrest, Nat.add_assoc]

/-!
# Raising the last digit
-/

theorem number_carry (h : Plain digits) :
    Plain (carry digits).1 ∧ (carry digits).1.length = digits.length ∧
      number (carry digits).1.reverse + (carry digits).2.toNat * 10 ^ digits.length =
        number digits.reverse + 1 := by
  induction digits with
  | nil => exact ⟨List.forall_mem_nil _, rfl, rfl⟩
  | cons d digits ih =>
      rcases plain_cons_iff.mp h with ⟨hd, hdigits⟩
      rcases ih hdigits with ⟨hplain, hlength, hnumber⟩
      rw [List.reverse_cons, number_concat hd, List.length_cons]
      by_cases hnine : d = 9
      · rw [carry, if_pos hnine]
        dsimp only
        rw [List.reverse_cons, number_concat (by decide), Nat.pow_succ, ← Nat.mul_assoc,
          List.length_cons, hlength]
        exact ⟨plain_cons_iff.mpr ⟨by decide, hplain⟩, rfl, by omega⟩
      · have hsucc : d + 1 < 10 := by omega
        rw [carry, if_neg hnine]
        dsimp only
        rw [List.reverse_cons, number_concat hsucc, Bool.toNat_false, Nat.zero_mul]
        exact ⟨plain_cons_iff.mpr ⟨hsucc, hdigits⟩, rfl, rfl⟩

theorem plain_reverse (h : Plain digits) : Plain digits.reverse :=
  fun d hd => h d (List.mem_reverse.mp hd)

theorem number_increment (h : Plain digits) :
    Plain (increment digits).1 ∧ (increment digits).1.length = digits.length ∧
      number (increment digits).1 + (increment digits).2.toNat * 10 ^ digits.length =
        number digits + 1 := by
  have hcarry := number_carry (plain_reverse h)
  rw [List.length_reverse, List.reverse_reverse] at hcarry
  rcases hcarry with ⟨hplain, hlength, hnumber⟩
  unfold increment
  dsimp only
  rw [List.length_reverse]
  exact ⟨plain_reverse hplain, hlength, hnumber⟩

theorem number_raise (h : Plain digits) (whole : Nat) :
    Plain (raise digits whole).digits ∧
      number (raise digits whole).digits = number digits + 1 ∧
      (raise digits whole).digits.length + whole =
        digits.length + (raise digits whole).whole := by
  -- A raised row spells the next number; if it becomes longer, then in front of the point.
  rcases number_increment h with ⟨hplain, hlength, hnumber⟩
  unfold raise
  cases hcarried : increment digits with
  | mk raised carried =>
      rw [hcarried] at hplain hlength hnumber
      cases carried with
      | true =>
          have hone : number (1 :: raised) = number digits + 1 := by
            rw [number_cons (by decide), Nat.add_comm, hlength]
            exact hnumber
          refine ⟨plain_cons_iff.mpr ⟨by decide, hplain⟩, hone, ?_⟩
          show raised.length + 1 + whole = digits.length + (whole + 1)
          dsimp only at hlength
          omega
      | false =>
          rw [Bool.toNat_false, Nat.zero_mul, Nat.add_zero] at hnumber
          refine ⟨hplain, hnumber, ?_⟩
          show raised.length + whole = digits.length + whole
          rw [hlength]

end DigitRow

/-!
# Whether the last digit is raised

The first digit that is given up tells on which side of the middle the rest of
the number is.
-/

namespace Rounding

variable {rest unit : Nat}

theorem half_le_iff (first : Nat) (hrest : rest < unit) :
    10 * unit ≤ 2 * (first * unit + rest) ↔ 5 ≤ first := by
  constructor
  · intro hhalf
    rcases Nat.lt_or_ge first 5 with hlt | hge
    · have hfirst : first * unit ≤ 4 * unit := Nat.mul_le_mul_right unit (Nat.le_of_lt_succ hlt)
      omega
    · exact hge
  · intro hle
    have hfirst : 5 * unit ≤ first * unit := Nat.mul_le_mul_right unit hle
    omega

theorem half_eq_iff (first : Nat) (hrest : rest < unit) :
    10 * unit = 2 * (first * unit + rest) ↔ first = 5 ∧ rest = 0 := by
  constructor
  · intro hhalf
    have hle : 5 ≤ first := (half_le_iff first hrest).mp (Nat.le_of_eq hhalf)
    have hfirst : 5 * unit ≤ first * unit := Nat.mul_le_mul_right unit hle
    have hfive : first * unit = 5 * unit := by omega
    exact ⟨Nat.eq_of_mul_eq_mul_right (Nat.zero_lt_of_lt hrest) hfive, by omega⟩
  · rintro ⟨rfl, rfl⟩
    omega

theorem half_lt_iff (first : Nat) (hrest : rest < unit) :
    10 * unit < 2 * (first * unit + rest) ↔ 5 < first ∨ first = 5 ∧ rest ≠ 0 := by
  have hle := half_le_iff first hrest
  have heq := half_eq_iff first hrest
  omega

end Rounding

namespace DecimalContext

variable {first rest unit : Nat}

/-- On the digits the same is decided as on the quotient. -/
theorem roundsUp_eq (context : DecimalContext) (negative : Bool) (kept : Nat) (hfirst : first < 10)
    (hrest : rest < unit) :
    context.roundsUp negative (kept % 2 == 1) first (rest != 0) =
      context.rounding.raises negative (kept * (10 * unit) + (first * unit + rest))
        (10 * unit) := by
  have hlt : first * unit + rest < 10 * unit := by
    have hle : first * unit ≤ 9 * unit := Nat.mul_le_mul_right unit (Nat.le_of_lt_succ hfirst)
    omega
  have hmod : (kept * (10 * unit) + (first * unit + rest)) % (10 * unit) = first * unit + rest := by
    rw [Nat.add_comm, Nat.add_mul_mod_self_right, Nat.mod_eq_of_lt hlt]
  have hdiv : (kept * (10 * unit) + (first * unit + rest)) / (10 * unit) = kept := by
    rw [Nat.add_comm, Nat.add_mul_div_right _ _ (by omega), Nat.div_eq_of_lt hlt, Nat.zero_add]
  have hdiscarded : (first * unit + rest != 0) = (first != 0 || rest != 0) := by
    rw [Bool.eq_iff_iff, Bool.or_eq_true, bne_iff_ne, bne_iff_ne, bne_iff_ne, Ne,
      Nat.add_eq_zero_iff, Nat.mul_eq_zero]
    omega
  unfold roundsUp Rounding.raises
  rw [hmod, hdiv, hdiscarded]
  cases context.rounding with
  | up => rfl
  | down => rfl
  | ceiling => rfl
  | floor => rfl
  | halfUp => exact decide_eq_decide.mpr (Rounding.half_le_iff first hrest).symm
  | halfDown =>
      rw [Bool.eq_iff_iff, decide_eq_true_eq, Rounding.half_lt_iff first hrest, Bool.or_eq_true,
        Bool.and_eq_true, decide_eq_true_eq, beq_iff_eq, bne_iff_ne]
  | halfEven =>
      rw [Bool.eq_iff_iff]
      simp only [Bool.or_eq_true, Bool.and_eq_true, decide_eq_true_eq, beq_iff_eq, bne_iff_ne,
        Rounding.half_lt_iff first hrest, Rounding.half_eq_iff first hrest]
      omega

theorem quotient_digits (context : DecimalContext) (negative : Bool) (kept : Nat)
    (hfirst : first < 10) (hrest : rest < unit) :
    context.rounding.quotient negative (kept * (10 * unit) + (first * unit + rest)) (10 * unit) =
      if context.roundsUp negative (kept % 2 == 1) first (rest != 0) then kept + 1 else kept := by
  have hlt : first * unit + rest < 10 * unit := by
    have hle : first * unit ≤ 9 * unit := Nat.mul_le_mul_right unit (Nat.le_of_lt_succ hfirst)
    omega
  have hdiv : (kept * (10 * unit) + (first * unit + rest)) / (10 * unit) = kept := by
    rw [Nat.add_comm, Nat.add_mul_div_right _ _ (by omega), Nat.div_eq_of_lt hlt, Nat.zero_add]
  rw [Rounding.quotient, hdiv, roundsUp_eq context negative kept hfirst hrest]

end DecimalContext

namespace DigitRow

variable {digits : List Nat}

/-!
# Cutting a row
-/

theorem any_ne_zero (h : Plain digits) : digits.any (· != 0) = (number digits != 0) := by
  rw [Bool.eq_iff_iff, bne_iff_ne, Ne, number_eq_zero_iff h, List.any_eq_true]
  constructor
  · rintro ⟨d, hd, hne⟩ hzero
    exact bne_iff_ne.mp hne (hzero d hd)
  · intro hsome
    rcases Classical.not_forall.mp hsome with ⟨d, hd⟩
    rcases Classical.not_imp.mp hd with ⟨hmem, hne⟩
    exact ⟨d, hmem, bne_iff_ne.mpr hne⟩

theorem all_eq_zero (h : Plain digits) : digits.all (· == 0) = (number digits == 0) := by
  rw [Bool.eq_iff_iff, beq_iff_eq, number_eq_zero_iff h, List.all_eq_true]
  exact forall_congr' fun d => imp_congr_right fun _ => beq_iff_eq

theorem lastOdd_eq (h : Plain digits) :
    digits.getLast?.any (· % 2 == 1) = (number digits % 2 == 1) := by
  rcases List.eq_nil_or_concat digits with rfl | ⟨front, d, rfl⟩
  · rfl
  · rw [List.concat_eq_append] at h ⊢
    have hd : d < 10 := h d (List.mem_append_right front (List.mem_singleton_self d))
    rw [List.getLast?_concat, number_concat hd]
    show (d % 2 == 1) = _
    congr 1
    omega

/-- A row that was cut spells the quotient by a power of ten.  It gets longer in front of the point
only, and shorter by what was given up. -/
theorem number_cut {row : DigitRow} (h : Plain row.digits) (context : DecimalContext)
    (negative : Bool) (keep : Nat) :
    let dropped := row.digits.length - keep
    let result := row.cut context negative keep
    Plain result.digits ∧
      number result.digits =
        context.rounding.quotient negative (number row.digits) (10 ^ dropped) ∧
      result.digits.length + dropped + row.whole = row.digits.length + result.whole := by
  intro dropped result
  cases hdrop : row.digits.drop keep with
  | nil =>
      have hle := List.drop_eq_nil_iff.mp hdrop
      have hdropped : dropped = 0 := Nat.sub_eq_zero_of_le hle
      have hresult : result = row := by
        show row.cut context negative keep = row
        rw [cut, hdrop]
      rw [hresult, hdropped, Nat.pow_zero, Rounding.quotient_one]
      exact ⟨h, rfl, rfl⟩
  | cons first rest =>
      have hsplit : row.digits = row.digits.take keep ++ first :: rest := by
        rw [← hdrop, List.take_append_drop]
      have hdropped : dropped = rest.length + 1 := by
        show row.digits.length - keep = _
        rw [← List.length_drop, hdrop, List.length_cons]
      have hresult : result = row.cut context negative keep := rfl
      unfold cut at hresult
      rw [hdrop] at hresult
      dsimp only at hresult
      generalize row.digits.take keep = kept at hsplit hresult
      rw [hsplit] at h ⊢
      rcases plain_append_iff.mp h with ⟨hkept, hlost⟩
      rcases plain_cons_iff.mp hlost with ⟨hfirst, hrest⟩
      rw [hdropped, number_append, number_cons hfirst, List.length_append, List.length_cons,
        Nat.pow_succ', context.quotient_digits negative _ hfirst (number_lt rest),
        ← any_ne_zero hrest, ← lastOdd_eq hkept, hresult]
      split
      · rcases number_raise hkept row.whole with ⟨hplain, hnumber, hlength⟩
        exact ⟨hplain, hnumber, by omega⟩
      · exact ⟨hkept, rfl, rfl⟩

/-!
# Writing a row and reading it again
-/

theorem isDigit_of_mem_map {c : Char} (hc : c ∈ digits.map Digits.digit) :
    Literal.isDigit c = true := by
  rcases List.mem_map.mp hc with ⟨d, _, rfl⟩
  exact Digits.isDigit_digit d

theorem number_padded (row : DigitRow) :
    number row.padded.digits = number row.digits * 10 ^ (row.whole - row.digits.length) ∧
      row.padded.digits.length = max row.digits.length row.whole := by
  unfold padded
  rw [number_append, number_zeros, List.length_append, List.length_replicate]
  exact ⟨rfl, by omega⟩

def wholeText (row : DigitRow) : List Char :=
  if (row.digits.take row.whole).isEmpty then ['0']
  else (row.digits.take row.whole).map Digits.digit

def fractionText (row : DigitRow) : List Char :=
  (row.digits.drop row.whole).map Digits.digit

theorem read_wholeText (row : DigitRow) :
    Digits.read row.wholeText = number (row.digits.take row.whole) := by
  unfold wholeText
  split
  · rename_i hempty
    rw [List.isEmpty_iff.mp hempty]
    rfl
  · rfl

theorem isDigit_of_mem_wholeText {row : DigitRow} {c : Char} (hc : c ∈ row.wholeText) :
    Literal.isDigit c = true := by
  unfold wholeText at hc
  split at hc
  · rw [List.mem_singleton.mp hc]
    decide
  · exact isDigit_of_mem_map hc

theorem wholeText_ne_nil (row : DigitRow) : row.wholeText ≠ [] := by
  unfold wholeText
  split
  · exact List.cons_ne_nil _ _
  · rename_i hempty
    intro hnil
    rw [List.map_eq_nil_iff.mp hnil] at hempty
    exact hempty rfl

theorem split_text (row : DigitRow) :
    Literal.split (row.wholeText ++
        if (row.digits.drop row.whole).isEmpty then [] else '.' :: row.fractionText) =
      (row.wholeText, row.fractionText) := by
  have hwhole : ∀ c ∈ row.wholeText, Literal.isDigit c = true := fun _ =>
    isDigit_of_mem_wholeText
  split
  · rename_i hempty
    rw [List.append_nil, Literal.split_of_digits hwhole, fractionText, List.isEmpty_iff.mp hempty,
      List.map_nil]
  · exact Literal.split_of_point hwhole

theorem read?_text (row : DigitRow) (negative : Bool) :
    Literal.read? (row.text negative) = some ⟨negative, row.wholeText, row.fractionText⟩ := by
  have hdigits : ∀ c ∈ row.wholeText ++ row.fractionText, Literal.isDigit c = true := fun c hc =>
    (List.mem_append.mp hc).elim isDigit_of_mem_wholeText isDigit_of_mem_map
  have hne : row.wholeText ++ row.fractionText ≠ [] :=
    List.append_ne_nil_of_left_ne_nil row.wholeText_ne_nil _
  have hread := Literal.unsigned?_of_split row.split_text hdigits hne negative
  have htext : row.text negative = Decimal.signText negative ++ (row.wholeText ++
      if (row.digits.drop row.whole).isEmpty then [] else '.' :: row.fractionText) :=
    List.append_assoc ..
  rcases List.exists_cons_of_ne_nil row.wholeText_ne_nil with ⟨c, rest, hcons⟩
  have hmem : c ∈ row.wholeText := by
    rw [hcons]
    exact List.mem_cons_self
  rw [htext]
  rw [hcons, List.cons_append] at hread ⊢
  rw [Literal.read?_signText negative (Or.inl (isDigit_of_mem_wholeText hmem))]
  exact hread

theorem ofText?_text (row : DigitRow) (negative : Bool) :
    Decimal.ofText? (row.text negative) =
      Decimal.ofParts? negative (number row.digits) (row.digits.length - row.whole) := by
  have hcoefficient : Literal.coefficient ⟨negative, row.wholeText, row.fractionText⟩ =
      number row.digits := by
    have hsplit := number_append (row.digits.take row.whole) (row.digits.drop row.whole)
    rw [List.take_append_drop] at hsplit
    rw [hsplit, Literal.coefficient, Digits.read_append, read_wholeText, fractionText,
      List.length_map]
    rfl
  have hfraction : row.fractionText.length = row.digits.length - row.whole := by
    rw [fractionText, List.length_map, List.length_drop]
  rw [Decimal.ofText?, read?_text, Option.bind_some, hcoefficient, hfraction]

/-!
# The row of a literal
-/

theorem number_ofLiteral {l : Literal}
    (h : ∀ c ∈ l.whole ++ l.fraction, Literal.isDigit c = true) :
    Plain (ofLiteral l).digits ∧ number (ofLiteral l).digits = l.coefficient ∧
      (ofLiteral l).digits.length = (ofLiteral l).whole + l.fraction.length := by
  have hdigits : ∀ c ∈ l.whole.dropWhile (· == '0') ++ l.fraction,
      Literal.isDigit c = true := by
    intro c hc
    apply h
    rcases List.mem_append.mp hc with hc | hc
    · exact List.mem_append_left _ (List.dropWhile_subset _ hc)
    · exact List.mem_append_right _ hc
  unfold ofLiteral
  dsimp only
  refine ⟨?_, ?_, ?_⟩
  · intro d hd
    rcases List.mem_map.mp hd with ⟨c, hc, rfl⟩
    exact Nat.lt_succ_of_le (Digits.value_le (hdigits c hc))
  · have hmap := List.map_congr_left fun c hc => Digits.digit_value (hdigits c hc)
    rw [number, List.map_map]
    rw [List.map_id'] at hmap
    show Digits.read (List.map (fun c => Digits.digit (Digits.value c)) _) = _
    rw [hmap, Digits.read_append, Digits.read_dropWhile, Literal.coefficient, Digits.read_append]
  · rw [List.length_map, List.length_append]

end DigitRow

/-!
# Literals
-/

namespace Literal

/-- How many digits at the end are given up, so that the significant digits are those the
context keeps and at most 28 of the others stand after the point. -/
def excess (l : Literal) (context : DecimalContext) : Nat :=
  max (Digits.count l.coefficient - context.significantDigits)
    (l.fraction.length - Decimal.maxScale)

/-- The literal as a number, rounded to a whole number of its last units. -/
def quotient? (l : Literal) (context : DecimalContext) : Option Decimal :=
  let dropped := l.excess context
  let kept := context.rounding.quotient l.negative l.coefficient (10 ^ dropped)
  if kept = 0 then
    some Decimal.zero
  else
    Decimal.ofParts? l.negative (kept * 10 ^ (dropped - l.fraction.length))
      (l.fraction.length - dropped)

variable {l : Literal} {context : DecimalContext}

/-- On digits a literal gives the same decimal as on numbers. -/
theorem toDecimal?_eq_quotient? (h : ∀ c ∈ l.whole ++ l.fraction, isDigit c = true)
    (context : DecimalContext) : l.toDecimal? context = l.quotient? context := by
  rcases DigitRow.number_ofLiteral h with ⟨hplain, hnumber, hlength⟩
  unfold toDecimal? quotient?
  dsimp only
  rw [← hnumber]
  generalize DigitRow.ofLiteral l = row at hplain hnumber hlength
  cases hlead : row.digits.findIdx? (· != 0) with
  | none =>
      have hzero : DigitRow.number row.digits = 0 := by
        rw [DigitRow.number_eq_zero_iff hplain]
        intro d hd
        simpa using List.findIdx?_eq_none_iff.mp hlead d hd
      have hkept := context.rounding.quotient_le l.negative (n := DigitRow.number row.digits)
        (Nat.pow_pos (by decide) : 0 < 10 ^ l.excess context)
      rw [if_pos (by omega)]
  | some lead =>
      have hcount := DigitRow.count_number hplain hlead
      have hexcess : row.digits.length - row.keep context lead = l.excess context := by
        unfold DigitRow.keep excess DecimalContext.maxPrecision Decimal.maxScale
        rw [← hnumber]
        omega
      rcases DigitRow.number_cut hplain context l.negative (row.keep context lead) with
        ⟨hcut, hquotient, hshorter⟩
      rw [hexcess] at hquotient hshorter
      dsimp only
      generalize row.cut context l.negative (row.keep context lead) = result at *
      rcases result.number_padded with ⟨hpadded, hreaches⟩
      have hzeros : result.whole - result.digits.length = l.excess context - l.fraction.length := by
        omega
      have hscale : max result.digits.length result.whole - result.whole =
          l.fraction.length - l.excess context := by
        omega
      rw [DigitRow.all_eq_zero hcut, DigitRow.ofText?_text, hpadded, hreaches, ← hquotient, hzeros]
      show (if _ then _ else Decimal.ofParts? _ _ (max _ _ - result.whole)) = _
      rw [hscale]
      simp only [beq_iff_eq]

end Literal
end TreeQuery
