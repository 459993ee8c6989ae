import TreeQuery.Proofs.Numeric.Calculating

/-!
# Libraries of decimals

Arithmetic relies on a library of decimals for a few things only.  Sums,
products and quotients are the exact ones, fitted to a decimal; remainders and
whole neighbours are exact; and a number has one normal form.  The operations of
this development are such a library, and any other one gives the same numbers.
-/

namespace TreeQuery

-- Powers are those of the core library, whatever else is in scope.
attribute [local instance (high)] instPowNat

namespace Decimal

structure Library where
  add : Decimal → Decimal → Option Decimal
  sub : Decimal → Decimal → Option Decimal
  mul : Decimal → Decimal → Option Decimal
  div : Decimal → Decimal → Option Decimal
  rem : Decimal → Decimal → Option Decimal
  floor : Decimal → Decimal
  ceiling : Decimal → Decimal
  normalize : Decimal → Decimal

/-- What is relied on.  Nothing is said about a divisor that is zero. -/
structure Library.Lawful (l : Library) : Prop where
  add (a b : Decimal) : Approximates (a.value + b.value) (l.add a b)
  sub (a b : Decimal) : Approximates (a.value - b.value) (l.sub a b)
  mul (a b : Decimal) : Approximates (a.value * b.value) (l.mul a b)
  div (a : Decimal) {b : Decimal} (hb : b.isZero = false) :
    Approximates (a.value / b.value) (l.div a b)
  -- Both operands are counted in the smallest units that a decimal has.
  rem (a : Decimal) {b : Decimal} (hb : b.isZero = false) :
    ∃ z, l.rem a b = some z ∧ z.unitsAt 28 = (a.unitsAt 28).tmod (b.unitsAt 28)
  floor (d : Decimal) : (l.floor d).value = ⌊d.value⌋
  ceiling (d : Decimal) : (l.ceiling d).value = ⌈d.value⌉
  value_normalize (d : Decimal) : (l.normalize d).value = d.value
  normalize_last (d : Decimal) : (l.normalize d).scale = 0 ∨ ¬ 10 ∣ (l.normalize d).coefficient
  normalize_zero {d : Decimal} (h : (l.normalize d).isZero = true) : l.normalize d = zero

/-!
# Whole numbers
-/

theorem value_toWhole (mode : Rounding) (d : Decimal) :
    (d.toWhole mode).value = mode.whole d.value := by
  have hwhole := whole_sign_mul mode d.negative d.coefficient
    (Nat.pow_pos (by decide) : 0 < 10 ^ d.scale)
  rw [Nat.cast_pow, Nat.cast_ofNat, ← value_eq] at hwhole
  rw [hwhole, value_eq, toWhole, pow_zero, div_one]

def library : Library where
  add := Decimal.add
  sub := Decimal.sub
  mul := Decimal.mul
  div := Decimal.div
  rem := Decimal.rem
  floor := Decimal.floor
  ceiling := Decimal.ceiling
  normalize := Decimal.normalize

theorem lawful_library : library.Lawful where
  add := approximates_add
  sub := approximates_sub
  mul := approximates_mul
  div := approximates_div
  rem _ _ := exists_rem
  floor := value_toWhole .floor
  ceiling := value_toWhole .ceiling
  value_normalize d := beq_iff_value.mp d.normalize_beq
  normalize_last := Decimal.normalize_last
  normalize_zero h := normalize_of_coefficient (beq_iff_eq.mp h)

/-!
# One library like any other
-/

theorem normalize_of_last {d : Decimal} (hlast : d.scale = 0 ∨ ¬ 10 ∣ d.coefficient)
    (hzero : d.isZero = true → d = zero) : d.normalize = d := by
  cases h : d.isZero with
  | true =>
      rw [hzero h]
      rfl
  | false =>
      have hne : d.coefficient ≠ 0 := beq_eq_false_iff_ne.mp h
      cases d
      simp [normalize, hne, stripZeros_of_last hlast]

namespace Library

variable {l l' : Library}

theorem Lawful.normalize_eq (h : l.Lawful) (d : Decimal) : l.normalize d = d.normalize := by
  have hvalue := beq_iff_value.mpr (h.value_normalize d)
  rw [← normalize_of_last (h.normalize_last d) h.normalize_zero]
  exact normalize_congr hvalue

/-- Two libraries differ in nothing but zeros at the end. -/
theorem Lawful.agree (h : l.Lawful) (h' : l'.Lawful) :
    (∀ a b, Agree (l.add a b) (l'.add a b)) ∧ (∀ a b, Agree (l.sub a b) (l'.sub a b)) ∧
      (∀ a b, Agree (l.mul a b) (l'.mul a b)) ∧
      (∀ a b : Decimal, b.isZero = false →
        Agree (l.div a b) (l'.div a b) ∧ Agree (l.rem a b) (l'.rem a b)) ∧
      ∀ d, (l.floor d == l'.floor d) = true ∧ (l.ceiling d == l'.ceiling d) = true ∧
        l.normalize d = l'.normalize d := by
  refine ⟨fun a b => (h.add a b).agree (h'.add a b), fun a b => (h.sub a b).agree (h'.sub a b),
    fun a b => (h.mul a b).agree (h'.mul a b), ?_, ?_⟩
  · intro a b hb
    refine ⟨(h.div a hb).agree (h'.div a hb), ?_⟩
    rcases h.rem a hb with ⟨z, hz, hunits⟩
    rcases h'.rem a hb with ⟨z', hz', hunits'⟩
    rw [hz, hz']
    exact (beq_iff z.scale_le z'.scale_le).mpr (hunits.trans hunits'.symm)
  · intro d
    refine ⟨beq_iff_value.mpr ?_, beq_iff_value.mpr ?_, ?_⟩
    · rw [h.floor, h'.floor]
    · rw [h.ceiling, h'.ceiling]
    · rw [h.normalize_eq, h'.normalize_eq]

end Library
end Decimal

/-!
# Operations on numbers
-/

namespace Number

open Decimal

inductive Operation where
  | add
  | sub
  | mul
  | div
deriving DecidableEq, Repr

namespace Operation

def run : Operation → DecimalContext → Number → Number → Except NumberError Number
  | .add => Number.add
  | .sub => Number.sub
  | .mul => Number.mul
  | .div => Number.div

def exact : Operation → ℚ → ℚ → ℚ
  | .add => (· + ·)
  | .sub => (· - ·)
  | .mul => (· * ·)
  | .div => (· / ·)

def name : Operation → String
  | .add => "addition"
  | .sub => "subtraction"
  | .mul => "multiplication"
  | .div => "division"

def double : Operation → Double → Double → Double
  | .add => Double.add
  | .sub => Double.sub
  | .mul => Double.mul
  | .div => Double.div

def fitted (l : Library) : Operation → Decimal → Decimal → Option Decimal
  | .add => l.add
  | .sub => l.sub
  | .mul => l.mul
  | .div => l.div

variable {l : Library} {a b : Decimal}

theorem approximates_fitted (h : l.Lawful) (operation : Operation)
    (hb : operation = .div → b.isZero = false) :
    Approximates (operation.exact a.value b.value) (operation.fitted l a b) := by
  cases operation with
  | add => exact h.add a b
  | sub => exact h.sub a b
  | mul => exact h.mul a b
  | div => exact h.div a (hb rfl)

theorem run_eq (operation : Operation) (context : DecimalContext)
    (hb : operation = .div → b.isZero = false) :
    operation.run context (.decimal a) (.decimal b) =
      combine context operation.name (operation.fitted library) operation.double
        (.decimal a) (.decimal b) := by
  cases operation with
  | add => rfl
  | sub => rfl
  | mul => rfl
  | div =>
      show Number.div context (.decimal a) (.decimal b) = _
      rw [Number.div, dividesByZero, hb rfl, if_neg Bool.false_ne_true]
      rfl

/-- Over any library the exact result is rounded once wherever it is a decimal itself, and misses by
one unit at most otherwise. -/
theorem combine_rounds (h : l.Lawful) (operation : Operation) (context : DecimalContext)
    (hprecision : 1 ≤ context.precision) (hb : operation = .div → b.isZero = false) :
    let x := operation.exact a.value b.value
    let unit := digitUnit (min context.precision 28) x
    let y := context.rounding.toMultiple unit x
    let result := combine context operation.name (operation.fitted l) operation.double
      (.decimal a) (.decimal b)
    Representable y →
      (Representable x → ∃ d, result = .ok (.decimal d) ∧ d.value = y) ∧
      ((∃ d, result = .ok (.decimal d) ∧ |d.value - y| ≤ unit) ∨
        result = .error (.overflow operation.name) ∧ 2 ^ 96 - 1 / 2 ≤ |x|) := by
  intro x unit y result hy
  have hne : context.precision ≠ 0 := Nat.ne_of_gt hprecision
  have hdigits : context.significantDigits = min context.precision 28 := by
    rw [DecimalContext.significantDigits, if_neg hne, DecimalContext.maxPrecision]
  have happroximates : Approximates x (operation.fitted l a b) :=
    operation.approximates_fitted h hb
  have hsome : ∀ {z : Decimal}, operation.fitted l a b = some z →
      result = .ok (.decimal (context.round z)) := by
    intro z hz
    simp only [result, combine, hz]
  constructor
  · intro hx
    rcases happroximates.exact hx with ⟨z, hz, hvalue⟩
    refine ⟨context.round z, hsome hz, ?_⟩
    rw [value_round_of_exact hne, hvalue, hdigits]
    rw [hvalue, hdigits]
    exact hy
  · rcases happroximates.cases with ⟨z, hz, t, hvalue, ht⟩ | ⟨hnone, hlarge⟩
    · refine Or.inl ⟨context.round z, hsome hz, ?_⟩
      have hround := abs_value_round_sub hne hvalue ht (by rw [hdigits]; exact hy)
      rw [hdigits] at hround
      exact hround
    · refine Or.inr ⟨?_, hlarge⟩
      simp only [result, combine, hnone]

/-- The exact result is rounded once wherever it is a decimal itself.  Otherwise the result is at
most one unit in the last digit away from that, and there is none only beyond the largest
decimal. -/
theorem run_rounds (operation : Operation) (context : DecimalContext) (a b : Decimal)
    (hprecision : 1 ≤ context.precision) (hb : operation = .div → b.isZero = false) :
    let x := operation.exact a.value b.value
    let unit := digitUnit (min context.precision 28) x
    let y := context.rounding.toMultiple unit x
    Representable y →
      (Representable x →
        ∃ d, operation.run context (.decimal a) (.decimal b) = .ok (.decimal d) ∧ d.value = y) ∧
      ((∃ d, operation.run context (.decimal a) (.decimal b) = .ok (.decimal d) ∧
          |d.value - y| ≤ unit) ∨
        operation.run context (.decimal a) (.decimal b) = .error (.overflow operation.name) ∧
          2 ^ 96 - 1 / 2 ≤ |x|) := by
  rw [operation.run_eq context hb]
  exact operation.combine_rounds lawful_library context hprecision hb

/-- Seven eighths below zero, to two digits. -/
theorem run_rounds_eighths :
    let a : Decimal := ⟨true, 7, 0, by decide, by decide⟩
    let b : Decimal := ⟨false, 8, 0, by decide, by decide⟩
    let context : DecimalContext := ⟨2, .floor⟩
    let x := Operation.div.exact a.value b.value
    let y := context.rounding.toMultiple (digitUnit (min context.precision 28) x) x
    1 ≤ context.precision ∧ b.isZero = false ∧ Representable y ∧ Representable x ∧
      ∃ d, Operation.div.run context (.decimal a) (.decimal b) = .ok (.decimal d) ∧ d.value = y ∧
        d.value = -88 / 100 := by
  intro a b context x y
  have hx : x = -7 / 8 := by
    norm_num [x, a, b, exact, Decimal.value, Decimal.signed]
  have hunit : digitUnit (min context.precision 28) x = 1 / 100 := by
    have hlow : (10 : ℚ) ^ (-1 : ℤ) ≤ |-7 / 8| := by norm_num [abs_div]
    have hhigh : |-7 / 8| < (10 : ℚ) ^ (-1 + 1 : ℤ) := by norm_num [abs_div]
    rw [hx, digitUnit_eq _ hlow hhigh]
    norm_num [context]
  have hy : y = -88 / 100 := by
    have hfloor : ⌊(-7 / 8 / (1 / 100) : ℚ)⌋ = -88 := by
      rw [Int.floor_eq_iff]
      norm_num
    show (⌊x / digitUnit (min context.precision 28) x⌋ : ℚ) * _ = _
    rw [hunit, hx, hfloor]
    norm_num
  have hrepresentable : Representable y :=
    ⟨⟨true, 88, 2, by decide, by decide⟩, by norm_num [hy, Decimal.value, Decimal.signed]⟩
  have hexact : Representable x :=
    ⟨⟨true, 875, 3, by decide, by decide⟩, by norm_num [hx, Decimal.value, Decimal.signed]⟩
  have hrounds := run_rounds .div context a b (by decide) (fun _ => by decide) hrepresentable
  rcases hrounds.1 hexact with ⟨d, hd, hvalue⟩
  exact ⟨by decide, by decide, hrepresentable, hexact, d, hd, hvalue, hvalue.trans hy⟩

/-- Two thirds toward zero are taken for more than they are: they were rounded up before. -/
theorem run_thirds_up :
    let a : Decimal := ⟨false, 2, 0, by decide, by decide⟩
    let b : Decimal := ⟨false, 3, 0, by decide, by decide⟩
    let context : DecimalContext := ⟨28, .down⟩
    let x := Operation.div.exact a.value b.value
    let y := context.rounding.toMultiple (digitUnit (min context.precision 28) x) x
    Representable y ∧ y = 6666666666666666666666666666 / 10 ^ 28 ∧
      ∃ d, Operation.div.run context (.decimal a) (.decimal b) = .ok (.decimal d) ∧
        d.value = 6666666666666666666666666667 / 10 ^ 28 ∧ d.value ≠ y := by
  intro a b context x y
  have hx : x = 2 / 3 := by
    norm_num [x, a, b, exact, Decimal.value, Decimal.signed]
  have hunit : digitUnit (min context.precision 28) x = 1 / 10 ^ 28 := by
    have hlow : (10 : ℚ) ^ (-1 : ℤ) ≤ |2 / 3| := by norm_num [abs_div]
    have hhigh : |2 / 3| < (10 : ℚ) ^ (-1 + 1 : ℤ) := by norm_num [abs_div]
    rw [hx, digitUnit_eq _ hlow hhigh]
    norm_num [context]
  have hy : y = 6666666666666666666666666666 / 10 ^ 28 := by
    have hfloor : ⌊(2 / 3 / (1 / 10 ^ 28) : ℚ)⌋ = 6666666666666666666666666666 := by
      rw [Int.floor_eq_iff]
      norm_num
    show (Rounding.inward (x / digitUnit (min context.precision 28) x) : ℚ) * _ = _
    rw [hunit, hx, Rounding.inward, if_pos (by norm_num), hfloor]
    norm_num
  let z : Decimal := ⟨false, 6666666666666666666666666667, 28, by decide, by decide⟩
  have hfitted : Operation.div.fitted library a b = some z := by decide +kernel
  have hround : context.round z = z := by decide +kernel
  have hrun : Operation.div.run context (.decimal a) (.decimal b) = .ok (.decimal z) := by
    rw [run_eq .div context fun _ => rfl]
    simp only [combine, hfitted, hround]
  have hrepresentable : Representable y :=
    ⟨⟨false, 6666666666666666666666666666, 28, by decide, by decide⟩,
      by norm_num [hy, Decimal.value, Decimal.signed]⟩
  refine ⟨hrepresentable, hy, z, hrun, ?_, ?_⟩
  · norm_num [z, Decimal.value, Decimal.signed]
  · norm_num [hy, z, Decimal.value, Decimal.signed]

end Operation
end Number
end TreeQuery
