import TreeQuery.Numeric.Rounding
import TreeQuery.Numeric.Digits

/-!
# Decimals

A decimal is a sign, a coefficient of at most 96 bits and a scale, the number
of digits after the point, of at most 28.  Both bounds are part of the type, so
every operation has to say what it does with a result that does not fit.
-/

namespace TreeQuery

-- Powers are those of the core library, whatever else is in scope.
attribute [local instance (high)] instPowNat

structure Decimal where
  negative : Bool
  coefficient : Nat
  scale : Nat
  coefficient_lt : coefficient < 2 ^ (96 : Nat)
  scale_le : scale ≤ 28
deriving DecidableEq, Repr

namespace Decimal

def maxScale : Nat := 28

def zero : Decimal := ⟨false, 0, 0, by omega, by omega⟩

instance : Inhabited Decimal := ⟨zero⟩

/-- The decimal with these parts, when they are within bounds. -/
def ofParts? (negative : Bool) (coefficient scale : Nat) : Option Decimal :=
  if h : coefficient < 2 ^ (96 : Nat) ∧ scale ≤ 28 then
    some ⟨negative, coefficient, scale, h.1, h.2⟩
  else
    none

theorem ofParts?_eq_some_iff {negative : Bool} {coefficient scale : Nat} {d : Decimal} :
    ofParts? negative coefficient scale = some d ↔
      d.negative = negative ∧ d.coefficient = coefficient ∧ d.scale = scale := by
  unfold ofParts?
  split
  · rename_i h
    constructor
    · intro hd
      cases hd
      exact ⟨rfl, rfl, rfl⟩
    · rintro ⟨rfl, rfl, rfl⟩
      rfl
  · rename_i h
    constructor
    · intro hd
      cases hd
    · rintro ⟨rfl, rfl, rfl⟩
      exact absurd ⟨d.coefficient_lt, d.scale_le⟩ h

def ofInt64 (n : Int64) : Decimal where
  negative := n.toInt < 0
  coefficient := n.toInt.natAbs
  scale := 0
  coefficient_lt := by
    have h₁ := n.le_toInt
    have h₂ := n.toInt_lt
    omega
  scale_le := by omega

def isZero (d : Decimal) : Bool :=
  d.coefficient == 0

def signed (d : Decimal) : Int :=
  if d.negative then -(d.coefficient : Int) else d.coefficient

/-- The signed count of units of size `10⁻ˢ`, for a scale `s` not below the decimal's own. -/
def unitsAt (d : Decimal) (s : Nat) : Int :=
  d.signed * 10 ^ (s - d.scale)

def negate (d : Decimal) : Decimal :=
  { d with negative := !d.negative }

def abs (d : Decimal) : Decimal :=
  { d with negative := false }

/-!
# Order

Two decimals are compared by value, at the larger of their scales, so that
`1.5` and `1.50` are the same number.
-/

def compare (a b : Decimal) : Ordering :=
  let s := max a.scale b.scale
  Ord.compare (a.unitsAt s) (b.unitsAt s)

instance : BEq Decimal where
  beq a b := a.compare b == .eq

/-!
# Fitting an exact quotient

The exact result of an operation is a quotient of natural numbers.  It is
written with as many digits after the point as the coefficient has room for,
the last one rounded once to the even neighbour.
-/

/-- `n / d` rounded to a coefficient at scale `s`. -/
def coefficientAt (n d s : Nat) : Nat :=
  Rounding.halfEven.quotient false (n * 10 ^ s) d

/-- The quotient `n / d` at the largest scale, of at most `s`, whose coefficient fits. -/
def fit? (negative : Bool) (n d : Nat) : Nat → Option Decimal
  | 0 => ofParts? negative (coefficientAt n d 0) 0
  | s + 1 =>
      match ofParts? negative (coefficientAt n d (s + 1)) (s + 1) with
      | some result => some result
      | none => fit? negative n d s

/-- Takes zeros off the end of the digits after the point. -/
def stripZeros : (coefficient scale : Nat) → Nat × Nat
  | c, 0 => (c, 0)
  | c, s + 1 => if c % 10 = 0 then stripZeros (c / 10) s else (c, s + 1)

theorem stripZeros_le (c s : Nat) : (stripZeros c s).1 ≤ c ∧ (stripZeros c s).2 ≤ s := by
  fun_induction stripZeros c s with
  | case1 => simp
  | case2 c s h ih => omega
  | case3 => simp

theorem stripZeros_mul (c s : Nat) :
    (stripZeros c s).1 * 10 ^ (s - (stripZeros c s).2) = c := by
  fun_induction stripZeros c s with
  | case1 => simp
  | case2 c s h ih =>
      have hle := (stripZeros_le (c / 10) s).2
      have hs : s + 1 - (stripZeros (c / 10) s).2 = (s - (stripZeros (c / 10) s).2) + 1 := by
        omega
      rw [hs, Nat.pow_succ, ← Nat.mul_assoc, ih]
      omega
  | case3 => simp

/-- The same number without zeros at the end of its fraction; zero loses its sign. -/
def normalize (d : Decimal) : Decimal where
  negative := d.negative && d.coefficient != 0
  coefficient := if d.coefficient = 0 then 0 else (stripZeros d.coefficient d.scale).1
  scale := if d.coefficient = 0 then 0 else (stripZeros d.coefficient d.scale).2
  coefficient_lt := by
    have h := (stripZeros_le d.coefficient d.scale).1
    have := d.coefficient_lt
    split <;> omega
  scale_le := by
    have h := (stripZeros_le d.coefficient d.scale).2
    have := d.scale_le
    split <;> omega

/-!
# Arithmetic

Sums aim for the larger scale of the two operands and products for the sum of
the scales.  A quotient that comes out even over the coefficients keeps the
difference of the scales; any other keeps as many digits as fit, without zeros
at the end.  `none` means that not even the whole part fits.
-/

def add (a b : Decimal) : Option Decimal :=
  if a.isZero then
    some b
  else if b.isZero then
    some a
  else
    let s := max a.scale b.scale
    let total := a.unitsAt s + b.unitsAt s
    fit? (total < 0) total.natAbs (10 ^ s) s

def sub (a b : Decimal) : Option Decimal :=
  if a.isZero && b.isZero then some b else a.add b.negate

def mul (a b : Decimal) : Option Decimal :=
  if a.isZero || b.isZero then
    some zero
  else
    let s := a.scale + b.scale
    (fit? (a.negative != b.negative) (a.coefficient * b.coefficient) (10 ^ s)
      (min s maxScale)).map fun d => { d with negative := d.negative && d.coefficient != 0 }

/-- The quotient of two decimals; the divisor is not zero. -/
def div (a b : Decimal) : Option Decimal :=
  if a.isZero then
    some zero
  else
    let negative := a.negative != b.negative
    if a.coefficient % b.coefficient = 0 && b.scale ≤ a.scale then
      ofParts? negative (a.coefficient / b.coefficient) (a.scale - b.scale)
    else
      (fit? negative (a.coefficient * 10 ^ b.scale) (b.coefficient * 10 ^ a.scale) maxScale).map
        normalize

/-- The remainder of truncated division, with the sign of the dividend; the divisor is not
zero. -/
def rem (a b : Decimal) : Option Decimal :=
  if a.isZero then
    some zero
  else
    let s := max a.scale b.scale
    let n := (a.unitsAt s).natAbs
    let d := (b.unitsAt s).natAbs
    if n < d then
      some a
    else if n = d then
      some zero
    else
      ofParts? (a.negative && n % d != 0) (n % d) s

/-!
# Whole numbers
-/

/-- Whole neighbour chosen by a rounding mode. -/
def toWhole (mode : Rounding) (d : Decimal) : Decimal where
  negative := d.negative
  coefficient := mode.quotient d.negative d.coefficient (10 ^ d.scale)
  scale := 0
  coefficient_lt :=
    Nat.lt_of_le_of_lt (mode.quotient_le d.negative (Nat.pow_pos (by omega))) d.coefficient_lt
  scale_le := by omega

def floor (d : Decimal) : Decimal :=
  d.toWhole .floor

def ceiling (d : Decimal) : Decimal :=
  d.toWhole .ceiling

def half : Decimal := ⟨false, 5, 1, by omega, by omega⟩

/-- The nearest whole number, halves toward positive infinity. -/
def round (d : Decimal) : Decimal :=
  match d.add half with
  | some shifted => shifted.floor
  | none => d

/-!
# Text

A decimal is written in positional notation with all the digits of its scale.
The display form is that of the normalized number.
-/

def signText (negative : Bool) : List Char :=
  if negative then ['-'] else []

def digitsText (d : Decimal) : List Char :=
  let whole := d.coefficient / 10 ^ d.scale
  let fraction := d.coefficient % 10 ^ d.scale
  Digits.write whole ++
    (if d.scale = 0 then [] else '.' :: Digits.writePadded d.scale fraction)

/-- All digits of the scale, trailing zeros included. -/
def fullText (d : Decimal) : String :=
  String.ofList (signText d.negative ++ d.digitsText)

def text (d : Decimal) : String :=
  d.normalize.fullText

/-!
# Significant digits

A number is cut to its first digits, in front of the point or behind it.  Zeros
take the place of those that are given up in front of the point.
-/

/-- The number with no more than so many significant digits; `none` when the rounded number
does not fit. -/
def roundDigits? (d : Decimal) (digits : Nat) (strategy : RoundingStrategy) : Option Decimal :=
  if d.isZero || digits = 0 then
    some zero
  else
    let dropped := Digits.count d.coefficient - digits
    let kept := (strategy.round d.signed (10 ^ dropped)).natAbs
    ofParts? d.negative (kept * 10 ^ (dropped - d.scale)) (d.scale - dropped)

end Decimal

/-!
# Rounding to a context

A context rounds a decimal to its number of significant digits.  The value is
left alone when the rounded number would not fit.
-/

namespace DecimalContext

def round (context : DecimalContext) (d : Decimal) : Decimal :=
  if context.precision = 0 || d.isZero then
    d
  else
    (d.roundDigits? context.significantDigits context.rounding.strategy).getD d

end DecimalContext
end TreeQuery
