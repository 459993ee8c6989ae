/-!
# Rounding

A magnitude that loses digits is a quotient of natural numbers.  A rounding
mode decides whether the whole part of that quotient is kept or raised by one;
the sign of the number matters only to the two modes that round toward an
infinity.
-/

namespace TreeQuery

inductive Rounding where
  | up
  | down
  | ceiling
  | floor
  | halfUp
  | halfDown
  | halfEven
deriving DecidableEq, Repr, Inhabited

namespace Rounding

/-- Whether the whole part of `n / d` is raised by one. -/
def raises (mode : Rounding) (negative : Bool) (n d : Nat) : Bool :=
  match mode with
  | .up => n % d != 0
  | .down => false
  | .ceiling => n % d != 0 && !negative
  | .floor => n % d != 0 && negative
  | .halfUp => decide (d ≤ 2 * (n % d))
  | .halfDown => decide (d < 2 * (n % d))
  | .halfEven =>
      decide (d < 2 * (n % d)) || (d == 2 * (n % d) && (n / d) % 2 == 1)

/-- The quotient `n / d` as a whole number, for the magnitude of a number of the given sign. -/
def quotient (mode : Rounding) (negative : Bool) (n d : Nat) : Nat :=
  if mode.raises negative n d then n / d + 1 else n / d

theorem raises_eq_false_of_mod_eq_zero {mode : Rounding} {negative : Bool} {n d : Nat}
    (hd : 0 < d) (h : n % d = 0) : mode.raises negative n d = false := by
  cases mode <;> simp [raises, h] <;> omega

theorem quotient_of_mod_eq_zero {mode : Rounding} {negative : Bool} {n d : Nat}
    (hd : 0 < d) (h : n % d = 0) : mode.quotient negative n d = n / d := by
  simp [quotient, raises_eq_false_of_mod_eq_zero hd h]

@[simp] theorem quotient_one (mode : Rounding) (negative : Bool) (n : Nat) :
    mode.quotient negative n 1 = n := by
  rw [quotient_of_mod_eq_zero (by omega) (Nat.mod_one n), Nat.div_one]

theorem quotient_le_succ (mode : Rounding) (negative : Bool) (n d : Nat) :
    mode.quotient negative n d ≤ n / d + 1 := by
  unfold quotient
  split <;> omega

/-- Rounding to a whole number of units never makes a magnitude larger than its count of
the finer units. -/
theorem quotient_le (mode : Rounding) (negative : Bool) {n d : Nat} (hd : 0 < d) :
    mode.quotient negative n d ≤ n := by
  by_cases h : n % d = 0
  · rw [quotient_of_mod_eq_zero hd h]
    exact Nat.div_le_self n d
  · have hn : 0 < n := by
      rcases Nat.eq_zero_or_pos n with rfl | hn
      · simp at h
      · exact hn
    have hd2 : 2 ≤ d := by
      rcases Nat.lt_or_ge d 2 with hlt | hge
      · have : d = 1 := by omega
        subst this
        simp [Nat.mod_one] at h
      · exact hge
    have hdiv : n / d ≤ n / 2 := Nat.div_le_div_left hd2 (by omega)
    have hsucc := mode.quotient_le_succ negative n d
    omega

end Rounding

/-!
# Strategies

A decimal that gives up digits goes to one of the two whole counts of units
around it, which for a number below zero are the other way round from those of
its magnitude.  What happens in the middle is part of the strategy.
-/

inductive RoundingStrategy where
  | midpointNearestEven
  | midpointAwayFromZero
  | midpointTowardZero
  | toZero
  | awayFromZero
  | toNegativeInfinity
  | toPositiveInfinity
deriving DecidableEq, Repr

def Rounding.strategy : Rounding → RoundingStrategy
  | .up => .awayFromZero
  | .down => .toZero
  | .ceiling => .toPositiveInfinity
  | .floor => .toNegativeInfinity
  | .halfUp => .midpointAwayFromZero
  | .halfDown => .midpointTowardZero
  | .halfEven => .midpointNearestEven

namespace RoundingStrategy

/-- The largest whole number that is not above `n / d`. -/
def below (n : Int) (d : Nat) : Int :=
  n / (d : Int)

/-- The smallest whole number that is not below `n / d`. -/
def above (n : Int) (d : Nat) : Int :=
  -(-n / (d : Int))

/-- The nearer of the two neighbours, or `middle` when both are as near. -/
def nearest (n : Int) (d : Nat) (middle : Int) : Int :=
  let fromBelow := n - below n d * d
  let toAbove := above n d * d - n
  if fromBelow < toAbove then below n d
  else if toAbove < fromBelow then above n d
  else middle

def towardZero (n : Int) (d : Nat) : Int :=
  if n < 0 then above n d else below n d

def fromZero (n : Int) (d : Nat) : Int :=
  if n < 0 then below n d else above n d

/-- The whole number that `n / d` is rounded to. -/
def round (strategy : RoundingStrategy) (n : Int) (d : Nat) : Int :=
  match strategy with
  | .midpointNearestEven => nearest n d (if below n d % 2 = 0 then below n d else above n d)
  | .midpointAwayFromZero => nearest n d (fromZero n d)
  | .midpointTowardZero => nearest n d (towardZero n d)
  | .toZero => towardZero n d
  | .awayFromZero => fromZero n d
  | .toNegativeInfinity => below n d
  | .toPositiveInfinity => above n d

end RoundingStrategy

/-!
# Contexts

A context says how many significant digits the result of an operation keeps.
Precision `0` leaves results alone.  A decimal holds at most 28 significant
digits whatever the context asks for.
-/

structure DecimalContext where
  precision : Nat
  rounding : Rounding
deriving DecidableEq, Repr

namespace DecimalContext

def maxPrecision : Nat := 28

def decimal : DecimalContext := ⟨28, .halfEven⟩

/-- No rounding beyond what a decimal itself needs. -/
def unlimited : DecimalContext := ⟨0, .halfUp⟩

instance : Inhabited DecimalContext := ⟨decimal⟩

def significantDigits (context : DecimalContext) : Nat :=
  if context.precision = 0 then maxPrecision else min context.precision maxPrecision

theorem significantDigits_le (context : DecimalContext) :
    context.significantDigits ≤ maxPrecision := by
  unfold significantDigits
  split <;> omega

theorem significantDigits_pos (context : DecimalContext) : 0 < context.significantDigits := by
  unfold significantDigits maxPrecision
  split <;> omega

end DecimalContext
end TreeQuery
