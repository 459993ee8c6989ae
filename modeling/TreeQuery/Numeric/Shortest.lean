import TreeQuery.Numeric.Digits

/-!
# Shortest decimal digits

A binary floating-point number stands for all reals that round to it.  Its
shortest digits are found by trying grids of 1, 2, … 17 significant digits: the
first grid with a point in that interval wins, and of two points the nearer, or
the larger if both are equally near.
-/

namespace TreeQuery

-- Powers are those of the core library, whatever else is in scope.
attribute [local instance (high)] instPowNat

namespace Shortest

/-- Digits and the power of ten of the last of them. -/
structure Scaled where
  digits : Nat
  exponent : Int
deriving DecidableEq, Repr

/-- The interval of reals that round to a number, in quarters of its unit `2 ^ unit`.  The
lower half is shorter below a power of two. -/
structure Interval where
  low : Nat
  middle : Nat
  high : Nat
  unit : Int
  closed : Bool
deriving DecidableEq, Repr

/-- The interval of the number `significand · 2 ^ unit` in the format of 53 binary digits whose
least unit is `2 ^ -1074`. -/
def interval (significand : Nat) (unit : Int) : Interval where
  low :=
    if significand = 2 ^ (52 : Nat) && unit != -1074 then 4 * significand - 1
    else 4 * significand - 2
  middle := 4 * significand
  high := 4 * significand + 2
  unit := unit - 2
  closed := significand % 2 == 0

namespace Interval

def quarter (i : Interval) (p : Int) : Nat :=
  2 ^ i.unit.toNat * 10 ^ (-p).toNat

/-- The factor that brings steps of `10 ^ p` to that denominator. -/
def step (i : Interval) (p : Int) : Nat :=
  10 ^ p.toNat * 2 ^ (-i.unit).toNat

/-- Whether `c · 10 ^ p` lies in the interval. -/
def contains (i : Interval) (c : Nat) (p : Int) : Bool :=
  let x := c * i.step p
  let low := i.low * i.quarter p
  let high := i.high * i.quarter p
  if i.closed then low ≤ x && x ≤ high else low < x && x < high

/-- The point of the grid `10 ^ p` that stands for the number, if one lies in the interval. -/
def onGrid? (i : Interval) (p : Int) : Option Nat :=
  let middle := i.middle * i.quarter p
  let c := middle / i.step p
  match i.contains c p, i.contains (c + 1) p with
  | true, true =>
      if middle - c * i.step p < (c + 1) * i.step p - middle then some c else some (c + 1)
  | true, false => some c
  | false, true => some (c + 1)
  | false, false => none

/-- The power of ten of the first digit. -/
def leading (i : Interval) : Int :=
  let n := i.middle * 2 ^ i.unit.toNat
  let d := 2 ^ (-i.unit).toNat
  if d ≤ n then
    (Digits.count (n / d) : Int) - 1
  else
    let k := Digits.count d - Digits.count n
    if d ≤ n * 10 ^ k then -k else -(k + 1 : Int)

/-- The first grid, from `10 ^ p` to finer ones, that has a point in the interval. -/
def firstGrid (i : Interval) : Nat → Int → Scaled
  | 0, p => ⟨i.middle * i.quarter p / i.step p, p⟩
  | more + 1, p =>
      match i.onGrid? p with
      | some c => ⟨c, p⟩
      | none => firstGrid i more (p - 1)

end Interval

/-- The shortest digits of a positive number `significand · 2 ^ unit`. -/
def digits (significand : Nat) (unit : Int) : Scaled :=
  let i := interval significand unit
  let found := i.firstGrid 17 i.leading
  if found.digits % 10 = 0 then ⟨found.digits / 10, found.exponent + 1⟩ else found

namespace Scaled

/-- Positional notation, without an exponent and without zeros after the last digit of a
fraction. -/
def positional (s : Scaled) : List Char :=
  let row := Digits.write s.digits
  if 0 ≤ s.exponent then
    row ++ List.replicate s.exponent.toNat '0'
  else
    let places := (-s.exponent).toNat
    if places < row.length then
      row.take (row.length - places) ++ '.' :: row.drop (row.length - places)
    else
      '0' :: '.' :: (List.replicate (places - row.length) '0' ++ row)

/-- One digit before the point and an exponent. -/
def exponential (s : Scaled) : List Char :=
  let row := Digits.write s.digits
  let exponent := s.exponent + (row.length - 1 : Nat)
  row.take 1 ++ (if row.length = 1 then [] else '.' :: row.drop 1) ++
    'e' :: ((if exponent < 0 then ['-'] else []) ++ Digits.write exponent.natAbs)

def magnitude (s : Scaled) : Int :=
  s.exponent + (Digits.count s.digits - 1 : Nat)

end Scaled
end Shortest
end TreeQuery
