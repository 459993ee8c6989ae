import TreeQuery.Numeric.Decimal

/-!
# Plain number literals

A plain literal is an optional minus sign and digits with at most one point
among them.  There is at least one digit; neither side of the point has to
hold one.  Exponents, plus signs and separators are no part of it.
-/

namespace TreeQuery

-- Powers are those of the core library, whatever else is in scope.
attribute [local instance (high)] instPowNat

structure Literal where
  negative : Bool
  whole : List Char
  fraction : List Char
deriving DecidableEq, Repr

namespace Literal

def isDigit (c : Char) : Bool :=
  '0' ≤ c && c ≤ '9'

/-- The digits before and after the point of an unsigned text. -/
def split (text : List Char) : List Char × List Char :=
  (text.takeWhile (· != '.'), (text.dropWhile (· != '.')).drop 1)

def unsigned? (negative : Bool) (text : List Char) : Option Literal :=
  let (whole, fraction) := split text
  if whole.all isDigit && fraction.all isDigit && !(whole.isEmpty && fraction.isEmpty) then
    some ⟨negative, whole, fraction⟩
  else
    none

def read? : List Char → Option Literal
  | '-' :: text => unsigned? true text
  | text => unsigned? false text

/-- All digits as one whole number. -/
def coefficient (l : Literal) : Nat :=
  Digits.read (l.whole ++ l.fraction)

end Literal

/-- The decimal of a text with all its digits; `none` when they do not fit. -/
def Decimal.ofText? (text : List Char) : Option Decimal :=
  (Literal.read? text).bind fun l => ofParts? l.negative l.coefficient l.fraction.length

/-- Whether the last digit that is kept goes up by one.  The first digit that is given up and
whether any other one is not zero tell how much is lost. -/
def DecimalContext.roundsUp (context : DecimalContext) (negative lastOdd : Bool) (first : Nat)
    (rest : Bool) : Bool :=
  let discarded := first != 0 || rest
  match context.rounding with
  | .up => discarded
  | .down => false
  | .ceiling => discarded && !negative
  | .floor => discarded && negative
  | .halfUp => decide (5 ≤ first)
  | .halfDown => decide (5 < first) || (first == 5 && rest)
  | .halfEven => decide (5 < first) || (first == 5 && (rest || lastOdd))

/-!
# Rows of digits

A literal is rounded on its digits, before it is known whether a decimal has
room for them.  The first `whole` digits of a row stand in front of the point.
-/

structure DigitRow where
  digits : List Nat
  whole : Nat
deriving DecidableEq, Repr

namespace DigitRow

/-- The digits of a literal, without the zeros it begins with. -/
def ofLiteral (l : Literal) : DigitRow :=
  let whole := l.whole.dropWhile (· == '0')
  ⟨(whole ++ l.fraction).map Digits.value, whole.length⟩

/-- The number of digits that stay: the significant ones from the first on that is not zero, and
no more behind the point than a decimal has. -/
def keep (row : DigitRow) (context : DecimalContext) (lead : Nat) : Nat :=
  min (lead + context.significantDigits) (row.whole + DecimalContext.maxPrecision)

/-- Adds one to the first digit and carries to the next ones; the row is given from its end. -/
def carry : List Nat → List Nat × Bool
  | [] => ([], true)
  | d :: rest =>
      if d = 9 then
        let (raised, carried) := carry rest
        (0 :: raised, carried)
      else
        ((d + 1) :: rest, false)

/-- Adds one to the last digit, and tells whether the carry runs off the front. -/
def increment (digits : List Nat) : List Nat × Bool :=
  let (raised, carried) := carry digits.reverse
  (raised.reverse, carried)

/-- The kept digits with the last one raised, behind a one if the carry runs off the front. -/
def raise (kept : List Nat) (whole : Nat) : DigitRow :=
  match increment kept with
  | (raised, true) => ⟨1 :: raised, whole + 1⟩
  | (raised, false) => ⟨raised, whole⟩

/-- The row rounded to its first digits. -/
def cut (row : DigitRow) (context : DecimalContext) (negative : Bool) (keep : Nat) : DigitRow :=
  match row.digits.drop keep with
  | [] => row
  | first :: rest =>
      let kept := row.digits.take keep
      let lastOdd := kept.getLast?.any (· % 2 == 1)
      if context.roundsUp negative lastOdd first (rest.any (· != 0)) then
        raise kept row.whole
      else
        ⟨kept, row.whole⟩

/-- Zeros take the place of digits that were given up in front of the point. -/
def padded (row : DigitRow) : DigitRow :=
  ⟨row.digits ++ List.replicate (row.whole - row.digits.length) 0, row.whole⟩

def text (row : DigitRow) (negative : Bool) : List Char :=
  let whole := row.digits.take row.whole
  let fraction := row.digits.drop row.whole
  Decimal.signText negative ++ (if whole.isEmpty then ['0'] else whole.map Digits.digit) ++
    (if fraction.isEmpty then [] else '.' :: fraction.map Digits.digit)

end DigitRow

/-- The decimal of a literal under a context; `none` when it is too large for a decimal.
Digits are rounded before the bound is looked at, so a long fraction is never an obstacle. -/
def Literal.toDecimal? (l : Literal) (context : DecimalContext) : Option Decimal :=
  let row := DigitRow.ofLiteral l
  match row.digits.findIdx? (· != 0) with
  | none => some Decimal.zero
  | some lead =>
      let row := row.cut context l.negative (row.keep context lead)
      if row.digits.all (· == 0) then
        some Decimal.zero
      else
        Decimal.ofText? (row.padded.text l.negative)

end TreeQuery
