import TreeQuery.Numeric.Shortest
import TreeQuery.Numeric.Literal

/-!
# Doubles

A double is a 64-bit pattern.  Two patterns are the same double only when all
bits agree, so the two zeros differ and a NaN equals itself; comparison by
value is a separate operation.

An operation with a NaN operand gives that operand, the first one if there are
two.  An operation that has no value gives the NaN with the sign bit set.
-/

namespace TreeQuery

-- Powers are those of the core library, whatever else is in scope.
attribute [local instance (high)] instPowNat

structure Double where
  bits : UInt64
deriving DecidableEq, Repr

namespace Double

def ofFloat (x : Float) : Double := ⟨x.toBits⟩

def toFloat (d : Double) : Float := Float.ofBits d.bits

def signBit : UInt64 := 0x8000000000000000

def nan : Double := ⟨0x7ff8000000000000⟩

def noValue : Double := ⟨0xfff8000000000000⟩

def infinity : Double := ⟨0x7ff0000000000000⟩

def zero : Double := ⟨0⟩

instance : Inhabited Double := ⟨zero⟩

def negative (d : Double) : Bool :=
  d.bits &&& signBit != 0

def exponentField (d : Double) : Nat :=
  (d.bits >>> 52).toNat % 2048

def fractionField (d : Double) : Nat :=
  d.bits.toNat % 2 ^ (52 : Nat)

def isNaN (d : Double) : Bool :=
  d.exponentField == 2047 && d.fractionField != 0

def isInfinite (d : Double) : Bool :=
  d.exponentField == 2047 && d.fractionField == 0

def isZero (d : Double) : Bool :=
  d.exponentField == 0 && d.fractionField == 0

/-- The magnitude of a finite double is `significand · 2 ^ unit`. -/
def significand (d : Double) : Nat :=
  if d.exponentField = 0 then d.fractionField else 2 ^ (52 : Nat) + d.fractionField

def unit (d : Double) : Int :=
  max d.exponentField 1 - 1075

def ofNat (n : Nat) : Double :=
  ofFloat (Float.ofNat n)

def ofInt (n : Int) : Double :=
  ofFloat (Float.ofInt n)

/-!
# Arithmetic
-/

/-- The result of an operation that may have no value. -/
def result (x : Float) : Double :=
  if x.isNaN then noValue else ofFloat x

def lift (op : Float → Float → Float) (a b : Double) : Double :=
  if a.isNaN then a
  else if b.isNaN then b
  else result (op a.toFloat b.toFloat)

def add : Double → Double → Double := lift (· + ·)

def sub : Double → Double → Double := lift (· - ·)

def mul : Double → Double → Double := lift (· * ·)

def div : Double → Double → Double := lift (· / ·)

def negate (d : Double) : Double := ⟨d.bits ^^^ signBit⟩

def abs (d : Double) : Double := ⟨d.bits &&& ~~~signBit⟩

def withSign (negative : Bool) (d : Double) : Double :=
  if negative then d.negate else d

/-- The double `2 ^ e`, for `e` from `-1074` to `1023`. -/
def powerOfTwo (e : Int) : Double :=
  if e < -1022 then ⟨1 <<< (e + 1074).toNat.toUInt64⟩
  else ⟨(e + 1023).toNat.toUInt64 <<< 52⟩

/-- The remainder of the division truncated toward zero, exact, with the sign of the dividend. -/
def rem (a b : Double) : Double :=
  if a.isNaN then a
  else if b.isNaN then b
  else if a.isInfinite || b.isZero then noValue
  else if b.isInfinite then a
  else
    let unit := min a.unit b.unit
    let n := a.significand * 2 ^ (a.unit - unit).toNat
    let d := b.significand * 2 ^ (b.unit - unit).toNat
    withSign a.negative (mul (ofNat (n % d)) (powerOfTwo unit))

def floor (d : Double) : Double :=
  if d.isNaN then d else ofFloat d.toFloat.floor

def ceiling (d : Double) : Double :=
  if d.isNaN then d else ofFloat d.toFloat.ceil

/-- The nearest whole number, halves toward positive infinity. -/
def round (d : Double) : Double :=
  (d.add (ofFloat 0.5)).floor

/-- Order by value; a NaN has no place in it and the two zeros are equal. -/
def compare (a b : Double) : Option Ordering :=
  let x := a.toFloat
  let y := b.toFloat
  if x < y then some .lt
  else if y < x then some .gt
  else if x == y then some .eq
  else none

/-!
# Reading and writing
-/

/-- The double nearest to a plain literal. -/
def ofLiteral (l : Literal) : Double :=
  withSign l.negative (ofFloat (Float.ofScientific l.coefficient true l.fraction.length))

/-- A decimal goes over in two parts: the whole part and the fraction are converted
separately and the sum is rounded back to the scale of the decimal. -/
def ofDecimal (d : Decimal) : Double :=
  let power := 10 ^ d.scale
  if d.scale = 0 then
    withSign (d.negative && !d.isZero) (ofNat d.coefficient)
  else
    let whole := Float.ofNat (d.coefficient / power)
    let fraction := Float.ofNat (d.coefficient % power) / Float.ofNat power
    if fraction == 0 then
      withSign d.negative (ofFloat whole)
    else
      let scale := Float.ofNat power
      withSign d.negative (ofFloat (((whole + fraction) * scale).round / scale))

/-- An unsigned number with an optional exponent.  Exponents that cannot matter are cut off,
since no power of ten beyond them is computed. -/
def ofExponential? (text : List Char) : Option Double :=
  let mantissa := text.takeWhile fun c => c != 'e' && c != 'E'
  let tail := text.drop mantissa.length
  let exponent? : Option Int :=
    match tail.drop 1 with
    | '-' :: row =>
        if row.all Literal.isDigit && !row.isEmpty then some (-(Digits.read row)) else none
    | '+' :: row => if row.all Literal.isDigit && !row.isEmpty then some (Digits.read row) else none
    | row => if row.all Literal.isDigit && !row.isEmpty then some (Digits.read row) else none
  match Literal.unsigned? false mantissa, if tail.isEmpty then some 0 else exponent? with
  | some l, some e =>
      let e := e - l.fraction.length
      let reach : Int := Digits.count l.coefficient
      if l.coefficient = 0 || e + reach < -400 then some zero
      else if e + reach > 400 then some infinity
      else some (ofFloat (Float.ofScientific l.coefficient (e < 0) e.natAbs))
  | _, _ => none

def unsigned? (text : List Char) : Option Double :=
  let lower := String.ofList (text.map Char.toLower)
  if lower = "inf" || lower = "infinity" then some infinity
  else if lower = "nan" then some nan
  else ofExponential? text

/-- A double from text: an optional sign and `inf`, `infinity`, `nan` or a number that may have
an exponent. -/
def read? (text : String) : Option Double :=
  match text.toList with
  | '-' :: rest => (unsigned? rest).map negate
  | '+' :: rest => unsigned? rest
  | rest => unsigned? rest

def signText (d : Double) : List Char :=
  if d.negative then ['-'] else []

def shortest (d : Double) : Shortest.Scaled :=
  if d.isZero then ⟨0, 0⟩ else Shortest.digits d.significand d.unit

/-- The shortest digits that read back, in positional notation. -/
def text (d : Double) : String :=
  if d.isNaN then "NaN"
  else if d.isInfinite then String.ofList (d.signText ++ "inf".toList)
  else String.ofList (d.signText ++ d.shortest.positional)

/-- As `text`, with `.0` after a whole number, and with an exponent below `10⁻⁴` and from `10¹⁶`
on. -/
def fullText (d : Double) : String :=
  if d.isNaN || d.isInfinite then d.text
  else if !d.isZero && (d.shortest.magnitude < -4 || 16 ≤ d.shortest.magnitude) then
    String.ofList (d.signText ++ d.shortest.exponential)
  else if d.shortest.exponent < 0 then d.text
  else d.text ++ ".0"

end Double
end TreeQuery
