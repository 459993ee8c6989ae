import TreeQuery.Numeric.Double
import TreeQuery.Text.Blank

/-!
# Numbers

A number is a decimal or a double.  Arithmetic on two decimals is exact up to
one rounding and then goes by the context; as soon as a double takes part, both
operands are doubles.
-/

namespace TreeQuery

-- Powers are those of the core library, whatever else is in scope.
attribute [local instance (high)] instPowNat

inductive NumberError where
  | invalidLiteral (text : String)
  | overflow (operation : String)
  | divisionByZero
  | outOfRange (text : String)
deriving DecidableEq, Repr

namespace NumberError

def message : NumberError → String
  | .invalidLiteral text => "'" ++ text ++ "' is not a number"
  | .overflow operation => "numeric overflow during " ++ operation
  | .divisionByZero => "division by zero"
  | .outOfRange text => "'" ++ text ++ "' is outside the range of a decimal"

end NumberError

inductive Representation where
  | decimal
  | double
deriving DecidableEq, Repr, Inhabited

/-- The representation of literals and whole numbers, and the context of decimal results. -/
structure Arithmetic where
  representation : Representation
  context : DecimalContext
deriving DecidableEq, Repr

namespace Arithmetic

def standard : Arithmetic := ⟨.decimal, .decimal⟩

instance : Inhabited Arithmetic := ⟨standard⟩

end Arithmetic

inductive Number where
  | decimal (d : Decimal)
  | double (d : Double)
deriving Repr

namespace Number

instance : Inhabited Number := ⟨.decimal .zero⟩

/-- Decimals are the same by value, doubles by their bits, and a decimal is never a double. -/
def same : Number → Number → Bool
  | .decimal a, .decimal b => a == b
  | .double a, .double b => a = b
  | _, _ => false

instance : BEq Number := ⟨same⟩

/-- Reads a plain literal, blanks around it allowed, in the representation of the arithmetic. -/
def parse (text : String) (arithmetic : Arithmetic) : Except NumberError Number :=
  let trimmed := Blank.trim text.toList
  match Literal.read? trimmed with
  | none => .error (.invalidLiteral text)
  | some literal =>
      match arithmetic.representation with
      | .decimal =>
          match literal.toDecimal? arithmetic.context with
          | some d => .ok (.decimal d)
          | none => .error (.outOfRange (String.ofList trimmed))
      | .double => .ok (.double (.ofLiteral literal))

def ofInt64 (n : Int64) : Number :=
  .decimal (.ofInt64 n)

def integer (n : Int64) : Representation → Number
  | .decimal => .decimal (.ofInt64 n)
  | .double => .double (.ofInt n.toInt)

def representation : Number → Representation
  | .decimal _ => .decimal
  | .double _ => .double

def toDouble : Number → Double
  | .decimal d => .ofDecimal d
  | .double d => d

def isZero : Number → Bool
  | .decimal d => d.isZero
  | .double d => d.isZero

def isNaN : Number → Bool
  | .decimal _ => false
  | .double d => d.isNaN

/-!
# Arithmetic
-/

def combine (context : DecimalContext) (operation : String)
    (decimal : Decimal → Decimal → Option Decimal) (double : Double → Double → Double) :
    Number → Number → Except NumberError Number
  | .decimal a, .decimal b =>
      match decimal a b with
      | some d => .ok (.decimal (context.round d))
      | none => .error (.overflow operation)
  | a, b => .ok (.double (double a.toDouble b.toDouble))

def add (context : DecimalContext) : Number → Number → Except NumberError Number :=
  combine context "addition" Decimal.add Double.add

def sub (context : DecimalContext) : Number → Number → Except NumberError Number :=
  combine context "subtraction" Decimal.sub Double.sub

def mul (context : DecimalContext) : Number → Number → Except NumberError Number :=
  combine context "multiplication" Decimal.mul Double.mul

/-- Whether a quotient of two decimals has no value. -/
def dividesByZero : Number → Number → Bool
  | .decimal _, .decimal b => b.isZero
  | _, _ => false

def div (context : DecimalContext) (a b : Number) : Except NumberError Number :=
  if dividesByZero a b then .error .divisionByZero
  else combine context "division" Decimal.div Double.div a b

def rem (context : DecimalContext) (a b : Number) : Except NumberError Number :=
  if dividesByZero a b then .error .divisionByZero
  else combine context "remainder" Decimal.rem Double.rem a b

def negate : Number → Number
  | .decimal d => .decimal d.negate
  | .double d => .double d.negate

def abs : Number → Number
  | .decimal d => .decimal d.abs
  | .double d => .double d.abs

def floor : Number → Number
  | .decimal d => .decimal d.floor
  | .double d => .double d.floor

def ceiling : Number → Number
  | .decimal d => .decimal d.ceiling
  | .double d => .double d.ceiling

def round : Number → Number
  | .decimal d => .decimal d.round
  | .double d => .double d.round

/-!
# Order and text
-/

/-- Order by value: exact between decimals, otherwise that of doubles. -/
def compare : Number → Number → Option Ordering
  | .decimal a, .decimal b => some (a.compare b)
  | a, b => a.toDouble.compare b.toDouble

/-- Whether the number is exactly this place in a list, counted from one. -/
def equalsPosition (position : Nat) : Number → Bool
  | .decimal d => d.signed == position * 10 ^ d.scale
  | .double d => d.compare (.ofNat position) == some .eq

def text : Number → String
  | .decimal d => d.text
  | .double d =>
      if d.isInfinite then (if d.negative then "-Infinity" else "Infinity") else d.text

/-- The text that tells the representation and all digits of the scale. -/
def fullText : Number → String
  | .decimal d => "Decimal(" ++ d.fullText ++ ")"
  | .double d => "Double(" ++ d.fullText ++ ")"

end Number
end TreeQuery
