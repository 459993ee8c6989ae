import TreeQuery.Expression.Basic

/-!
# Values

What an expression evaluates to, the conversions between kinds of values, and
the operators on values.
-/

namespace TreeQuery

inductive Value where
  | boolean (value : Bool)
  | number (value : Number)
  | text (value : String)
  /-- A missing attribute.  It equals nothing, not even itself. -/
  | absent
deriving Repr

inductive EvalError where
  | unknownFunction (name : String)
  /-- A call with too few or too many arguments; `most` is missing where there is no upper limit. -/
  | arity (function : String) (least : Nat) (most : Option Nat) (found : Nat)
  | conversion (value : Value)
  | number (error : NumberError)
deriving Repr

namespace Value

def same : Value → Value → Bool
  | .boolean a, .boolean b => a == b
  | .number a, .number b => a == b
  | .text a, .text b => a == b
  | .absent, .absent => true
  | _, _ => false

instance : BEq Value := ⟨same⟩

def isAbsent : Value → Bool
  | .absent => true
  | _ => false

def typeName : Value → String
  | .boolean _ => "boolean"
  | .number _ => "number"
  | .text _ => "text"
  | .absent => "absent"

/-!
# Conversions
-/

/-- Numbers are true unless zero or not a number, text unless empty. -/
def toBoolean : Value → Bool
  | .boolean b => b
  | .number n => !n.isZero && !n.isNaN
  | .text t => !t.isEmpty
  | .absent => false

/-- Text is read as a plain literal. -/
def toNumber (arithmetic : Arithmetic) : Value → Except EvalError Number
  | .number n => .ok n
  | .boolean b => .ok (.integer (if b then 1 else 0) arithmetic.representation)
  | .text t =>
      match Number.parse t arithmetic with
      | .ok n => .ok n
      | .error _ => .error (.conversion (.text t))
  | .absent => .error (.conversion .absent)

def toText : Value → String
  | .boolean b => if b then "true" else "false"
  | .number n => n.text
  | .text t => t
  | .absent => ""

/-!
# Operators

Either side absent makes a comparison false and an arithmetic result absent.
-/

def compare (arithmetic : Arithmetic) (a b : Value) : Except EvalError (Option Ordering) := do
  let x ← a.toNumber arithmetic
  let y ← b.toNumber arithmetic
  return x.compare y

/-- Equality as truth if either side is a boolean, else as numbers if either is a number, else
as text. -/
def equal (arithmetic : Arithmetic) (a b : Value) : Except EvalError Bool :=
  match a, b with
  | .absent, _ => .ok false
  | _, .absent => .ok false
  | .boolean _, _ => .ok (a.toBoolean == b.toBoolean)
  | _, .boolean _ => .ok (a.toBoolean == b.toBoolean)
  | .number _, _ => (compare arithmetic a b).map (· == some .eq)
  | _, .number _ => (compare arithmetic a b).map (· == some .eq)
  | _, _ => .ok (a.toText == b.toText)

def notEqual (arithmetic : Arithmetic) (a b : Value) : Except EvalError Bool :=
  if a.isAbsent || b.isAbsent then .ok false else (equal arithmetic a b).map (!·)

/-- Whether two values, taken as numbers, stand in an order. -/
def ordered (arithmetic : Arithmetic) (holds : Ordering → Bool) (a b : Value) :
    Except EvalError Bool :=
  if a.isAbsent || b.isAbsent then .ok false
  else (compare arithmetic a b).map fun order => order.any holds

def calculate (arithmetic : Arithmetic)
    (operation : DecimalContext → Number → Number → Except NumberError Number) (a b : Value) :
    Except EvalError Value :=
  if a.isAbsent || b.isAbsent then .ok .absent
  else do
    let x ← a.toNumber arithmetic
    let y ← b.toNumber arithmetic
    match operation arithmetic.context x y with
    | .ok n => return .number n
    | .error e => throw (.number e)

def operate (arithmetic : Arithmetic) (op : Operator) (a b : Value) : Except EvalError Value :=
  match op with
  | .or => .ok (.boolean (a.toBoolean || b.toBoolean))
  | .and => .ok (.boolean (a.toBoolean && b.toBoolean))
  | .equal => (equal arithmetic a b).map .boolean
  | .notEqual => (notEqual arithmetic a b).map .boolean
  | .less => (ordered arithmetic Ordering.isLT a b).map .boolean
  | .lessOrEqual => (ordered arithmetic Ordering.isLE a b).map .boolean
  | .greater => (ordered arithmetic Ordering.isGT a b).map .boolean
  | .greaterOrEqual => (ordered arithmetic Ordering.isGE a b).map .boolean
  | .add => calculate arithmetic Number.add a b
  | .subtract => calculate arithmetic Number.sub a b
  | .multiply => calculate arithmetic Number.mul a b
  | .divide => calculate arithmetic Number.div a b
  | .modulo => calculate arithmetic Number.rem a b

/-- A function of numbers on a value; absent stays absent. -/
def mapNumber (arithmetic : Arithmetic) (f : Number → Number) (a : Value) :
    Except EvalError Value :=
  if a.isAbsent then .ok .absent
  else (a.toNumber arithmetic).map fun n => .number (f n)

def negate (arithmetic : Arithmetic) (a : Value) : Except EvalError Value :=
  a.mapNumber arithmetic Number.negate

end Value

namespace EvalError

def arityText (least : Nat) : Option Nat → String
  | some most =>
      if most = least then toString least
      else if most = least + 1 then toString least ++ " or " ++ toString most
      else toString least ++ " to " ++ toString most
  | none => "at least " ++ toString least

def message : EvalError → String
  | .unknownFunction name => "function '" ++ name ++ "' not found"
  | .arity function least most found =>
      "function '" ++ function ++ "' expects " ++ arityText least most ++ " argument(s), got " ++
        toString found
  | .conversion .absent => "cannot convert an absent value to a number"
  | .conversion value => "cannot convert '" ++ value.toText ++ "' to a number"
  | .number error => "arithmetic failed: " ++ error.message

end EvalError
end TreeQuery
