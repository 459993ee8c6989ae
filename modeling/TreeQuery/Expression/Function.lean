import TreeQuery.Expression.Value
import TreeQuery.Text.Case
import TreeQuery.Text.Blank
import TreeQuery.Tree.Navigable

/-!
# Functions

A function sees the node under test, its position and the arithmetic, and gets
its arguments as values.  A registry keeps functions by name, in the order of
the names.
-/

namespace TreeQuery

-- Powers are those of the core library, whatever else is in scope.
attribute [local instance (high)] instPowNat

/-- What a predicate can see while it is evaluated. -/
structure Focus (N : Type) where
  node : N
  position : Nat
  arithmetic : Arithmetic

abbrev Function (N : Type) :=
  Focus N → List Value → Except EvalError Value

structure Registry (N : Type) where
  entries : List (String × Function N)

namespace Registry

variable {N : Type}

def empty : Registry N := ⟨[]⟩

def insert (name : String) (f : Function N) :
    List (String × Function N) → List (String × Function N)
  | [] => [(name, f)]
  | (key, g) :: rest =>
      if name = key then (name, f) :: rest
      else if name < key then (name, f) :: (key, g) :: rest
      else (key, g) :: insert name f rest

def register (r : Registry N) (name : String) (f : Function N) : Registry N :=
  ⟨insert name f r.entries⟩

def get? (r : Registry N) (name : String) : Option (Function N) :=
  r.entries.lookup name

def contains (r : Registry N) (name : String) : Bool :=
  (r.get? name).isSome

def names (r : Registry N) : List String :=
  r.entries.map (·.1)

def ofList (functions : List (String × Function N)) : Registry N :=
  functions.foldl (fun r (name, f) => r.register name f) empty

def fullText (r : Registry N) : String :=
  "\x7b" ++ ", ".intercalate (r.names.map Quoted.quote) ++ "\x7d"

end Registry

/-!
# Arguments
-/

namespace Arguments

variable {N : Type} [DecidableEq N] [Navigable N]

/-- The arguments, when their number is within limits. -/
def within (function : String) (least : Nat) (most : Option Nat) (args : List Value) :
    Except EvalError (List Value) :=
  if least ≤ args.length && most.all (args.length ≤ ·) then .ok args
  else .error (.arity function least most args.length)

def nullary (function : String) (result : Focus N → Value) : Function N := fun focus args => do
  let _ ← within function 0 (some 0) args
  return result focus

def unary (function : String) (f : Focus N → Value → Except EvalError Value) :
    Function N := fun focus args => do
  match ← within function 1 (some 1) args with
  | value :: _ => f focus value
  | [] => throw (.arity function 1 (some 1) 0)

/-- A function of one argument whose default is the value of the node itself. -/
def optional (function : String) (f : Focus N → Value → Except EvalError Value) :
    Function N := fun focus args => do
  match ← within function 0 (some 1) args with
  | value :: _ => f focus value
  | [] =>
      match Navigable.value focus.node with
      | some t => f focus (.text t)
      | none => f focus .absent

def texts (function : String) (test : List Char → List Char → Bool) : Function N := fun _ args => do
  match ← within function 2 (some 2) args with
  | a :: b :: _ => return .boolean (test a.toText.toList b.toText.toList)
  | args => throw (.arity function 2 (some 2) args.length)

end Arguments

/-!
# Built-in functions
-/

namespace Number

/-- A count as a number; counts beyond 63 bits stand at the largest of them. -/
def count (n : Nat) (representation : Representation) : Number :=
  .integer (Int64.ofNat (min n (2 ^ (63 : Nat) - 1))) representation

end Number

namespace Builtin

open Arguments

variable {N : Type} [DecidableEq N] [Navigable N]

def occurs (text part : List Char) : Bool :=
  match text with
  | [] => part.isEmpty
  | c :: rest => part.isPrefixOf (c :: rest) || occurs rest part

/-- One space between words and none at the ends. -/
def normalizeSpace (text : List Char) : List Char :=
  [' '].intercalate (Blank.words text)

def mapText (function : String) (f : List Char → List Char) : Function N :=
  unary function fun _ v => .ok (.text (String.ofList (f v.toText.toList)))

def mapNumber (function : String) (f : Number → Number) : Function N :=
  unary function fun focus v => v.mapNumber focus.arithmetic f

def list : List (String × Function N) :=
  [("position", nullary "position" fun focus =>
      .number (.count focus.position focus.arithmetic.representation)),
    ("name", nullary "name" fun focus => .text (Navigable.name focus.node)),
    ("child-count", nullary "child-count" fun focus =>
      .number (.count (Navigable.childCount focus.node) focus.arithmetic.representation)),
    ("has-attribute", unary "has-attribute" fun focus v =>
      .ok (.boolean (Navigable.attribute? focus.node v.toText).isSome)),
    ("string", optional "string" fun _ v => .ok (.text v.toText)),
    ("number", optional "number" fun focus v =>
      (v.toNumber focus.arithmetic).map .number),
    ("boolean", unary "boolean" fun _ v => .ok (.boolean v.toBoolean)),
    ("not", unary "not" fun _ v => .ok (.boolean (!v.toBoolean))),
    ("true", nullary "true" fun _ => .boolean true),
    ("false", nullary "false" fun _ => .boolean false),
    ("concat", fun _ args => do
      let parts ← within "concat" 2 none args
      return .text (String.join (parts.map Value.toText))),
    ("contains", texts "contains" occurs),
    ("starts-with", texts "starts-with" fun text part => part.isPrefixOf text),
    ("ends-with", texts "ends-with" fun text part => part.isSuffixOf text),
    ("string-length", optional "string-length" fun focus v =>
      .ok (.number (.count v.toText.length focus.arithmetic.representation))),
    ("normalize-space", optional "normalize-space" fun _ v =>
      .ok (.text (String.ofList (normalizeSpace v.toText.toList)))),
    ("upper-case", mapText "upper-case" Case.upper),
    ("lower-case", mapText "lower-case" Case.lower),
    ("floor", mapNumber "floor" Number.floor),
    ("ceiling", mapNumber "ceiling" Number.ceiling),
    ("round", mapNumber "round" Number.round),
    ("abs", mapNumber "abs" Number.abs)]

end Builtin

namespace Registry

variable {N : Type} [DecidableEq N] [Navigable N]

def builtins : Registry N :=
  ofList Builtin.list

end Registry
end TreeQuery
