import TreeQuery.Chain.Compile
import TreeQuery.Json.Reader
import TreeQuery.Text.Case

/-!
# Query settings

Settings say how the numbers of a query are held and rounded and which names it
may mention.  They are written as a JSON object; a setting that is left out
keeps its standard value, but numbers are set either whole or not at all.
-/

namespace TreeQuery

-- Powers are those of the core library, whatever else is in scope.
attribute [local instance (high)] instPowNat

/-- Which names a query may mention. -/
inductive NameRule where
  | any
  /-- Names without capital letters. -/
  | lowerOnly
deriving DecidableEq, Repr

namespace NameRule

def allows : NameRule → String → Bool
  | .any, _ => true
  | .lowerOnly, name => !name.toList.any Case.isUppercase

def policy (rule : NameRule) (factory : String → String) : NamePolicy :=
  ⟨factory, rule.allows⟩

def names : List (String × NameRule) :=
  [("exact", .any), ("lower-only", .lowerOnly)]

end NameRule

namespace Representation

def names : List (String × Representation) :=
  [("decimal", .decimal), ("double", .double)]

end Representation

namespace Rounding

def names : List (String × Rounding) :=
  [("up", .up), ("down", .down), ("ceiling", .ceiling), ("floor", .floor), ("half-up", .halfUp),
    ("half-down", .halfDown), ("half-even", .halfEven)]

end Rounding

structure QuerySettings where
  arithmetic : Arithmetic
  names : NameRule
deriving DecidableEq

namespace QuerySettings

def standard : QuerySettings :=
  ⟨.standard, .any⟩

/-- The greatest precision that can be asked for. -/
def maxPrecision : Nat := 2 ^ (32 : Nat) - 1

/-!
# Reading
-/

def precision? : JsonValue → Option Nat
  | .number chars =>
      let n := Digits.read chars
      if chars.all Char.isDigit && n ≤ maxPrecision then some n else none
  | _ => none

def context? (json : JsonValue) : Option DecimalContext := do
  match ← json.fields? ["precision", "rounding"] with
  | [some precision, some rounding] =>
      return ⟨← precision? precision, ← rounding.choice? Rounding.names⟩
  | _ => none

def arithmetic? (json : JsonValue) : Option Arithmetic := do
  match ← json.fields? ["kind", "math"] with
  | [some kind, some math] => return ⟨← kind.choice? Representation.names, ← context? math⟩
  | _ => none

/-- A setting that is there is read, one that is not keeps its standard value. -/
def orStandard {A : Type} (read : JsonValue → Option A) (standard : A) :
    Option JsonValue → Option A
  | none => some standard
  | some json => read json

def ofJson? (json : JsonValue) : Option QuerySettings := do
  match ← json.fields? ["numeric", "names"] with
  | [numeric, names] =>
      return ⟨← orStandard arithmetic? standard.arithmetic numeric,
        ← orStandard (·.choice? NameRule.names) standard.names names⟩
  | _ => none

def read? (text : String) : Option QuerySettings :=
  (JsonValue.read? text).bind ofJson?

/-!
# Writing
-/

def nameIn {A : Type} [BEq A] (table : List (String × A)) (a : A) : String :=
  ((table.find? fun entry => entry.2 == a).map (·.1)).getD ""

/-- The text of an object whose members are given as names and texts. -/
def objectText (members : List (String × String)) : String :=
  "\x7b" ++ ",".intercalate (members.map fun (name, value) => "\"" ++ name ++ "\":" ++ value) ++
    "\x7d"

def choiceText {A : Type} [BEq A] (table : List (String × A)) (a : A) : String :=
  "\"" ++ nameIn table a ++ "\""

def text (s : QuerySettings) : String :=
  let math := objectText
    [("precision", String.ofList (Digits.write s.arithmetic.context.precision)),
      ("rounding", choiceText Rounding.names s.arithmetic.context.rounding)]
  let numeric := objectText
    [("kind", choiceText Representation.names s.arithmetic.representation), ("math", math)]
  objectText [("numeric", numeric), ("names", choiceText NameRule.names s.names)]

end QuerySettings
end TreeQuery
