import TreeQuery.Chain.Axis
import TreeQuery.Expression.Value

/-!
# Chains

A chain is a list of steps that is applied from the left.  An axis lists
candidates around the current node, name tests and predicates narrow them down,
and what is left after the last step is selected.
-/

namespace TreeQuery

inductive NameTest where
  | any
  | named (name : String)
deriving DecidableEq, Repr

namespace NameTest

def accepts : NameTest → String → Bool
  | .any, _ => true
  | .named expected, name => expected == name

def ofText (text : String) (factory : String → String) : NameTest :=
  if text = "*" then .any else .named (factory text)

def text : NameTest → String
  | .any => "*"
  | .named name => name

end NameTest

/-- An expression between brackets and the text it came from, which error messages quote. -/
structure Predicate where
  expression : Expression
  text : String

namespace Predicate

/-- A predicate whose text is the canonical one. -/
def ofExpression (e : Expression) : Predicate :=
  ⟨e, e.displayText⟩

/-- Whether a value admits the candidate at a position: a number stands for the position itself,
any other value for its truth. -/
def accepts (value : Value) (position : Nat) : Bool :=
  match value with
  | .number n => n.equalsPosition position
  | other => other.toBoolean

def same (p q : Predicate) : Bool :=
  p.expression == q.expression && p.text == q.text

end Predicate

inductive Step where
  | axis (axis : Axis)
  | name (test : NameTest)
  | predicate (predicate : Predicate)

namespace Step

def isAxis : Step → Bool
  | .axis _ => true
  | _ => false

def same : Step → Step → Bool
  | .axis a, .axis b => a == b
  | .name s, .name t => s == t
  | .predicate p, .predicate q => p.same q
  | _, _ => false

instance : BEq Step := ⟨same⟩

def fullText (nameText : String → String) : Step → String
  | .axis a => "Axis(" ++ a.fullText ++ ")"
  | .name .any => "Name(Any)"
  | .name (.named n) => "Name(Named(" ++ nameText n ++ "))"
  | .predicate p =>
      "Predicate(Predicate \x7b expression: " ++ p.expression.fullText ++ ", text: " ++
        Quoted.quote p.text ++ " \x7d)"

end Step

structure Chain where
  steps : List Step

namespace Chain

/-- The chain that selects the node it is applied to. -/
def empty : Chain := ⟨[]⟩

def isEmpty (c : Chain) : Bool :=
  c.steps.isEmpty

def push (c : Chain) (step : Step) : Chain :=
  ⟨c.steps ++ [step]⟩

def append (a b : Chain) : Chain :=
  ⟨a.steps ++ b.steps⟩

def axis (c : Chain) (axis : Axis) : Chain :=
  c.push (.axis axis)

def named (c : Chain) (name : String) : Chain :=
  c.push (.name (.named name))

def anyName (c : Chain) : Chain :=
  c.push (.name .any)

def satisfying (c : Chain) (e : Expression) : Chain :=
  c.push (.predicate (.ofExpression e))

def position (c : Chain) (n : Int64) : Chain :=
  c.satisfying (.number (.ofInt64 n))

def same (a b : Chain) : Bool :=
  a.steps == b.steps

instance : BEq Chain := ⟨same⟩

/-!
# Query text

Every axis is spelled out and an axis without a name test gets `*`, so that the
text reads back to a chain that selects the same nodes.
-/

/-- What the text written so far calls for. -/
structure Pending where
  /-- A slash has to come before a further axis. -/
  separator : Bool
  /-- The last axis has no test yet. -/
  test : Bool

namespace Pending

def start : Pending := ⟨false, false⟩

def settled : Pending := ⟨true, false⟩

def star (p : Pending) : List Char :=
  if p.test then ['*'] else []

def slash (p : Pending) : List Char :=
  if p.separator then ['/'] else []

end Pending

def selfMark : List Char :=
  Axis.self.text.toList

def stepChars (pending : Pending) : Step → List Char × Pending
  | .axis .root => (pending.star ++ ['/'], .start)
  | .axis a => (pending.star ++ pending.slash ++ a.text.toList, ⟨true, true⟩)
  | .name test =>
      ((if pending.test then [] else pending.slash ++ selfMark) ++ test.text.toList, .settled)
  | .predicate p =>
      ((if pending.test then ['*'] else if pending.separator then [] else selfMark ++ ['*']) ++
        '[' :: (p.expression.chars ++ [']']), .settled)

def charsFrom (pending : Pending) : List Step → List Char
  | [] => pending.star
  | step :: rest =>
      let (chars, next) := stepChars pending step
      chars ++ charsFrom next rest

def displayText (c : Chain) : String :=
  String.ofList (if c.isEmpty then selfMark ++ ['*'] else charsFrom .start c.steps)

def fullText (nameText : String → String) (c : Chain) : String :=
  "[" ++ ", ".intercalate (c.steps.map (Step.fullText nameText)) ++ "]"

end Chain
end TreeQuery
