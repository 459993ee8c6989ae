import TreeQuery.Chain.Session
import TreeQuery.Token.Walk

/-!
# From tokens to chains

A path token becomes a chain: an absolute path begins at the root, every step
gives an axis, a name test and predicates.  The first thing in the order of the
text that cannot be used is the error.
-/

namespace TreeQuery

/-- How the names of a query become names of nodes, and which of them are allowed. -/
structure NamePolicy where
  factory : String → String
  allows : String → Bool

namespace NamePolicy

def permissive (factory : String → String) : NamePolicy :=
  ⟨factory, fun _ => true⟩

def name (policy : NamePolicy) (text : String) : Except SelectError String :=
  if policy.allows text then .ok (policy.factory text) else .error (.illegalName text)

end NamePolicy

namespace AxisMark

def axis : AxisMark → Axis
  | .ancestor => .ancestor
  | .ancestorOrSelf => .ancestorOrSelf
  | .child => .child
  | .descendant => .descendant
  | .descendantOrSelf | .doubleSlash => .descendantOrSelf
  | .firstChild => .firstChild
  | .following => .following
  | .followingSibling => .followingSibling
  | .lastChild => .lastChild
  | .parent | .doubleDot => .parent
  | .preceding => .preceding
  | .precedingSibling => .precedingSibling
  | .self | .dot => .self

end AxisMark

namespace Token

def unexpected {A : Type} (expected : String) (t : Token) : Except SelectError A :=
  .error (.unexpectedToken expected t.label)

def nameOf (t : Token) : Except SelectError String :=
  match t with
  | .leaf (.name name) _ => .ok name
  | _ => unexpected "name" t

def operandAt (t : Token) (operands : List (Except SelectError Expression)) (i : Nat) :
    Except SelectError Expression :=
  match operands[i]? with
  | some operand => operand
  | none => unexpected "operand" t

def firstOperand (t : Token) (parts : List Token) : Except SelectError Token :=
  match parts.find? isOperand with
  | some operand => .ok operand
  | none => unexpected "operand" t

mutual

/-- The expression that the body of a predicate stands for. -/
def toExpression : Token → Except SelectError Expression
  | .leaf (.number n) _ => .ok (.number n)
  | .leaf (.text t) _ => .ok (.text t)
  | t@(.leaf _ _) => unexpected "expression" t
  | t@(.phrase kind parts) =>
      let operands := operandExpressions parts
      match kind with
      | .binary op => do
          let left ← operandAt t operands 0
          let right ← operandAt t operands 1
          return .binary left op right
      | .negation => do
          let inner ← operandAt t operands 0
          return .negate inner
      | .group => operandAt t operands 0
      | .attribution => do
          let name ← nameOf (← firstOperand t parts)
          return .attr name
      | .call => do
          let name ← nameOf (← firstOperand t parts)
          let args ← (operands.drop 1).mapM id
          return .call name args
      | .path _ | .step | .predicate => unexpected "expression" t

/-- The operands among the parts of a phrase, each converted. -/
def operandExpressions : List Token → List (Except SelectError Expression)
  | [] => []
  | t :: ts =>
      if t.isOperand then toExpression t :: operandExpressions ts else operandExpressions ts

end

/-- The predicate between two brackets; its functions must be known. -/
def toPredicate {N : Type} (functions : Registry N) (parts : List Token) :
    Except SelectError Predicate := do
  match parts.find? isOperand with
  | none => unexpected "expression" (.phrase .predicate parts)
  | some body =>
      let e ← body.toExpression
      match e.functionNames.find? (!functions.contains ·) with
      | some missing => throw (.unknownFunction missing body.text)
      | none => return ⟨e, body.text⟩

/-- The axis of a step: that of its mark, or the children. -/
def stepAxis (parts : List Token) : Axis :=
  let mark? := parts.findSome? fun
    | .leaf (.axis mark) _ => some mark
    | _ => none
  (mark?.map AxisMark.axis).getD .child

end Token

/-!
# Gathering steps

A visitor of the path gathers the steps.  Once it has an error it takes nothing
more, and it does not look into predicates, which are converted as a whole.
-/

structure ChainBuilder where
  steps : List Step
  error? : Option SelectError

namespace ChainBuilder

def record (b : ChainBuilder) : Except SelectError Step → ChainBuilder
  | .ok step => { b with steps := b.steps ++ [step] }
  | .error e => { b with error? := some e }

def start {N : Type} (functions : Registry N) (kind : Phrase) (parts : List Token)
    (b : ChainBuilder) : Visit × ChainBuilder :=
  if b.error?.isSome then
    (.skip, b)
  else
    match kind with
    | .path absolute => (.parts, if absolute then b.record (.ok (.axis .root)) else b)
    | .step => (.parts, b.record (.ok (.axis (Token.stepAxis parts))))
    | .predicate => (.skip, b.record ((Token.toPredicate functions parts).map .predicate))
    | _ => (.skip, b)

def leaf (policy : NamePolicy) (lexeme : Lexeme) (b : ChainBuilder) : ChainBuilder :=
  if b.error?.isSome then
    b
  else
    match lexeme with
    | .name name => b.record ((policy.name name).map fun name => .name (.named name))
    | .wildcard => b.record (.ok (.name .any))
    | _ => b

def visitor {N : Type} (policy : NamePolicy) (functions : Registry N) :
    Visitor (StateM ChainBuilder) where
  enter _ := pure ()
  leave _ := pure ()
  start kind parts := modifyGet (start functions kind parts)
  finish _ _ := pure ()
  leaf lexeme _ := modify (leaf policy lexeme)

def result (b : ChainBuilder) : Except SelectError (List Step) :=
  match b.error? with
  | some e => .error e
  | none => .ok b.steps

end ChainBuilder

namespace Token

def compile {N : Type} (policy : NamePolicy) (functions : Registry N) (t : Token) :
    Except SelectError Chain :=
  match t with
  | .phrase (.path _) _ =>
      ((t.walk (ChainBuilder.visitor policy functions)).run ⟨[], none⟩).2.result.map Chain.mk
  | _ => unexpected "path" t

end Token
end TreeQuery
