import TreeQuery.Parser.Basic
import TreeQuery.Token.Basic

/-!
# The grammar of queries

A query is a path of steps.  A step is an axis mark, a node test and predicates
between brackets, and a predicate holds an expression.  Expressions have five
levels of binary operators, all of which group to the left, above negations and
primaries.

Expressions may enclose one another only so deep.  The room that is left is an
argument of the rules for expressions, and they halt where it is used up.
-/

namespace TreeQuery
namespace Grammar

open TreeQuery.Parser

/-- How many expressions may stand inside one another. -/
def maxNesting : Nat := 32

/-!
# Leaves
-/

def leafOf (lexeme : Lexeme) (taken : List Char) : Token :=
  .leaf lexeme (String.ofList taken)

def blanks : Parser (List Token) := fun input =>
  let (taken, rest) := Scan.run Scan.isSpace input
  ⟨.done (if taken.isEmpty then [] else [leafOf .blank taken]) rest, .none⟩

def symbol (s : Symbol) (production : Production) : Parser Token := do
  return leafOf (.symbol s) (← scan production (Scan.exactly s.spelling.toList))

def name : Parser Token := do
  let taken ← scan .name Scan.name
  return leafOf (.name (String.ofList taken)) taken

def wildcard : Parser Token := do
  return leafOf .wildcard (← scan .wildcard (Scan.exactly ['*']))

def nodeTest : Parser Token :=
  wildcard.orElse name

/-- The first mark of a list that stands at the front of a text. -/
def findMark (marks : List AxisMark) (input : List Char) :
    Option (AxisMark × List Char × List Char) :=
  marks.findSome? fun mark =>
    (Scan.ignoringCase mark.spelling.toList input).map fun found => (mark, found)

def axisMark : Parser (AxisMark × Token) := fun input =>
  match findMark AxisMark.all input with
  | some (mark, taken, rest) => ⟨.done (mark, leafOf (.axis mark) taken) rest, .none⟩
  | none => fail .axisMark input

/-- The first operator of a list that stands at the front of a text. -/
def findOperator (choices : List Operator) (input : List Char) :
    Option (Operator × List Char × List Char) :=
  choices.findSome? fun op => (Scan.operator op input).map fun found => (op, found)

def operator (choices : List Operator) : Parser (Operator × Token) := fun input =>
  match findOperator choices input with
  | some (op, taken, rest) => ⟨.done (op, leafOf (.symbol (.operator op)) taken) rest, .none⟩
  | none => fail .operator input

def quotedText : Parser Token := do
  let taken ← scan .quotedText Scan.quoted
  return leafOf (.text (String.ofList (taken.drop 1).dropLast)) taken

def number (arithmetic : Arithmetic) : Parser Token := fun input =>
  match Scan.number input with
  | none => fail .number input
  | some (taken, rest) =>
      match Number.parse (String.ofList taken) arithmetic with
      | .ok value => ⟨.done (leafOf (.number value) taken) rest, .none⟩
      | .error error => ⟨.halt (.badNumber input error), .none⟩

/-!
# Expressions
-/

/-- Reads `p` between two symbols, with blanks inside them. -/
def enclosed (kind : Phrase) (opening closing : Parser Token) (p : Parser Token) :
    Parser Token := do
  let left ← opening
  let before ← blanks
  let inner ← p
  let after ← blanks
  let right ← closing
  return .phrase kind (left :: before ++ inner :: after ++ [right])

def continuation (operand : Parser Token) (choices : List Operator) :
    Parser (Operator × List Token) := do
  let before ← blanks
  let (op, sign) ← operator choices
  let after ← blanks
  let right ← operand
  return (op, before ++ sign :: after ++ [right])

/-- One level of binary operators, grouped to the left. -/
def binaryLevel (choices : List Operator) (operand : Parser Token) : Parser Token := do
  let first ← operand
  let more ← many (continuation operand choices)
  return more.foldl (fun left (op, parts) => .phrase (.binary op) (left :: parts)) first

def levels : List (List Operator) :=
  [[.or], [.and], [.notEqual, .lessOrEqual, .greaterOrEqual, .equal, .less, .greater],
    [.add, .subtract], [.multiply, .divide, .modulo]]

def binary (operand : Parser Token) : Parser Token :=
  levels.foldr binaryLevel operand

def attribution : Parser Token := do
  let sign ← symbol .at .at
  let key ← name
  return .phrase .attribution [sign, key]

def nextArgument (expression : Parser Token) : Parser (List Token) := do
  let before ← blanks
  let comma ← symbol .comma .comma
  let after ← blanks
  let argument ← expression
  return before ++ comma :: after ++ [argument]

def arguments (expression : Parser Token) : Parser (List Token) := do
  let first ← expression
  let more ← many (nextArgument expression)
  let trailing ← blanks
  return first :: more.flatten ++ trailing

def call (expression : Parser Token) : Parser Token := do
  let function ← name
  let before ← blanks
  let left ← symbol .openParen .openParen
  let after ← blanks
  let inner ← option (arguments expression)
  let right ← symbol .closeParen .closeParen
  return .phrase .call (function :: before ++ left :: after ++ inner.getD [] ++ [right])

def group (expression : Parser Token) : Parser Token :=
  enclosed .group (symbol .openParen .openParen) (symbol .closeParen .closeParen) expression

def primary (arithmetic : Arithmetic) (expression : Parser Token) : Parser Token :=
  (number arithmetic).orElse <| quotedText.orElse <| attribution.orElse <|
    (call expression).orElse (group expression)

/-- A negation over `deeper`, or a primary whose own expressions are read by `expression`. -/
def unaryOver (arithmetic : Arithmetic) (deeper expression : Parser Token) :
    Parser Token := fun input =>
  match symbol (.operator .subtract) .minus input with
  | ⟨.done sign rest, seen⟩ =>
      let inner : Parser Token := do
        let space ← blanks
        let operand ← deeper
        return .phrase .negation (sign :: space ++ [operand])
      let next := inner rest
      ⟨next.outcome, seen.join next.frontier⟩
  | ⟨_, seen⟩ =>
      let next := primary arithmetic expression input
      ⟨next.outcome, seen.join next.frontier⟩

def tooDeep : Parser Token :=
  halt .tooDeep

/-- Negations and primaries, with room for `room` further expressions inside. -/
def unary (arithmetic : Arithmetic) : Nat → Parser Token
  | 0 => unaryOver arithmetic tooDeep tooDeep
  | room + 1 =>
      unaryOver arithmetic (unary arithmetic room) (binary (unary arithmetic room))

/-- An expression, where there is room for `room` more. -/
def expression (arithmetic : Arithmetic) : Nat → Parser Token
  | 0 => tooDeep
  | room + 1 => binary (unary arithmetic room)

/-!
# Paths
-/

def predicate (arithmetic : Arithmetic) : Parser (List Token) := do
  let space ← blanks
  let body ← enclosed .predicate (symbol .openBracket .openBracket)
    (symbol .closeBracket .closeBracket) (expression arithmetic maxNesting)
  return space ++ [body]

/-- The node test of a step; it may be missing only after a mark that stands alone. -/
def testAfter : Option (AxisMark × Token) → Parser (List Token)
  | some (mark, _) => do
      if mark.standsAlone then
        let test ← option nodeTest
        return test.toList
      else
        return [← nodeTest]
  | none => do return [← nodeTest]

def step (arithmetic : Arithmetic) : Parser Token := do
  let mark ← option axisMark
  let test ← testAfter mark
  let predicates ← many (predicate arithmetic)
  return .phrase .step ((mark.map (·.2)).toList ++ test ++ predicates.flatten)

/-- A step behind a slash, or one that begins with a double slash itself. -/
def separatedStep (arithmetic : Arithmetic) : Parser (List Token) := do
  if ← ahead ['/', '/'] then
    let next ← step arithmetic
    return [next]
  else
    let slash ← symbol .slash .slash
    let space ← blanks
    let next ← step arithmetic
    return slash :: space ++ [next]

def furtherStep (arithmetic : Arithmetic) : Parser (List Token) := do
  let space ← blanks
  let next ← separatedStep arithmetic
  return space ++ next

def steps (arithmetic : Arithmetic) : Parser (List Token) := do
  let first ← step arithmetic
  let more ← many (furtherStep arithmetic)
  return first :: more.flatten

/-- The single slash that makes a path absolute. -/
def rootSlash : Parser Token := do
  if ← ahead ['/', '/'] then fail .slash else symbol .slash .slash

def spacedSteps (arithmetic : Arithmetic) : Parser (List Token) := do
  let space ← blanks
  let inner ← steps arithmetic
  return space ++ inner

def endOfInput : Parser Unit := fun input =>
  match input with
  | [] => ⟨.done () [], .none⟩
  | _ => fail .endOfInput input

/-- The steps of a path; behind a root slash there may be none. -/
def pathSteps (arithmetic : Arithmetic) (absolute : Bool) : Parser (List Token) := do
  if absolute then
    let inner ← option (spacedSteps arithmetic)
    return inner.getD []
  else
    steps arithmetic

def path (arithmetic : Arithmetic) : Parser Token := do
  let before ← blanks
  let slash ← option rootSlash
  let inner ← pathSteps arithmetic slash.isSome
  let after ← blanks
  endOfInput
  return .phrase (.path slash.isSome) (before ++ slash.toList ++ inner ++ after)

end Grammar

/-!
# Reading a query
-/

namespace ParseError

/-- An error at the place where `remaining` characters are left. -/
def located (input : List Char) (remaining : Nat)
    (make : Option Char → Nat → Nat → ParseError) : ParseError :=
  let consumed := input.take (input.length - remaining)
  make (input.drop (input.length - remaining)).head? (Place.line consumed) (Place.column consumed)

end ParseError

namespace Token

/-- Reads a query whose number literals are those of the arithmetic. -/
def parse (text : String) (arithmetic : Arithmetic) : Except ParseError Token :=
  let input := text.toList
  match Grammar.path arithmetic input with
  | ⟨.done token _, _⟩ => .ok token
  | ⟨.miss, frontier⟩ =>
      .error (ParseError.located input frontier.remaining fun found line column =>
        .unexpected found line column frontier.expected)
  | ⟨.halt (.tooDeep rest), _⟩ =>
      .error (ParseError.located input rest.length fun found line column =>
        .unexpected found line column [.shallowerNesting])
  | ⟨.halt (.badNumber rest error), _⟩ =>
      .error (ParseError.located input rest.length fun found line column =>
        .badNumber found line column error)

end Token
end TreeQuery
