import TreeQuery.Numeric.Number

/-!
# Syntax errors

A rejected query is reported at the furthest place the reader got to, with
everything that it would have accepted there.
-/

namespace TreeQuery

/-- Something the reader would have accepted, in the order in which messages list it. -/
inductive Production where
  | slash
  | axisMark
  | name
  | wildcard
  | openBracket
  | closeBracket
  | operator
  | minus
  | number
  | quotedText
  | at
  | openParen
  | closeParen
  | comma
  | endOfInput
  | shallowerNesting
deriving DecidableEq, Repr

namespace Production

def all : List Production :=
  [.slash, .axisMark, .name, .wildcard, .openBracket, .closeBracket, .operator, .minus, .number,
    .quotedText, .at, .openParen, .closeParen, .comma, .endOfInput, .shallowerNesting]

theorem mem_all (p : Production) : p ∈ all := by
  cases p <;> decide

def text : Production → String
  | .slash => "'/'"
  | .axisMark => "axis prefix"
  | .name => "name"
  | .wildcard => "'*'"
  | .openBracket => "'['"
  | .closeBracket => "']'"
  | .operator => "operator"
  | .minus => "'-'"
  | .number => "number"
  | .quotedText => "quoted text"
  | .at => "'@'"
  | .openParen => "'('"
  | .closeParen => "')'"
  | .comma => "','"
  | .endOfInput => "end of input"
  | .shallowerNesting => "shallower nesting"

/-- The members of a list, each once, in the order of declaration. -/
def ordered (productions : List Production) : List Production :=
  all.filter (productions.contains ·)

end Production

/-- Line and column count from one.  A number literal that cannot be represented is reported by
`numeric`, and nothing is expected then. -/
structure ParseError where
  found : Option Char
  line : Nat
  column : Nat
  expected : List Production
  numeric : Option NumberError
deriving DecidableEq, Repr

namespace ParseError

def unexpected (found : Option Char) (line column : Nat) (expected : List Production) :
    ParseError :=
  ⟨found, line, column, Production.ordered expected, none⟩

def badNumber (found : Option Char) (line column : Nat) (error : NumberError) : ParseError :=
  ⟨found, line, column, [], some error⟩

def foundText : Option Char → String
  | some c => "'" ++ String.singleton c ++ "'"
  | none => "end of input"

def message (e : ParseError) : String :=
  let place := " at line " ++ toString e.line ++ ", column " ++ toString e.column
  match e.numeric with
  | some error => "invalid number" ++ place ++ ": " ++ error.message
  | none =>
      "unexpected " ++ foundText e.found ++ place ++ "; expected one of: " ++
        ", ".intercalate (e.expected.map Production.text)

end ParseError

/-!
# Places in a text
-/

namespace Place

/-- One more than the number of line ends in a text read so far. -/
def line (consumed : List Char) : Nat :=
  consumed.count '\n' + 1

/-- One more than the number of characters since the last line end. -/
def column (consumed : List Char) : Nat :=
  (consumed.reverse.takeWhile (· != '\n')).length + 1

end Place
end TreeQuery
