import TreeQuery.Numeric.Number
import TreeQuery.Token.Operator

/-!
# Tokens

A query is read into a tree of tokens that keeps every character: a leaf holds
its own text and the text of a phrase is that of its parts, blanks included.
-/

namespace TreeQuery

/-- Axis marks as they are written, the short forms among them. -/
inductive AxisMark where
  | ancestor
  | ancestorOrSelf
  | child
  | descendant
  | descendantOrSelf
  | doubleSlash
  | firstChild
  | following
  | followingSibling
  | lastChild
  | parent
  | doubleDot
  | preceding
  | precedingSibling
  | self
  | dot
deriving DecidableEq, Repr

namespace AxisMark

def spelling : AxisMark → String
  | .ancestor => "ancestor::"
  | .ancestorOrSelf => "ancestor-or-self::"
  | .child => "child::"
  | .descendant => "descendant::"
  | .descendantOrSelf => "descendant-or-self::"
  | .doubleSlash => "//"
  | .firstChild => "first-child::"
  | .following => "following::"
  | .followingSibling => "following-sibling::"
  | .lastChild => "last-child::"
  | .parent => "parent::"
  | .doubleDot => ".."
  | .preceding => "preceding::"
  | .precedingSibling => "preceding-sibling::"
  | .self => "self::"
  | .dot => "."

/-- Every mark, in an order in which none is the beginning of a later one. -/
def all : List AxisMark :=
  [.ancestorOrSelf, .ancestor, .child, .descendantOrSelf, .descendant, .firstChild,
    .followingSibling, .following, .lastChild, .parent, .precedingSibling, .preceding, .self,
    .doubleSlash, .doubleDot, .dot]

theorem mem_all (mark : AxisMark) : mark ∈ all := by
  cases mark <;> decide

/-- Marks that may be a whole step. -/
def standsAlone : AxisMark → Bool
  | .dot | .doubleDot => true
  | _ => false

end AxisMark

inductive Symbol where
  | slash
  | at
  | openBracket
  | closeBracket
  | openParen
  | closeParen
  | comma
  | operator (op : Operator)
deriving DecidableEq, Repr

namespace Symbol

def spelling : Symbol → String
  | .slash => "/"
  | .at => "@"
  | .openBracket => "["
  | .closeBracket => "]"
  | .openParen => "("
  | .closeParen => ")"
  | .comma => ","
  | .operator op => op.spelling

end Symbol

/-- What a leaf stands for. -/
inductive Lexeme where
  | name (name : String)
  | number (number : Number)
  /-- Quoted text, without its quotes. -/
  | text (text : String)
  | axis (mark : AxisMark)
  | wildcard
  | symbol (symbol : Symbol)
  | blank
deriving Repr

/-- What a phrase is. -/
inductive Phrase where
  | path (absolute : Bool)
  | step
  | predicate
  | binary (op : Operator)
  | negation
  | call
  | group
  | attribution
deriving DecidableEq, Repr

inductive Token where
  | leaf (lexeme : Lexeme) (text : String)
  | phrase (kind : Phrase) (parts : List Token)

namespace Lexeme

def label : Lexeme → String
  | .name _ => "Name"
  | .number _ => "Number"
  | .text _ => "Text"
  | .axis _ => "Axis"
  | .wildcard => "Wildcard"
  | .symbol _ => "Symbol"
  | .blank => "Whitespace"

def same : Lexeme → Lexeme → Bool
  | .name a, .name b => a == b
  | .number a, .number b => a == b
  | .text a, .text b => a == b
  | .axis a, .axis b => a == b
  | .wildcard, .wildcard => true
  | .symbol a, .symbol b => a == b
  | .blank, .blank => true
  | _, _ => false

end Lexeme

namespace Phrase

def label : Phrase → String
  | .path true => "AbsolutePath"
  | .path false => "Path"
  | .step => "Step"
  | .predicate => "Predicate"
  | .binary _ => "Binary"
  | .negation => "Negation"
  | .call => "FunctionCall"
  | .group => "Group"
  | .attribution => "Attribute"

end Phrase

namespace Token

/-!
# Text
-/

mutual

def chars : Token → List Char
  | .leaf _ text => text.toList
  | .phrase _ parts => charsAll parts

def charsAll : List Token → List Char
  | [] => []
  | t :: ts => chars t ++ charsAll ts

end

def text (t : Token) : String :=
  String.ofList t.chars

theorem charsAll_append (xs ys : List Token) :
    charsAll (xs ++ ys) = charsAll xs ++ charsAll ys := by
  induction xs with
  | nil => simp [charsAll]
  | cons x xs ih => simp [charsAll, ih]

mutual

def leaves : Token → List (Lexeme × String)
  | .leaf lexeme text => [(lexeme, text)]
  | .phrase _ parts => leavesAll parts

def leavesAll : List Token → List (Lexeme × String)
  | [] => []
  | t :: ts => leaves t ++ leavesAll ts

end

mutual

def same : Token → Token → Bool
  | .leaf a s, .leaf b t => a.same b && s == t
  | .phrase j xs, .phrase k ys => j == k && sameAll xs ys
  | _, _ => false

def sameAll : List Token → List Token → Bool
  | [], [] => true
  | x :: xs, y :: ys => same x y && sameAll xs ys
  | _, _ => false

end

instance : BEq Token := ⟨same⟩

def label : Token → String
  | .leaf lexeme _ => lexeme.label
  | .phrase kind _ => kind.label

def isBlank : Token → Bool
  | .leaf .blank _ => true
  | _ => false

def isLeaf : Token → Bool
  | .leaf _ _ => true
  | .phrase _ _ => false

/-- A part that carries meaning: neither blank nor punctuation nor the sign of an operator. -/
def isOperand : Token → Bool
  | .leaf .blank _ => false
  | .leaf (.symbol _) _ => false
  | _ => true

/-!
# Making tokens
-/

def name (name : String) : Token :=
  .leaf (.name name) name

def number (value : Number) (text : String) : Token :=
  .leaf (.number value) text

def quoted (value : String) (quote : Char) : Token :=
  .leaf (.text value) (String.ofList (quote :: (value.toList ++ [quote])))

def axis (mark : AxisMark) : Token :=
  .leaf (.axis mark) mark.spelling

def wildcard : Token :=
  .leaf .wildcard "*"

def symbol (s : Symbol) : Token :=
  .leaf (.symbol s) s.spelling

def blank (text : String) : Token :=
  .leaf .blank text

end Token
end TreeQuery
