import TreeQuery.Numeric.Number
import TreeQuery.Token.Operator
import TreeQuery.Text.Quoted

/-!
# Predicate expressions

An expression is a literal, the attribute of a node, a call, a binary operation
or a negation.  Its text has parentheses only where the grouping of operators
needs them.
-/

namespace TreeQuery

inductive Expression where
  | number (value : Number)
  | text (value : String)
  /-- The attribute of this name; absent where the node has none. -/
  | attr (name : String)
  | call (name : String) (args : List Expression)
  | binary (left : Expression) (op : Operator) (right : Expression)
  | negate (inner : Expression)

namespace Expression

mutual

/-- The names of all functions called, in the order of the text. -/
def functionNames : Expression → List String
  | .number _ | .text _ | .attr _ => []
  | .call name args => name :: functionNamesAll args
  | .binary left _ right => functionNames left ++ functionNames right
  | .negate inner => functionNames inner

def functionNamesAll : List Expression → List String
  | [] => []
  | e :: es => functionNames e ++ functionNamesAll es

end

mutual

def same : Expression → Expression → Bool
  | .number a, .number b => a == b
  | .text a, .text b => a == b
  | .attr a, .attr b => a == b
  | .call a xs, .call b ys => a == b && sameAll xs ys
  | .binary a o b, .binary c p d => o == p && same a c && same b d
  | .negate a, .negate b => same a b
  | _, _ => false

def sameAll : List Expression → List Expression → Bool
  | [], [] => true
  | x :: xs, y :: ys => same x y && sameAll xs ys
  | _, _ => false

end

instance : BEq Expression := ⟨same⟩

/-!
# Query text
-/

/-- Binding strength; whatever is not a binary operation binds tightest. -/
def strength : Expression → Nat
  | .binary _ op _ => op.strength
  | _ => 6

def isBinary : Expression → Bool
  | .binary _ _ _ => true
  | _ => false

/-- Text between the quotes it does not hold; single quotes are the first choice. -/
def quotedChars (value : List Char) : List Char :=
  if value.contains '\'' then '"' :: (value ++ ['"']) else '\'' :: (value ++ ['\''])

def inParens (needed : Bool) (chars : List Char) : List Char :=
  if needed then '(' :: (chars ++ [')']) else chars

mutual

def chars : Expression → List Char
  | .number n => n.text.toList
  | .text t => quotedChars t.toList
  | .attr name => '@' :: name.toList
  | .call name args => name.toList ++ '(' :: (charsAll args ++ [')'])
  | .binary left op right =>
      inParens (decide (left.strength < op.strength)) (chars left) ++
        ' ' :: (op.spelling.toList ++
          ' ' :: inParens (decide (right.strength ≤ op.strength)) (chars right))
  | .negate inner => '-' :: inParens inner.isBinary (chars inner)

def charsAll : List Expression → List Char
  | [] => []
  | [e] => chars e
  | e :: es => chars e ++ ',' :: ' ' :: charsAll es

end

def displayText (e : Expression) : String :=
  String.ofList e.chars

/-!
# Full text

The full text names every part, with the representation of each number.
-/

def operatorName : Operator → String
  | .or => "Or"
  | .and => "And"
  | .equal => "Equals"
  | .notEqual => "NotEquals"
  | .less => "LessThan"
  | .lessOrEqual => "LessThanOrEqual"
  | .greater => "GreaterThan"
  | .greaterOrEqual => "GreaterThanOrEqual"
  | .add => "Plus"
  | .subtract => "Minus"
  | .multiply => "Multiply"
  | .divide => "Divide"
  | .modulo => "Modulo"

mutual

def fullText : Expression → String
  | .number n => "Number(" ++ n.fullText ++ ")"
  | .text t => "Text(" ++ Quoted.quote t ++ ")"
  | .attr name => "Attribute(" ++ Quoted.quote name ++ ")"
  | .call name args =>
      "FunctionCall \x7b name: " ++ Quoted.quote name ++ ", args: [" ++
        ", ".intercalate (fullTextAll args) ++ "] \x7d"
  | .binary left op right =>
      "Binary \x7b left: " ++ fullText left ++ ", op: " ++ operatorName op ++ ", right: " ++
        fullText right ++ " \x7d"
  | .negate inner => "Negate(" ++ fullText inner ++ ")"

def fullTextAll : List Expression → List String
  | [] => []
  | e :: es => fullText e :: fullTextAll es

end

end Expression
end TreeQuery
