/-!
# Binary operators

The operators of predicate expressions, from the loosest to the tightest.
-/

namespace TreeQuery

inductive Operator where
  | or
  | and
  | equal
  | notEqual
  | less
  | lessOrEqual
  | greater
  | greaterOrEqual
  | add
  | subtract
  | multiply
  | divide
  | modulo
deriving DecidableEq, Repr

namespace Operator

/-- The small-letter spelling in a query. -/
def spelling : Operator → String
  | .or => "or"
  | .and => "and"
  | .equal => "="
  | .notEqual => "!="
  | .less => "<"
  | .lessOrEqual => "<="
  | .greater => ">"
  | .greaterOrEqual => ">="
  | .add => "+"
  | .subtract => "-"
  | .multiply => "*"
  | .divide => "div"
  | .modulo => "mod"

/-- Operators that are spelled with letters ignore case and end where a name would end. -/
def isWord : Operator → Bool
  | .or | .and | .divide | .modulo => true
  | _ => false

/-- Binding strength; a larger one binds tighter. -/
def strength : Operator → Nat
  | .or => 1
  | .and => 2
  | .equal | .notEqual | .less | .lessOrEqual | .greater | .greaterOrEqual => 3
  | .add | .subtract => 4
  | .multiply | .divide | .modulo => 5

def all : List Operator :=
  [.or, .and, .equal, .notEqual, .less, .lessOrEqual, .greater, .greaterOrEqual, .add, .subtract,
    .multiply, .divide, .modulo]

theorem mem_all (op : Operator) : op ∈ all := by
  cases op <;> decide

end Operator
end TreeQuery
