/-!
# Runs of characters

Character properties are tables of runs: every character, or every second one,
between two code points.
-/

namespace TreeQuery

structure CharRun where
  first : Nat
  last : Nat
  stride : Nat
deriving DecidableEq, Repr

namespace CharRun

def contains (run : CharRun) (c : Char) : Bool :=
  run.first ≤ c.toNat && c.toNat ≤ run.last && (c.toNat - run.first) % run.stride == 0

end CharRun

/-- Whether a character lies in a table. -/
def inTable (table : List CharRun) (c : Char) : Bool :=
  table.any (·.contains c)

end TreeQuery
