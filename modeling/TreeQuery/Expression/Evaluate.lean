import TreeQuery.Expression.Function

/-!
# Evaluation

An expression is evaluated at one node.  The operands of `and` and `or` are
evaluated from the left, and the second only where the first does not decide.
A function is looked up before its arguments are evaluated.
-/

namespace TreeQuery
namespace Expression

variable {N : Type} [DecidableEq N] [Navigable N]

mutual

def evaluate (functions : Registry N) (focus : Focus N) : Expression → Except EvalError Value
  | .number n => .ok (.number n)
  | .text t => .ok (.text t)
  | .attr name =>
      match Navigable.attribute? focus.node name with
      | some t => .ok (.text t)
      | none => .ok .absent
  | .call name args =>
      match functions.get? name with
      | none => .error (.unknownFunction name)
      | some f => do
          let values ← evaluateAll functions focus args
          f focus values
  | .binary left op right => do
      let a ← evaluate functions focus left
      match op with
      | .and =>
          if a.toBoolean then
            let b ← evaluate functions focus right
            return .boolean b.toBoolean
          else
            return .boolean false
      | .or =>
          if a.toBoolean then
            return .boolean true
          else
            let b ← evaluate functions focus right
            return .boolean b.toBoolean
      | op => do
          let b ← evaluate functions focus right
          Value.operate focus.arithmetic op a b
  | .negate inner => do
      let a ← evaluate functions focus inner
      a.negate focus.arithmetic

def evaluateAll (functions : Registry N) (focus : Focus N) :
    List Expression → Except EvalError (List Value)
  | [] => .ok []
  | e :: es => do
      let v ← evaluate functions focus e
      let vs ← evaluateAll functions focus es
      return v :: vs

end

end Expression
end TreeQuery
