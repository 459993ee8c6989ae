import TreeQuery.Proofs.Expression.Resolving
import TreeQuery.Tree.Sample

/-!
# Operands that decide

The operators `and` and `or` are there twice: on values, where both operands
are at hand, and on expressions, where the right operand is evaluated only if
the left one does not decide.  Both agree wherever the right operand has a
value.  Since the operand that decides `and` decides `or` once it is negated,
the laws of De Morgan hold for errors too.
-/

namespace TreeQuery

namespace Value

def not (v : Value) : Value :=
  .boolean (!v.toBoolean)

end Value

namespace Operator

/-- The result, if a left operand of this truth decides it alone. -/
def decides? : Operator → Bool → Option Bool
  | .and, false => some false
  | .or, true => some true
  | _, _ => none

theorem operate_of_decides {op : Operator} {a : Value} {truth : Bool}
    (h : op.decides? a.toBoolean = some truth) (arithmetic : Arithmetic) (b : Value) :
    Value.operate arithmetic op a b = .ok (.boolean truth) := by
  cases op with
  | and =>
      cases ha : a.toBoolean with
      | false =>
          rw [ha] at h
          cases h
          rw [Value.operate, ha, Bool.false_and]
      | true =>
          rw [ha] at h
          cases h
  | or =>
      cases ha : a.toBoolean with
      | false =>
          rw [ha] at h
          cases h
      | true =>
          rw [ha] at h
          cases h
          rw [Value.operate, ha, Bool.true_or]
  | _ => cases h

/-- The second operator does to negated operands what the first one does to the operands. -/
structure Dual (op dual : Operator) : Prop where
  decides : ∀ truth : Bool, dual.decides? (!truth) = (op.decides? truth).map (!·)
  operate : ∀ (arithmetic : Arithmetic) (a b : Value),
    Value.operate arithmetic dual a.not b.not = (Value.operate arithmetic op a b).map Value.not

theorem dual_and : Dual .and .or where
  decides := by decide
  operate _ a b := congrArg (fun truth => Except.ok (Value.boolean truth))
    (Bool.not_and a.toBoolean b.toBoolean).symm

theorem dual_or : Dual .or .and where
  decides := by decide
  operate _ a b := congrArg (fun truth => Except.ok (Value.boolean truth))
    (Bool.not_or a.toBoolean b.toBoolean).symm

end Operator

namespace Expression

variable {N : Type} [DecidableEq N] [Navigable N] {functions : Registry N} {focus : Focus N}
  {a left right : Expression} {op dual : Operator} {x v : Value} {e : EvalError}

/-!
# One operation

The left operand is evaluated first.  It may fail, decide, or leave it to the
right one.
-/

theorem evaluate_binary_of_error (ha : a.evaluate functions focus = .error e) (op : Operator)
    (b : Expression) : (binary a op b).evaluate functions focus = .error e := by
  rw [evaluate, ha]
  rfl

theorem evaluate_and_of_ok (hleft : left.evaluate functions focus = .ok v) :
    (binary left .and right).evaluate functions focus =
      if v.toBoolean then (right.evaluate functions focus).map fun w => .boolean w.toBoolean
      else .ok (.boolean false) := by
  rw [evaluate, hleft]
  rfl

theorem evaluate_or_of_ok (hleft : left.evaluate functions focus = .ok v) :
    (binary left .or right).evaluate functions focus =
      if v.toBoolean then .ok (.boolean true)
      else (right.evaluate functions focus).map fun w => .boolean w.toBoolean := by
  rw [evaluate, hleft]
  rfl

theorem evaluate_binary_of_decides {truth : Bool} (ha : a.evaluate functions focus = .ok x)
    (h : op.decides? x.toBoolean = some truth) (b : Expression) :
    (binary a op b).evaluate functions focus = .ok (.boolean truth) := by
  cases op with
  | and =>
      cases hx : x.toBoolean with
      | false =>
          rw [hx] at h
          cases h
          exact (evaluate_and_of_ok ha).trans (if_neg (ne_true_of_eq_false hx))
      | true =>
          rw [hx] at h
          cases h
  | or =>
      cases hx : x.toBoolean with
      | false =>
          rw [hx] at h
          cases h
      | true =>
          rw [hx] at h
          cases h
          exact (evaluate_or_of_ok ha).trans (if_pos hx)
  | _ => cases h

theorem evaluate_binary_of_undecided (ha : a.evaluate functions focus = .ok x)
    (h : op.decides? x.toBoolean = none) (b : Expression) :
    (binary a op b).evaluate functions focus =
      (b.evaluate functions focus >>= fun y => Value.operate focus.arithmetic op x y) := by
  cases op with
  | and =>
      cases hx : x.toBoolean with
      | false =>
          rw [hx] at h
          cases h
      | true =>
          rw [evaluate_and_of_ok ha, if_pos hx]
          simp only [Value.operate, hx, Bool.true_and]
          rfl
  | or =>
      cases hx : x.toBoolean with
      | false =>
          rw [evaluate_or_of_ok ha, if_neg (ne_true_of_eq_false hx)]
          simp only [Value.operate, hx, Bool.false_or]
          rfl
      | true =>
          rw [hx] at h
          cases h
  | _ =>
      rw [evaluate, ha]
      rfl

theorem evaluate_binary_of_ok {b : Expression} {y : Value}
    (ha : a.evaluate functions focus = .ok x) (hb : b.evaluate functions focus = .ok y)
    (op : Operator) :
    (binary a op b).evaluate functions focus = Value.operate focus.arithmetic op x y := by
  cases h : op.decides? x.toBoolean with
  | some truth =>
      rw [evaluate_binary_of_decides ha h, Operator.operate_of_decides h]
  | none =>
      rw [evaluate_binary_of_undecided ha h, hb]
      rfl

/-!
# Negation
-/

def HasNot (functions : Registry N) : Prop :=
  functions.get? "not" = Registry.builtins.get? "not"

theorem evaluate_not (hnot : HasNot functions) (focus : Focus N) (a : Expression) :
    (call "not" [a]).evaluate functions focus = (a.evaluate functions focus).map Value.not := by
  have hfound : (Registry.builtins (N := N)).get? "not" =
      some (Arguments.unary "not" fun _ v => .ok v.not) :=
    Registry.get?_ofList_append [_, _, _, _, _, _, _] (by simp)
  rw [evaluate, hnot.trans hfound]
  dsimp only
  rw [evaluateAll, evaluateAll]
  cases a.evaluate functions focus with
  | error e => rfl
  | ok v => rfl

/-- Negation goes into an operation from outside, whatever the operands do. -/
theorem evaluate_not_binary (hnot : HasNot functions) (hdual : op.Dual dual) (focus : Focus N)
    (a b : Expression) :
    (call "not" [binary a op b]).evaluate functions focus =
      (binary (call "not" [a]) dual (call "not" [b])).evaluate functions focus := by
  have hnegated := evaluate_not hnot focus a
  rw [evaluate_not hnot]
  cases ha : a.evaluate functions focus with
  | error e =>
      rw [ha] at hnegated
      rw [evaluate_binary_of_error ha, evaluate_binary_of_error hnegated]
      rfl
  | ok x =>
      rw [ha] at hnegated
      have hdecides : dual.decides? x.not.toBoolean = (op.decides? x.toBoolean).map (!·) :=
        hdual.decides x.toBoolean
      cases h : op.decides? x.toBoolean with
      | some truth =>
          rw [h] at hdecides
          rw [evaluate_binary_of_decides ha h, evaluate_binary_of_decides hnegated hdecides]
          rfl
      | none =>
          rw [h] at hdecides
          rw [evaluate_binary_of_undecided ha h, evaluate_binary_of_undecided hnegated hdecides,
            evaluate_not hnot]
          cases b.evaluate functions focus with
          | error e => rfl
          | ok y => exact (hdual.operate focus.arithmetic x y).symm

/-- Evaluating the operands of an operator one by one refines the operator on their values: where
both have one it is the same, a left operand that decides makes the right one irrelevant, and
negation goes through `and` and `or` with the same value or the same error. -/
theorem evaluate_shortCircuit (functions : Registry N) (focus : Focus N) (a b : Expression) :
    (∀ x y, a.evaluate functions focus = .ok x → b.evaluate functions focus = .ok y →
        ∀ op, (binary a op b).evaluate functions focus =
          Value.operate focus.arithmetic op x y) ∧
      (∀ x, a.evaluate functions focus = .ok x →
        (x.toBoolean = false → ∀ right,
            (binary a .and right).evaluate functions focus = .ok (.boolean false)) ∧
          (x.toBoolean = true → ∀ right,
            (binary a .or right).evaluate functions focus = .ok (.boolean true))) ∧
      (functions.get? "not" = Registry.builtins.get? "not" →
        (call "not" [binary a .and b]).evaluate functions focus =
            (binary (call "not" [a]) .or (call "not" [b])).evaluate functions focus ∧
          (call "not" [binary a .or b]).evaluate functions focus =
            (binary (call "not" [a]) .and (call "not" [b])).evaluate functions focus) := by
  refine ⟨fun x y ha hb => evaluate_binary_of_ok ha hb, ?_, ?_⟩
  · intro x ha
    constructor
    · intro hx
      exact evaluate_binary_of_decides ha (congrArg (Operator.decides? .and) hx)
    · intro hx
      exact evaluate_binary_of_decides ha (congrArg (Operator.decides? .or) hx)
  · intro hnot
    exact ⟨evaluate_not_binary hnot Operator.dual_and focus a b,
      evaluate_not_binary hnot Operator.dual_or focus a b⟩

/-- A missing attribute decides `and`, one that is there decides `or`, and an unknown function on
the right is found out by neither. -/
theorem evaluate_shortCircuit_leaf :
    let focus : Focus Node := ⟨((Sample.leaf "a").run 0).1, 1, .standard⟩
    let missing : Expression := .attr "lang"
    let id : Expression := .attr "id"
    let failing : Expression := .call "nowhere" []
    (missing.evaluate .builtins focus = .ok .absent ∧
        id.evaluate .builtins focus = .ok (.text "a") ∧
        failing.evaluate .builtins focus = .error (.unknownFunction "nowhere")) ∧
      (binary missing .notEqual id).evaluate .builtins focus = .ok (.boolean false) ∧
      (binary missing .and failing).evaluate .builtins focus = .ok (.boolean false) ∧
      (binary id .or failing).evaluate .builtins focus = .ok (.boolean true) ∧
      (call "not" [binary id .and failing]).evaluate .builtins focus =
        (binary (call "not" [id]) .or (call "not" [failing])).evaluate .builtins focus ∧
      (call "not" [binary id .and failing]).evaluate .builtins focus =
        .error (.unknownFunction "nowhere") := by
  intro focus missing id failing
  have hmissing : missing.evaluate .builtins focus = .ok .absent := rfl
  have hid : id.evaluate .builtins focus = .ok (.text "a") := rfl
  have hunknown : (Registry.builtins (N := Node)).get? "nowhere" = none :=
    Option.isNone_iff_eq_none.mp (by decide +kernel)
  have hfailing : failing.evaluate .builtins focus = .error (.unknownFunction "nowhere") := by
    rw [evaluate, hunknown]
  have hleft := evaluate_shortCircuit .builtins focus missing id
  have hright := evaluate_shortCircuit .builtins focus id failing
  refine ⟨⟨hmissing, hid, hfailing⟩, hleft.1 _ _ hmissing hid .notEqual,
    (hleft.2.1 _ hmissing).1 rfl failing, (hright.2.1 _ hid).2 (by decide) failing,
    (hright.2.2 rfl).1, ?_⟩
  rw [evaluate_not rfl, evaluate_binary_of_undecided hid (by decide), hfailing]
  rfl

end Expression
end TreeQuery
