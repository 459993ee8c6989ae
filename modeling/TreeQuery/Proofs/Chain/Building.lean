import TreeQuery.Chain.Compile

/-!
# Steps by recursion

The visitor that gathers the steps of a path keeps a row of steps and perhaps
an error.  Token by token it adds what the recursion over the tokens gives, and
the first error is the one that remains.
-/

namespace TreeQuery

namespace Token

mutual

def toSteps {N : Type} (policy : NamePolicy) (functions : Registry N) :
    Token → Except SelectError (List Step)
  | .leaf (.name name) _ => do
      let name ← policy.name name
      return [.name (.named name)]
  | .leaf .wildcard _ => .ok [.name .any]
  | .leaf _ _ => .ok []
  | .phrase kind parts =>
      match kind with
      | .path absolute => do
          let steps ← toStepsAll policy functions parts
          return (if absolute then [.axis .root] else []) ++ steps
      | .step => do
          let steps ← toStepsAll policy functions parts
          return .axis (stepAxis parts) :: steps
      | .predicate => do
          let predicate ← toPredicate functions parts
          return [.predicate predicate]
      | _ => .ok []

def toStepsAll {N : Type} (policy : NamePolicy) (functions : Registry N) :
    List Token → Except SelectError (List Step)
  | [] => .ok []
  | t :: ts => do
      let steps ← toSteps policy functions t
      let more ← toStepsAll policy functions ts
      return steps ++ more

end

end Token

namespace ChainBuilder

variable {N : Type} {policy : NamePolicy} {functions : Registry N} {b : ChainBuilder}

def extend (b : ChainBuilder) (more : Except SelectError (List Step)) :
    Except SelectError (List Step) := do
  let steps ← b.result
  return steps ++ (← more)

theorem extend_of_error {e : SelectError} (h : b.error? = some e)
    (more : Except SelectError (List Step)) : b.extend more = .error e := by
  rw [extend, result, h]
  rfl

theorem extend_of_none (h : b.error? = none) (more : Except SelectError (List Step)) :
    b.extend more = more.map (b.steps ++ ·) := by
  rw [extend, result, h]
  cases more with
  | ok steps => rfl
  | error e => rfl

theorem result_of_error {e : SelectError} (h : b.error? = some e) : b.result = .error e := by
  rw [result, h]

theorem result_of_none (h : b.error? = none) : b.result = .ok b.steps := by
  rw [result, h]

theorem extend_nil (b : ChainBuilder) : b.extend (.ok []) = b.result := by
  unfold extend
  cases b.result with
  | ok steps => exact congrArg Except.ok (List.append_nil steps)
  | error e => rfl

/-!
# Recording
-/

theorem result_record (h : b.error? = none) (step : Except SelectError Step) :
    (b.record step).result = b.extend (step.map fun step => [step]) := by
  rw [extend_of_none h]
  cases step with
  | ok step => exact result_of_none h
  | error e => rfl

theorem extend_record (h : b.error? = none) (step : Step)
    (more : Except SelectError (List Step)) :
    (b.record (.ok step)).extend more = b.extend (more.map (step :: ·)) := by
  have hrecord : (b.record (.ok step)).error? = none := h
  rw [extend_of_none hrecord, extend_of_none h]
  cases more with
  | ok steps => exact congrArg Except.ok (List.append_assoc b.steps [step] steps)
  | error e => rfl

/-!
# Visiting
-/

theorem run_parts {kind : Phrase} {parts : List Token} {b' : ChainBuilder}
    (h : start functions kind parts b = (.parts, b')) :
    (((Token.phrase kind parts).walk (visitor policy functions)).run b).2 =
      ((Token.walkAll (visitor policy functions) parts).run b').2 := by
  simp only [Token.walk, visitor, StateT.run_bind, StateT.run_pure, StateT.run_modifyGet,
    pure_bind, h]
  rfl

theorem run_skip {kind : Phrase} {parts : List Token} {b' : ChainBuilder}
    (h : start functions kind parts b = (.skip, b')) :
    (((Token.phrase kind parts).walk (visitor policy functions)).run b).2 = b' := by
  simp only [Token.walk, visitor, StateT.run_bind, StateT.run_pure, StateT.run_modifyGet,
    pure_bind, h]
  rfl

theorem result_leaf (b : ChainBuilder) (lexeme : Lexeme) (text : String) :
    (b.leaf policy lexeme).result =
      b.extend ((Token.leaf lexeme text).toSteps policy functions) := by
  unfold leaf
  cases herror : b.error? with
  | some e =>
      rw [if_pos Option.isSome_some, result_of_error herror, extend_of_error herror]
  | none =>
      rw [if_neg (by decide)]
      cases lexeme with
      | name name =>
          show (b.record _).result = _
          rw [result_record herror, Token.toSteps]
          cases policy.name name with
          | ok name => rfl
          | error e => rfl
      | wildcard => exact result_record herror _
      | _ => exact (extend_nil b).symm

end ChainBuilder

namespace Token

open ChainBuilder

variable {N : Type} {policy : NamePolicy} {functions : Registry N}

mutual

theorem result_walk : ∀ (t : Token) (b : ChainBuilder),
    ((t.walk (visitor policy functions)).run b).2.result =
      b.extend (t.toSteps policy functions)
  | .leaf lexeme text, b => result_leaf b lexeme text
  | .phrase kind parts, b => by
      cases herror : b.error? with
      | some e =>
          have hstart : start functions kind parts b = (.skip, b) :=
            if_pos (Option.isSome_of_eq_some herror)
          rw [run_skip hstart, result_of_error herror, extend_of_error herror]
      | none =>
          have hopen : ¬b.error?.isSome = true := by
            rw [herror]
            decide
          cases kind with
          | path absolute =>
              have hstart : start functions (.path absolute) parts b =
                  (.parts, if absolute then b.record (.ok (.axis .root)) else b) := if_neg hopen
              rw [run_parts hstart, result_walkAll parts, toSteps]
              cases absolute with
              | true =>
                  rw [if_pos rfl, extend_record herror]
                  rfl
              | false =>
                  rw [if_neg Bool.false_ne_true]
                  exact congrArg b.extend (bind_pure _).symm
          | step =>
              have hstart : start functions .step parts b =
                  (.parts, b.record (.ok (.axis (stepAxis parts)))) := if_neg hopen
              rw [run_parts hstart, result_walkAll parts, toSteps, extend_record herror]
              rfl
          | predicate =>
              have hstart : start functions .predicate parts b =
                  (.skip, b.record ((toPredicate functions parts).map .predicate)) := if_neg hopen
              rw [run_skip hstart, result_record herror, toSteps]
              cases toPredicate functions parts with
              | ok p => rfl
              | error e => rfl
          | _ =>
              apply Eq.trans _ (extend_nil b).symm
              apply congrArg ChainBuilder.result
              exact run_skip (if_neg hopen)

theorem result_walkAll : ∀ (ts : List Token) (b : ChainBuilder),
    ((walkAll (visitor policy functions) ts).run b).2.result =
      b.extend (toStepsAll policy functions ts)
  | [], b => by
      rw [toStepsAll, extend_nil]
      rfl
  | t :: ts, b => by
      have hrun : ((walkAll (visitor policy functions) (t :: ts)).run b).2 =
          ((walkAll (visitor policy functions) ts).run
            ((t.walk (visitor policy functions)).run b).2).2 := rfl
      rw [hrun, result_walkAll ts, extend, result_walk t, toStepsAll, extend, extend]
      simp only [bind_assoc, pure_bind, List.append_assoc]

end

/-- The visitor compiles a path to the steps of the recursion. -/
theorem compile_path (absolute : Bool) (parts : List Token) :
    compile policy functions (.phrase (.path absolute) parts) =
      (toSteps policy functions (.phrase (.path absolute) parts)).map Chain.mk := by
  rw [compile, result_walk, extend_of_none rfl]
  cases toSteps policy functions (.phrase (.path absolute) parts) with
  | ok steps => rfl
  | error e => rfl

end Token
end TreeQuery
