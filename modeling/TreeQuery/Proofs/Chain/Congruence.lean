import Mathlib.Data.List.Forall2
import TreeQuery.Proofs.Chain.Building
import TreeQuery.Proofs.Chain.Outcome

/-!
# Compiling equal tokens

Numbers in tokens and in expressions are compared by value, so that equal ones
need not be the same.  Equal tokens compile to equal chains, or both fail with
the same error; the texts that predicates came from are left aside.
-/

namespace TreeQuery

def CompileAlike {A B : Type} (relation : A → B → Prop) :
    Except SelectError A → Except SelectError B → Prop
  | .ok a, .ok b => relation a b
  | .error e, .error e' => e.bare = e'.bare
  | _, _ => False

namespace CompileAlike

variable {A A' A'' B B' : Type} {relation : A → A' → Prop} {result : B → B' → Prop}

theorem cases {m : Except SelectError A} {m' : Except SelectError A'}
    (h : CompileAlike relation m m') :
    (∃ a a', m = .ok a ∧ m' = .ok a' ∧ relation a a') ∨
      ∃ e e', m = .error e ∧ m' = .error e' ∧ e.bare = e'.bare := by
  cases m with
  | ok a =>
      cases m' with
      | ok a' => exact Or.inl ⟨a, a', rfl, rfl, h⟩
      | error e => exact h.elim
  | error e =>
      cases m' with
      | ok a' => exact h.elim
      | error e' => exact Or.inr ⟨e, e', rfl, rfl, h⟩

theorem bind {m : Except SelectError A} {m' : Except SelectError A'}
    {k : A → Except SelectError B} {k' : A' → Except SelectError B'}
    (h : CompileAlike relation m m')
    (hk : ∀ a a', relation a a' → CompileAlike result (k a) (k' a')) :
    CompileAlike result (m >>= k) (m' >>= k') := by
  rcases h.cases with ⟨a, a', rfl, rfl, ha⟩ | ⟨e, e', rfl, rfl, he⟩
  · exact hk a a' ha
  · exact he

theorem map {m : Except SelectError A} {m' : Except SelectError A'} {f : A → B} {f' : A' → B'}
    (h : CompileAlike relation m m') (hf : ∀ a a', relation a a' → result (f a) (f' a')) :
    CompileAlike result (m.map f) (m'.map f') := by
  rcases h.cases with ⟨a, a', rfl, rfl, ha⟩ | ⟨e, e', rfl, rfl, he⟩
  · exact hf a a' ha
  · exact he

end CompileAlike

/-!
# Chains without texts
-/

def Step.textless : Step → Step
  | .predicate p => .predicate ⟨p.expression, ""⟩
  | step => step

def Chain.textless (c : Chain) : Chain :=
  ⟨c.steps.map Step.textless⟩

/-- Equal steps, apart from the texts that predicates came from. -/
def StepsAlike (steps steps' : List Step) : Prop :=
  (steps.map Step.textless == steps'.map Step.textless) = true

namespace StepsAlike

theorem axis (a : Axis) : StepsAlike [.axis a] [.axis a] :=
  Bool.and_eq_true_iff.mpr ⟨beq_self_eq_true a, rfl⟩

theorem name (test : NameTest) : StepsAlike [.name test] [.name test] :=
  Bool.and_eq_true_iff.mpr ⟨beq_self_eq_true test, rfl⟩

theorem predicate {p p' : Predicate} (h : p.expression.same p'.expression = true) :
    StepsAlike [.predicate p] [.predicate p'] :=
  Bool.and_eq_true_iff.mpr ⟨Bool.and_eq_true_iff.mpr ⟨h, rfl⟩, rfl⟩

theorem append {steps steps' more more' : List Step} (h : StepsAlike steps steps')
    (hmore : StepsAlike more more') : StepsAlike (steps ++ more) (steps' ++ more') := by
  induction steps generalizing steps' with
  | nil =>
      cases steps' with
      | nil => exact hmore
      | cons step' steps' => cases h
  | cons step steps ih =>
      cases steps' with
      | nil => cases h
      | cons step' steps' =>
          rcases Bool.and_eq_true_iff.mp h with ⟨hstep, hsteps⟩
          exact Bool.and_eq_true_iff.mpr ⟨hstep, ih hsteps⟩

end StepsAlike

/-!
# Expressions
-/

namespace Expression

mutual

theorem functionNames_congr : ∀ {e e' : Expression}, e.same e' = true →
    e.functionNames = e'.functionNames
  | .number _, .number _, _ | .text _, .text _, _ | .attr _, .attr _, _ => rfl
  | .call name args, .call name' args', h => by
      rcases Bool.and_eq_true_iff.mp h with ⟨hname, hargs⟩
      rw [functionNames, functionNames, eq_of_beq hname, functionNamesAll_congr hargs]
  | .binary left op right, .binary left' op' right', h => by
      rcases Bool.and_eq_true_iff.mp h with ⟨h, hright⟩
      rcases Bool.and_eq_true_iff.mp h with ⟨_, hleft⟩
      rw [functionNames, functionNames, functionNames_congr hleft, functionNames_congr hright]
  | .negate inner, .negate inner', h =>
      have hinner : inner.same inner' = true := h
      show inner.functionNames = inner'.functionNames from functionNames_congr hinner

theorem functionNamesAll_congr : ∀ {es es' : List Expression}, sameAll es es' = true →
    functionNamesAll es = functionNamesAll es'
  | [], [], _ => rfl
  | e :: es, e' :: es', h => by
      rcases Bool.and_eq_true_iff.mp h with ⟨he, hes⟩
      rw [functionNamesAll, functionNamesAll, functionNames_congr he, functionNamesAll_congr hes]

end

end Expression

/-!
# Equal tokens
-/

namespace Lexeme

theorem same_cases {a b : Lexeme} (h : a.same b = true) :
    (a = b ∧ ∀ x, a ≠ .number x) ∨ ∃ x y, a = .number x ∧ b = .number y ∧ (x == y) = true := by
  cases a with
  | number x =>
      cases b with
      | number y => exact Or.inr ⟨x, y, rfl, rfl, h⟩
      | _ => cases h
  | wildcard | blank =>
      cases b with
      | wildcard | blank => first | exact Or.inl ⟨rfl, nofun⟩ | cases h
      | _ => cases h
  | _ a =>
      cases b <;> first | cases h | exact Or.inl ⟨congrArg _ (eq_of_beq h), nofun⟩

end Lexeme

namespace Token

variable {t t' : Token} {ts ts' : List Token}

theorem same_cases (h : t.same t' = true) :
    (∃ a b s s', t = .leaf a s ∧ t' = .leaf b s' ∧ a.same b = true) ∨
      ∃ kind xs ys, t = .phrase kind xs ∧ t' = .phrase kind ys ∧ sameAll xs ys = true := by
  cases t with
  | leaf a s =>
      cases t' with
      | leaf b s' => exact Or.inl ⟨a, b, s, s', rfl, rfl, (Bool.and_eq_true_iff.mp h).1⟩
      | phrase k ys => cases h
  | phrase j xs =>
      cases t' with
      | leaf b s' => cases h
      | phrase k ys =>
          rcases Bool.and_eq_true_iff.mp h with ⟨hkind, hparts⟩
          cases eq_of_beq hkind
          exact Or.inr ⟨j, xs, ys, rfl, rfl, hparts⟩

/-- Equal tokens are the same to whatever looks only at the lexeme of a leaf and at the kind of a
phrase, and not at the value of a number. -/
theorem congr_of_same {A : Type} {f : Token → A} (htext : ∀ a s s', f (.leaf a s) = f (.leaf a s'))
    (hnumber : ∀ x y s s', f (.leaf (.number x) s) = f (.leaf (.number y) s'))
    (hparts : ∀ kind xs ys, f (.phrase kind xs) = f (.phrase kind ys)) (h : t.same t' = true) :
    f t = f t' := by
  rcases same_cases h with ⟨a, b, s, s', rfl, rfl, hlexeme⟩ | ⟨kind, xs, ys, rfl, rfl, _⟩
  · rcases Lexeme.same_cases hlexeme with ⟨rfl, _⟩ | ⟨x, y, rfl, rfl, _⟩
    · exact htext a s s'
    · exact hnumber x y s s'
  · exact hparts kind xs ys

theorem label_congr (h : t.same t' = true) : t.label = t'.label :=
  congr_of_same (fun _ _ _ => rfl) (fun _ _ _ _ => rfl) (fun _ _ _ => rfl) h

theorem isOperand_congr (h : t.same t' = true) : t.isOperand = t'.isOperand := by
  apply congr_of_same _ (fun _ _ _ _ => rfl) (fun _ _ _ => rfl) h
  intro a s s'
  cases a <;> rfl

theorem forall₂_same (h : sameAll ts ts' = true) :
    List.Forall₂ (fun t t' : Token => t.same t' = true) ts ts' := by
  induction ts generalizing ts' with
  | nil =>
      cases ts' with
      | nil => exact .nil
      | cons t' ts' => cases h
  | cons t ts ih =>
      cases ts' with
      | nil => cases h
      | cons t' ts' =>
          rcases Bool.and_eq_true_iff.mp h with ⟨ht, hts⟩
          exact .cons ht (ih hts)

/-!
# Expressions
-/

abbrev ExpressionsAlike : Except SelectError Expression → Except SelectError Expression → Prop :=
  CompileAlike fun e e' => e.same e' = true

variable {operands operands' : List (Except SelectError Expression)}

theorem unexpected_congr {A B : Type} {relation : A → B → Prop} (h : t.same t' = true)
    (expected : String) : CompileAlike relation (unexpected expected t) (unexpected expected t') :=
  congrArg (SelectError.unexpectedToken expected) (label_congr h)

theorem nameOf_congr (h : t.same t' = true) : t.nameOf = t'.nameOf := by
  apply congr_of_same _ (fun _ _ _ _ => rfl) (fun _ _ _ => rfl) h
  intro a s s'
  cases a <;> rfl

theorem operandAt_congr (h : t.same t' = true)
    (hoperands : List.Forall₂ ExpressionsAlike operands operands') (i : Nat) :
    ExpressionsAlike (t.operandAt operands i) (t'.operandAt operands' i) := by
  rw [operandAt, operandAt]
  induction hoperands generalizing i with
  | nil => exact unexpected_congr h "operand"
  | cons hfirst _ ih =>
      cases i with
      | zero => exact hfirst
      | succ i => exact ih i

theorem find?_isOperand_congr (h : sameAll ts ts' = true) :
    Option.Rel (fun t t' : Token => t.same t' = true) (ts.find? isOperand)
      (ts'.find? isOperand) := by
  have hall := forall₂_same h
  clear h
  induction hall with
  | nil => exact .none
  | @cons first first' rest rest' hfirst _ ih =>
      cases hoperand : first'.isOperand with
      | true =>
          rw [List.find?_cons_of_pos hoperand,
            List.find?_cons_of_pos (by rw [isOperand_congr hfirst, hoperand])]
          exact .some hfirst
      | false =>
          have hnone := Bool.eq_false_iff.mp hoperand
          rw [List.find?_cons_of_neg hnone,
            List.find?_cons_of_neg (by rw [isOperand_congr hfirst]; exact hnone)]
          exact ih

theorem firstOperand_congr (h : t.same t' = true) (hts : sameAll ts ts' = true) :
    CompileAlike (fun t t' => t.same t' = true) (t.firstOperand ts) (t'.firstOperand ts') := by
  have hfound := find?_isOperand_congr hts
  unfold firstOperand
  generalize ts.find? isOperand = found at hfound
  generalize ts'.find? isOperand = found' at hfound
  cases hfound with
  | some hsame => exact hsame
  | none => exact unexpected_congr h "operand"

theorem mapM_congr (hoperands : List.Forall₂ ExpressionsAlike operands operands') :
    CompileAlike (fun es es' => Expression.sameAll es es' = true) (operands.mapM id)
      (operands'.mapM id) := by
  induction hoperands with
  | nil => exact rfl
  | cons hfirst _ ih =>
      rw [List.mapM_cons, List.mapM_cons]
      apply CompileAlike.bind hfirst
      intro e e' he
      apply CompileAlike.bind ih
      intro es es' hes
      exact Bool.and_eq_true_iff.mpr ⟨he, hes⟩

mutual

theorem toExpression_congr : ∀ {t t' : Token}, t.same t' = true →
    ExpressionsAlike t.toExpression t'.toExpression
  | .leaf a s, .leaf b s', h => by
      rcases Lexeme.same_cases (Bool.and_eq_true_iff.mp h).1 with
        ⟨rfl, hnumber⟩ | ⟨x, y, rfl, rfl, hxy⟩
      · cases a with
        | number x => exact absurd rfl (hnumber x)
        | text value => exact beq_self_eq_true value
        | _ => exact unexpected_congr h "expression"
      · exact hxy
  | .phrase j xs, .phrase k ys, h => by
      rcases Bool.and_eq_true_iff.mp h with ⟨hkind, hparts⟩
      cases eq_of_beq hkind
      have hoperands := operandExpressions_congr hparts
      have hhead := firstOperand_congr h hparts
      cases j with
      | binary op =>
          rw [toExpression, toExpression]
          apply (operandAt_congr h hoperands 0).bind
          intro left left' hleft
          apply (operandAt_congr h hoperands 1).bind
          intro right right' hright
          exact Bool.and_eq_true_iff.mpr
            ⟨Bool.and_eq_true_iff.mpr ⟨beq_self_eq_true op, hleft⟩, hright⟩
      | negation =>
          rw [toExpression, toExpression]
          apply (operandAt_congr h hoperands 0).bind
          intro inner inner' hinner
          exact hinner
      | group =>
          rw [toExpression, toExpression]
          exact operandAt_congr h hoperands 0
      | attribution =>
          rw [toExpression, toExpression]
          apply hhead.bind
          intro head head' hsame
          rw [nameOf_congr hsame]
          cases head'.nameOf with
          | ok name => exact beq_self_eq_true name
          | error e => exact rfl
      | call =>
          rw [toExpression, toExpression]
          apply hhead.bind
          intro head head' hsame
          rw [nameOf_congr hsame]
          cases head'.nameOf with
          | error e => exact rfl
          | ok name =>
              apply (mapM_congr (List.forall₂_drop 1 hoperands)).bind
              intro args args' hargs
              exact Bool.and_eq_true_iff.mpr ⟨beq_self_eq_true name, hargs⟩
      | path | step | predicate => exact unexpected_congr h "expression"

theorem operandExpressions_congr : ∀ {ts ts' : List Token}, sameAll ts ts' = true →
    List.Forall₂ ExpressionsAlike (operandExpressions ts) (operandExpressions ts')
  | [], [], _ => .nil
  | t :: ts, t' :: ts', h => by
      rcases Bool.and_eq_true_iff.mp h with ⟨ht, hts⟩
      rw [operandExpressions, operandExpressions, isOperand_congr ht]
      split
      · exact .cons (toExpression_congr ht) (operandExpressions_congr hts)
      · exact operandExpressions_congr hts

end

/-!
# Steps
-/

variable {N : Type} {policy : NamePolicy} {functions : Registry N}

theorem toPredicate_congr (h : sameAll ts ts' = true) :
    CompileAlike (fun p p' => p.expression.same p'.expression = true)
      (toPredicate functions ts) (toPredicate functions ts') := by
  have hfound := find?_isOperand_congr h
  unfold toPredicate
  generalize ts.find? isOperand = found at hfound
  generalize ts'.find? isOperand = found' at hfound
  cases hfound with
  | none => exact rfl
  | some hsame =>
      apply (toExpression_congr hsame).bind
      intro e e' he
      rw [Expression.functionNames_congr he]
      cases e'.functionNames.find? (!functions.contains ·) with
      | some missing => exact rfl
      | none => exact he

theorem stepAxis_congr (h : sameAll ts ts' = true) : stepAxis ts = stepAxis ts' := by
  have hall := forall₂_same h
  unfold stepAxis
  apply congrArg fun mark? => (Option.map AxisMark.axis mark?).getD .child
  clear h
  induction hall with
  | nil => rfl
  | cons hfirst _ ih =>
      rw [List.findSome?_cons, List.findSome?_cons, ih]
      apply congr_of_same _ (fun _ _ _ _ => rfl) (fun _ _ _ => rfl) hfirst
      intro a s s'
      cases a <;> rfl

mutual

theorem toSteps_congr : ∀ {t t' : Token}, t.same t' = true →
    CompileAlike StepsAlike (t.toSteps policy functions) (t'.toSteps policy functions)
  | .leaf a s, .leaf b s', h => by
      rcases Lexeme.same_cases (Bool.and_eq_true_iff.mp h).1 with
        ⟨rfl, _⟩ | ⟨x, y, rfl, rfl, _⟩
      · cases a with
        | name name =>
            rw [toSteps, toSteps]
            unfold NamePolicy.name
            split
            · exact .name _
            · exact rfl
        | _ => exact rfl
      · exact rfl
  | .phrase j xs, .phrase k ys, h => by
      rcases Bool.and_eq_true_iff.mp h with ⟨hkind, hparts⟩
      cases eq_of_beq hkind
      have hsteps := toStepsAll_congr hparts
      cases j with
      | path absolute =>
          rw [toSteps, toSteps]
          apply hsteps.bind
          intro steps steps' hsteps
          cases absolute with
          | true => exact (StepsAlike.axis .root).append hsteps
          | false => exact hsteps
      | step =>
          rw [toSteps, toSteps, stepAxis_congr hparts]
          apply hsteps.bind
          intro steps steps' hsteps
          exact (StepsAlike.axis _).append hsteps
      | predicate =>
          rw [toSteps, toSteps]
          apply (toPredicate_congr hparts).bind
          intro p p' hp
          exact .predicate hp
      | _ => exact rfl

theorem toStepsAll_congr : ∀ {ts ts' : List Token}, sameAll ts ts' = true →
    CompileAlike StepsAlike (toStepsAll policy functions ts) (toStepsAll policy functions ts')
  | [], [], _ => rfl
  | t :: ts, t' :: ts', h => by
      rcases Bool.and_eq_true_iff.mp h with ⟨ht, hts⟩
      rw [toStepsAll, toStepsAll]
      apply (toSteps_congr ht).bind
      intro steps steps' hsteps
      apply (toStepsAll_congr hts).bind
      intro more more' hmore
      exact hsteps.append hmore

end

/-- Equal tokens compile to equal chains or fail with the same error, apart from the texts that
predicates came from. -/
theorem compile_congr (h : t.same t' = true) :
    CompileAlike (fun c c' : Chain => (c.textless == c'.textless) = true)
      (t.compile policy functions) (t'.compile policy functions) := by
  rcases same_cases h with ⟨a, b, s, s', rfl, rfl, _⟩ | ⟨kind, xs, ys, rfl, rfl, _⟩
  · exact unexpected_congr h "path"
  · cases kind with
    | path absolute =>
        rw [compile_path, compile_path]
        exact (toSteps_congr h).map fun _ _ hsteps => hsteps
    | _ => exact unexpected_congr h "path"

end Token
end TreeQuery
