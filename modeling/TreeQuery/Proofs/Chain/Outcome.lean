import TreeQuery.Proofs.Chain.Interchange

/-!
# Chains with the same outcome

Two rows of steps have the same outcome if they lead to the same nodes and, one
candidate after the other, meet the same failures.  Which predicate a failure
came up in does not count, for the rows may have different predicates.  Rows
are compared on the nodes of one tree only; these are the nodes that axes lead
to from the start.
-/

namespace TreeQuery

namespace SelectError

def bare : SelectError → SelectError
  | .unknownFunction function _ => .unknownFunction function ""
  | .evaluation _ source => .evaluation "" source
  | e => e

theorem bare_ofEvaluation (p q : Predicate) (source : EvalError) :
    (ofEvaluation p source).bare = (ofEvaluation q source).bare := by
  cases source <;> rfl

end SelectError

theorem mapError_eq_ok_iff {E E' A : Type} {f : E → E'} {outcome : Except E A} {a : A} :
    outcome.mapError f = .ok a ↔ outcome = .ok a := by
  cases outcome with
  | ok b => exact ⟨fun h => by cases h; rfl, fun h => by cases h; rfl⟩
  | error e => exact ⟨nofun, nofun⟩

namespace Axis

inductive Leads {N : Type} [DecidableEq N] [Navigable N] (start : N) : N → Prop where
  | start : Leads start start
  | onward {n m : N} (a : Axis) (h : Leads start n)
      (hm : m ∈ a.candidates (fun _ => true) n) : Leads start m

end Axis

namespace Environment

variable {N : Type} [DecidableEq N] [Navigable N] {env : Environment N} {tree : N → Prop}
  {steps steps' : List Step}

/-- From nodes of the tree the steps lead to the same nodes and meet the same failures, apart from
the text of the predicate. -/
def SameOutcome (env : Environment N) (tree : N → Prop) (steps steps' : List Step) : Prop :=
  ∀ seen : List N, (∀ m ∈ seen, tree m) →
    env.nodes steps seen = env.nodes steps' seen ∧
      ∀ n, tree n → (env.failureAfter steps seen n).map SelectError.bare =
        (env.failureAfter steps' seen n).map SelectError.bare

theorem bare_failureAfter_predicate {p : Predicate} (rest : List Step) (seen : List N) (n : N) :
    (env.failureAfter (.predicate p :: rest) seen n).map SelectError.bare =
      match (env.verdict p n (seen.length + 1)).mapError SelectError.bare with
      | .error e => some e
      | .ok true => (env.failureAfter rest (env.kept p seen) n).map SelectError.bare
      | .ok false => none := by
  rw [failureAfter]
  cases env.verdict p n (seen.length + 1) with
  | error e => rfl
  | ok admitted => cases admitted <;> rfl

omit [DecidableEq N] [Navigable N] in
theorem map_firstFailure_congr_of_splits {after after' : List N → N → Option SelectError}
    {seen ns : List N}
    (h : ∀ before n behind, ns = before ++ n :: behind →
      (after (seen ++ before) n).map SelectError.bare =
        (after' (seen ++ before) n).map SelectError.bare) :
    (firstFailure after seen ns).map SelectError.bare =
      (firstFailure after' seen ns).map SelectError.bare := by
  induction ns generalizing seen with
  | nil => rfl
  | cons n ns ih =>
      have hn := h [] n ns rfl
      have hrest : (firstFailure after (seen ++ [n]) ns).map SelectError.bare =
          (firstFailure after' (seen ++ [n]) ns).map SelectError.bare := by
        apply ih
        intro before m behind hns
        rw [List.append_assoc]
        exact h (n :: before) m behind (congrArg (n :: ·) hns)
      rw [List.append_nil] at hn
      rw [firstFailure, firstFailure, Option.map_or, Option.map_or, hn, hrest]

omit [DecidableEq N] [Navigable N] in
theorem map_firstFailure_congr {after after' : List N → N → Option SelectError} {seen ns : List N}
    (hseen : ∀ m ∈ seen, tree m) (hns : ∀ m ∈ ns, tree m)
    (h : ∀ {seen n}, (∀ m ∈ seen, tree m) → tree n →
      (after seen n).map SelectError.bare = (after' seen n).map SelectError.bare) :
    (firstFailure after seen ns).map SelectError.bare =
      (firstFailure after' seen ns).map SelectError.bare := by
  apply map_firstFailure_congr_of_splits
  rintro before n behind rfl
  rcases List.forall_mem_append.mp hns with ⟨hbefore, hbehind⟩
  exact h (List.forall_mem_append.mpr ⟨hseen, hbefore⟩) (hbehind n List.mem_cons_self)

namespace SameOutcome

theorem refl (steps : List Step) : env.SameOutcome tree steps steps :=
  fun _ _ => ⟨rfl, fun _ _ => rfl⟩

theorem axis (hclosed : ∀ (a : Axis) {n}, tree n → ∀ m ∈ a.candidates env.accepts n, tree m)
    (a : Axis) (h : env.SameOutcome tree steps steps') :
    env.SameOutcome tree (.axis a :: steps) (.axis a :: steps') := by
  intro seen hseen
  constructor
  · apply List.flatMap_congr
    intro n hn
    exact (h _ (hclosed a (hseen n hn))).1
  · intro n hn
    exact map_firstFailure_congr (List.forall_mem_nil tree) (hclosed a hn)
      fun hseen hn => (h _ hseen).2 _ hn

theorem name (test : NameTest) (h : env.SameOutcome tree steps steps') :
    env.SameOutcome tree (.name test :: steps) (.name test :: steps') := by
  intro seen hseen
  have hnamed := h (named test seen) fun m hm => hseen m (List.mem_filter.mp hm).1
  refine ⟨hnamed.1, ?_⟩
  intro n hn
  rw [failureAfter, failureAfter]
  split
  · exact hnamed.2 n hn
  · rfl

theorem predicate (p : Predicate) (h : env.SameOutcome tree steps steps') :
    env.SameOutcome tree (.predicate p :: steps) (.predicate p :: steps') := by
  intro seen hseen
  have hkept := h (env.kept p seen) fun m hm => hseen m ((env.kept_sublist p seen).subset hm)
  refine ⟨hkept.1, ?_⟩
  intro n hn
  rw [failureAfter, failureAfter]
  split
  · rfl
  · exact hkept.2 n hn
  · rfl

theorem behind (hclosed : ∀ (a : Axis) {n}, tree n → ∀ m ∈ a.candidates env.accepts n, tree m)
    (first : List Step) (h : env.SameOutcome tree steps steps') :
    env.SameOutcome tree (first ++ steps) (first ++ steps') := by
  induction first with
  | nil => exact h
  | cons step rest ih =>
      cases step with
      | axis a => exact axis hclosed a ih
      | name test => exact name test ih
      | predicate p => exact predicate p ih

end SameOutcome
end Environment

namespace Chain

variable {N : Type} [DecidableEq N] [Navigable N]

/-- Chains that lead to the same nodes and meet the same failure select the same, or fail for the
same reason. -/
theorem select_bare_eq {c c' : Chain} {functions : Registry N} {arithmetic : Arithmetic}
    {start : N}
    (hnodes : Environment.nodes ⟨functions, arithmetic, fun _ => true⟩ c.steps [start] =
      Environment.nodes ⟨functions, arithmetic, fun _ => true⟩ c'.steps [start])
    (hfailure : (Environment.failureAfter ⟨functions, arithmetic, fun _ => true⟩ c.steps []
        start).map SelectError.bare =
      (Environment.failureAfter ⟨functions, arithmetic, fun _ => true⟩ c'.steps []
        start).map SelectError.bare) :
    (c.select functions arithmetic start).mapError SelectError.bare =
      (c'.select functions arithmetic start).mapError SelectError.bare := by
  rw [select_eq, select_eq, hnodes]
  generalize Environment.failureAfter _ c.steps [] start = failure at hfailure
  generalize Environment.failureAfter _ c'.steps [] start = failure' at hfailure
  cases failure with
  | none =>
      cases failure' with
      | none => rfl
      | some e => cases hfailure
  | some e =>
      cases failure' with
      | none => cases hfailure
      | some e' => exact congrArg Except.error (Option.some.inj hfailure)

theorem select_bare_congr {c c' : Chain} {functions : Registry N} {arithmetic : Arithmetic}
    {start : N}
    (h : Environment.SameOutcome ⟨functions, arithmetic, fun _ => true⟩ (Axis.Leads start)
      c.steps c'.steps) :
    (c.select functions arithmetic start).mapError SelectError.bare =
      (c'.select functions arithmetic start).mapError SelectError.bare :=
  select_bare_eq (h [start] (List.forall_mem_singleton.mpr .start)).1
    ((h [] (List.forall_mem_nil _)).2 start .start)

end Chain
end TreeQuery
