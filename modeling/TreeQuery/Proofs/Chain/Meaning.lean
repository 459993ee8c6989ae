import TreeQuery.Chain.Session
import TreeQuery.Proofs.Chain.Walking

/-!
# The meaning of a chain, a list at a time

A chain is cut before each axis.  The tests up to the next axis narrow a whole
list of candidates, one test after the other, so that the place of a node in
the list is the position its predicate sees.  Each node that is left is handed
to the axis by itself.  There are no counters and nothing is reported twice or
in part: what is selected is a list, and so are the failures met on the way.
-/

namespace TreeQuery

namespace Rose

variable {A : Type}

mutual

def pruned (accepts : A → Bool) : Rose A → List A
  | node a ts => if accepts a then a :: prunedAll accepts ts else []

def prunedAll (accepts : A → Bool) : List (Rose A) → List A
  | [] => []
  | t :: ts => pruned accepts t ++ prunedAll accepts ts

end

end Rose

namespace Axis

open Navigable

variable {N : Type} [DecidableEq N] [Navigable N]

/-- The candidates of an axis that a filter lets through.  On the axes that walk whole subtrees
from the top down a refused node takes everything below it along. -/
def candidates (accepts : N → Bool) (axis : Axis) (n : N) : List N :=
  match axis with
  | .root => [Navigable.root n].filter accepts
  | .self => [n].filter accepts
  | .child => (children n).filter accepts
  | .descendant => Rose.prunedAll accepts ((children n).map subtree)
  | .descendantOrSelf => Rose.pruned accepts (subtree n)
  | .parent => (Navigable.parent n).toList.filter accepts
  | .ancestor => (ancestors n).filter accepts
  | .ancestorOrSelf => (n :: ancestors n).filter accepts
  | .firstChild => (Navigable.firstChild n).toList.filter accepts
  | .lastChild => (Navigable.lastChild n).toList.filter accepts
  | .followingSibling => (followingSiblings n).filter accepts
  | .precedingSibling => (precedingSiblings n).filter accepts
  | .following => Rose.prunedAll accepts (followingTrees n)
  | .preceding => (precedingNodes n).filter accepts

end Axis

/-- Everything besides the tree that decides what a chain selects. -/
structure Environment (N : Type) where
  functions : Registry N
  arithmetic : Arithmetic
  accepts : N → Bool

namespace Environment

variable {N : Type} [DecidableEq N] [Navigable N]

def verdict (env : Environment N) (p : Predicate) (n : N) (place : Nat) :
    Except SelectError Bool :=
  match p.expression.evaluate env.functions ⟨n, place, env.arithmetic⟩ with
  | .ok value => .ok (Predicate.accepts value place)
  | .error source => .error (.ofEvaluation p source)

def kept (env : Environment N) (p : Predicate) (ns : List N) : List N :=
  (ns.zipIdx 1).filterMap fun (n, place) =>
    match env.verdict p n place with
    | .ok true => some n
    | _ => none

def faults (env : Environment N) (p : Predicate) (ns : List N) : List SelectError :=
  (ns.zipIdx 1).filterMap fun (n, place) =>
    match env.verdict p n place with
    | .ok _ => none
    | .error e => some e

def named (test : NameTest) (ns : List N) : List N :=
  ns.filter fun n => test.accepts (Navigable.name n)

/-- What a chain selects from a list of candidates. -/
def nodes (env : Environment N) : List Step → List N → List N
  | [], ns => ns
  | .axis a :: rest, ns => ns.flatMap fun n => nodes env rest (a.candidates env.accepts n)
  | .name test :: rest, ns => nodes env rest (named test ns)
  | .predicate p :: rest, ns => nodes env rest (env.kept p ns)

/-- The failures of all evaluations that selecting takes. -/
def failures (env : Environment N) : List Step → List N → List SelectError
  | [], _ => []
  | .axis a :: rest, ns => ns.flatMap fun n => failures env rest (a.candidates env.accepts n)
  | .name test :: rest, ns => failures env rest (named test ns)
  | .predicate p :: rest, ns => env.faults p ns ++ failures env rest (env.kept p ns)

/-!
# One more candidate

The engine sees candidates one by one, so the lists are looked at as they grow
at their end.
-/

section

variable {env : Environment N}

@[simp] theorem nodes_nil (steps : List Step) : env.nodes steps ([] : List N) = [] := by
  induction steps with
  | nil => rfl
  | cons step rest ih =>
      cases step with
      | axis a => rfl
      | name test => exact ih
      | predicate p => exact ih

@[simp] theorem failures_nil (steps : List Step) : env.failures steps ([] : List N) = [] := by
  induction steps with
  | nil => rfl
  | cons step rest ih =>
      cases step with
      | axis a => rfl
      | name test => exact ih
      | predicate p => exact ih

theorem named_append (test : NameTest) (ns more : List N) :
    named test (ns ++ more) = named test ns ++ named test more :=
  List.filter_append ..

theorem kept_concat_of_admitted {p : Predicate} {ns : List N} {n : N}
    (h : env.verdict p n (ns.length + 1) = .ok true) :
    env.kept p (ns ++ [n]) = env.kept p ns ++ [n] := by
  rw [Nat.add_comm] at h
  simp [kept, List.zipIdx_append, h]

theorem kept_concat_of_refused {p : Predicate} {ns : List N} {n : N}
    (h : env.verdict p n (ns.length + 1) = .ok false) :
    env.kept p (ns ++ [n]) = env.kept p ns := by
  rw [Nat.add_comm] at h
  simp [kept, List.zipIdx_append, h]

theorem faults_concat_of_ok {p : Predicate} {ns : List N} {n : N} {admitted : Bool}
    (h : env.verdict p n (ns.length + 1) = .ok admitted) :
    env.faults p (ns ++ [n]) = env.faults p ns := by
  rw [Nat.add_comm] at h
  simp [faults, List.zipIdx_append, h]

theorem mem_faults_concat_of_error {p : Predicate} {ns : List N} {n : N} {e : SelectError}
    (h : env.verdict p n (ns.length + 1) = .error e) :
    e ∈ env.faults p (ns ++ [n]) := by
  rw [Nat.add_comm] at h
  simp [faults, List.zipIdx_append, h]

theorem kept_append (env : Environment N) (p : Predicate) (ns more : List N) :
    ∃ tail, env.kept p (ns ++ more) = env.kept p ns ++ tail := by
  simp only [kept, List.zipIdx_append, List.filterMap_append]
  exact ⟨_, rfl⟩

theorem kept_sublist (env : Environment N) (p : Predicate) (ns : List N) :
    (env.kept p ns).Sublist ns := by
  unfold kept
  generalize 1 = place
  induction ns generalizing place with
  | nil => exact .slnil
  | cons n rest ih =>
      rw [List.zipIdx_cons, List.filterMap_cons]
      dsimp only
      cases env.verdict p n place with
      | error e => exact (ih _).cons n
      | ok admitted =>
          cases admitted with
          | true => exact (ih _).cons_cons n
          | false => exact (ih _).cons n

theorem mem_failures_append {steps : List Step} {ns : List N} {e : SelectError}
    (h : e ∈ env.failures steps ns) (more : List N) : e ∈ env.failures steps (ns ++ more) := by
  induction steps generalizing ns more with
  | nil => exact h
  | cons step rest ih =>
      cases step with
      | axis a =>
          simp only [failures, List.flatMap_append, List.mem_append] at h ⊢
          exact Or.inl h
      | name test =>
          simp only [failures, named_append] at h ⊢
          exact ih h _
      | predicate p =>
          rcases env.kept_append p ns more with ⟨tail, htail⟩
          simp only [failures, List.mem_append] at h ⊢
          rcases h with hfault | hrest
          · apply Or.inl
            simp only [faults, List.zipIdx_append, List.filterMap_append, List.mem_append]
            exact Or.inl hfault
          · rw [htail]
            exact Or.inr (ih hrest tail)

end

end Environment
end TreeQuery
