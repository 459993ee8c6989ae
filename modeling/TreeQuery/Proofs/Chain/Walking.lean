import TreeQuery.Chain.Axis

/-!
# Walks over subtrees

A walk keeps the nodes it has still to visit on a stack and goes up from level
to level.  Whatever the visitor does, that is the recursion over the subtrees
themselves: those below the node, or those beside it and beside its ancestors.
-/

namespace TreeQuery

namespace Flow

variable {A : Type} {m : Type → Type} [Monad m]

mutual

def below (visit : A → m Flow) : Rose A → m Bool
  | .node a branches => do
      match ← visit a with
      | .stop => pure true
      | .prune => pure false
      | .onward => belowAll visit branches

def belowAll (visit : A → m Flow) : List (Rose A) → m Bool
  | [] => pure false
  | t :: ts => do
      if ← below visit t then pure true else belowAll visit ts

end

/-!
# Searches

Every visit of a list is a search for the first stop, and a search through
lists put together is a search through the searches.
-/

theorem anyM_cons (p : A → m Bool) (a : A) (as : List A) :
    (a :: as).anyM p = (do if ← p a then pure true else as.anyM p) := by
  apply bind_congr
  intro found
  cases found with
  | true => rfl
  | false => rfl

theorem anyM_append [LawfulMonad m] (p : A → m Bool) (as bs : List A) :
    (as ++ bs).anyM p = (do if ← as.anyM p then pure true else bs.anyM p) := by
  induction as with
  | nil =>
      rw [List.nil_append, List.anyM, pure_bind]
      rfl
  | cons a as ih =>
      rw [List.cons_append, anyM_cons, anyM_cons, bind_assoc, ih]
      apply bind_congr
      intro found
      cases found with
      | true => rw [if_pos rfl, if_pos rfl, pure_bind, if_pos rfl]
      | false => rfl

theorem anyM_flatMap [LawfulMonad m] {B : Type} (p : A → m Bool) (f : B → List A) (bs : List B) :
    (bs.flatMap f).anyM p = bs.anyM fun b => (f b).anyM p := by
  induction bs with
  | nil => rfl
  | cons b bs ih => rw [List.flatMap_cons, anyM_append, anyM_cons, ih]

theorem each_eq_anyM [LawfulMonad m] (visit : A → m Flow) (as : List A) :
    each visit as = as.anyM fun a => return (← visit a) == .stop := by
  induction as with
  | nil => rfl
  | cons a as ih =>
      rw [each, anyM_cons, bind_assoc]
      apply bind_congr
      intro flow
      rw [pure_bind]
      cases flow with
      | stop => rfl
      | prune => exact ih
      | onward => exact ih

theorem belowAll_eq_anyM (visit : A → m Flow) (ts : List (Rose A)) :
    belowAll visit ts = ts.anyM (below visit) := by
  induction ts with
  | nil => rfl
  | cons t ts ih => rw [belowAll, anyM_cons, ih]

theorem belowAll_singleton [LawfulMonad m] (visit : A → m Flow) (t : Rose A) :
    belowAll visit [t] = below visit t := by
  rw [belowAll]
  conv => rhs; rw [← bind_pure (below visit t)]
  apply bind_congr
  intro stopped
  cases stopped with
  | true => rfl
  | false => rfl

/-!
# The stack

A stack holds the trees of its nodes.
-/

variable {N : Type} [DecidableEq N] [Navigable N]

open Navigable

theorem subtrees_eq [LawfulMonad m] (visit : N → m Flow) (stack : List N) :
    subtrees visit stack = belowAll visit (stack.map subtree) := by
  fun_induction subtrees visit stack with
  | case1 => rfl
  | case2 current stack hprune honward =>
      rw [List.map_cons, subtree_eq, belowAll, below, bind_assoc]
      apply bind_congr
      intro flow
      cases flow with
      | stop =>
          dsimp only
          rw [pure_bind, if_pos rfl]
      | prune =>
          dsimp only
          rw [pure_bind, if_neg Bool.false_ne_true, hprune]
      | onward =>
          dsimp only
          rw [honward, List.map_append, belowAll_eq_anyM, anyM_append, belowAll_eq_anyM,
            belowAll_eq_anyM]

theorem preorder_eq (stack : List N) : preorder stack = stack.flatMap descendantsOrSelf := by
  fun_induction preorder stack with
  | case1 => rfl
  | case2 current stack ih =>
      rw [ih, List.flatMap_cons, List.flatMap_append, descendantsOrSelf_eq current,
        List.cons_append]

/-!
# The levels

Going up goes through the node and its ancestors.
-/

theorem climbing_eq (act : N → m Bool) (n : N) :
    climbing act n = (n :: ancestors n).anyM act := by
  fun_induction climbing act n with
  | case1 level ih =>
      rw [anyM_cons]
      apply bind_congr
      intro stopped
      split
      · rfl
      · split
        · rename_i hparent
          rw [ancestors_of_no_parent hparent]
          rfl
        · rename_i p hparent
          rw [ancestors_of_parent hparent]
          exact ih p hparent

end Flow

namespace Axis

variable {N : Type} [DecidableEq N] [Navigable N] {m : Type → Type} [Monad m]

open Navigable

/-- The trees that hold everything after a node in document order, apart from what is below it:
those of its later siblings, of its parent's later siblings, and so on. -/
def followingTrees (n : N) : List (Rose N) :=
  (n :: ancestors n).flatMap fun level => (followingSiblings level).map subtree

def precedingNodes (n : N) : List N :=
  (n :: ancestors n).flatMap fun level =>
    (precedingSiblings level).flatMap fun sibling => (descendantsOrSelf sibling).reverse

/-- The visits of an axis around a node by recursion over subtrees. -/
def walk (axis : Axis) (n : N) (visit : N → m Flow) : m Unit := do
  let _ ← match axis with
    | .root => Flow.each visit [Navigable.root n]
    | .self => Flow.each visit [n]
    | .child => Flow.each visit (children n)
    | .descendant => Flow.belowAll visit ((children n).map subtree)
    | .descendantOrSelf => Flow.below visit (subtree n)
    | .parent => Flow.each visit (Navigable.parent n).toList
    | .ancestor => Flow.each visit (ancestors n)
    | .ancestorOrSelf => Flow.each visit (n :: ancestors n)
    | .firstChild => Flow.each visit (Navigable.firstChild n).toList
    | .lastChild => Flow.each visit (Navigable.lastChild n).toList
    | .followingSibling => Flow.each visit (followingSiblings n)
    | .precedingSibling => Flow.each visit (precedingSiblings n)
    | .following => Flow.belowAll visit (followingTrees n)
    | .preceding => Flow.each visit (precedingNodes n)
  return ()

variable [LawfulMonad m]

theorem following_eq (visit : N → m Flow) (n : N) :
    Flow.following visit n = Flow.belowAll visit (followingTrees n) := by
  rw [Flow.following, Flow.climbing_eq, Flow.belowAll_eq_anyM, followingTrees, Flow.anyM_flatMap]
  congr 1
  funext level
  rw [Flow.subtrees_eq, Flow.belowAll_eq_anyM]

theorem preceding_eq (visit : N → m Flow) (n : N) :
    Flow.preceding visit n = Flow.each visit (precedingNodes n) := by
  rw [Flow.preceding, Flow.climbing_eq, Flow.each_eq_anyM, precedingNodes, Flow.anyM_flatMap]
  congr 1
  funext level
  rw [Flow.anyM_flatMap]
  congr 1
  funext sibling
  rw [Flow.each_eq_anyM, Flow.preorder_eq, List.flatMap_singleton]

/-- With its stack and its way up an axis visits what the recursion visits. -/
theorem traverse_eq_walk (axis : Axis) (n : N) (visit : N → m Flow) :
    axis.traverse n visit = axis.walk n visit := by
  unfold traverse walk
  cases axis with
  | descendant =>
      dsimp only
      rw [Flow.subtrees_eq]
  | descendantOrSelf =>
      dsimp only
      rw [Flow.subtrees_eq, List.map_singleton, Flow.belowAll_singleton]
  | following =>
      dsimp only
      rw [following_eq]
  | preceding =>
      dsimp only
      rw [preceding_eq]
  | _ => rfl

end Axis
end TreeQuery
