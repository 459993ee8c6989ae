import TreeQuery.Proofs.Chain.Meaning
import TreeQuery.Proofs.Tree.Order
import TreeQuery.Proofs.Tree.Places
import TreeQuery.Tree.Sample

/-!
# All around a node

The axes that go backward, upward, downward and forward from a node share the
tree between them.  Each is walked in its own way, but what they visit is the
document order of the tree, cut at the node.
-/

namespace TreeQuery

/-!
# Visitors that go on
-/

namespace Flow

variable {A : Type} {m : Type → Type} [Monad m]

def goingOn (act : A → m PUnit) (a : A) : m Flow := do
  act a
  return .onward

variable [LawfulMonad m]

theorem each_goingOn (act : A → m PUnit) (as : List A) :
    each (goingOn act) as = do forM as act; return false := by
  induction as with
  | nil => simp only [each, List.forM_nil, pure_bind]
  | cons a rest ih =>
      simp only [each, goingOn, bind_assoc, pure_bind, List.forM_cons]
      exact congrArg _ (funext fun _ => ih)

mutual

theorem below_goingOn (act : A → m PUnit) : ∀ t : Rose A,
    below (goingOn act) t = do forM t.preorder act; return false
  | .node a branches => by
      simp only [below, goingOn, bind_assoc, pure_bind, Rose.preorder, List.forM_cons]
      exact congrArg _ (funext fun _ => belowAll_goingOn act branches)

theorem belowAll_goingOn (act : A → m PUnit) : ∀ ts : List (Rose A),
    belowAll (goingOn act) ts = do forM (Rose.preorderAll ts) act; return false
  | [] => by simp only [belowAll, Rose.preorderAll, List.forM_nil, pure_bind]
  | t :: ts => by
      simp only [belowAll, Rose.preorderAll, List.forM_append, bind_assoc, pure_bind,
        below_goingOn act t, belowAll_goingOn act ts, Bool.false_eq_true, if_false]

end

theorem run_forM_append (as seen : List A) :
    ((forM as fun a => modify (· ++ [a]) : StateM (List A) PUnit).run seen).2 = seen ++ as := by
  induction as generalizing seen with
  | nil => exact (List.append_nil seen).symm
  | cons a rest ih =>
      rw [List.forM_cons]
      show ((forM rest _ : StateM (List A) PUnit).run (seen ++ [a])).2 = _
      rw [ih, List.append_assoc, List.singleton_append]

end Flow

namespace Rose

variable {A : Type}

mutual

theorem pruned_true : ∀ t : Rose A, pruned (fun _ => true) t = t.preorder
  | .node a branches => by
      rw [pruned, preorder, if_pos rfl, prunedAll_true branches]

theorem prunedAll_true : ∀ ts : List (Rose A), prunedAll (fun _ => true) ts = preorderAll ts
  | [] => rfl
  | t :: ts => by rw [prunedAll, preorderAll, pruned_true t, prunedAll_true ts]

end

theorem preorderAll_append (ts more : List (Rose A)) :
    preorderAll (ts ++ more) = preorderAll ts ++ preorderAll more := by
  induction ts with
  | nil => rfl
  | cons t ts ih => rw [List.cons_append, preorderAll, preorderAll, ih, List.append_assoc]

theorem preorderAll_flatMap {B : Type} (f : B → List (Rose A)) (bs : List B) :
    preorderAll (bs.flatMap f) = bs.flatMap fun b => preorderAll (f b) := by
  induction bs with
  | nil => rfl
  | cons b rest ih => rw [List.flatMap_cons, List.flatMap_cons, preorderAll_append, ih]

end Rose

namespace Axis

open Navigable

variable {N : Type} [DecidableEq N] [Navigable N]

section

variable {m : Type → Type} [Monad m] [LawfulMonad m]

theorem traverse_goingOn (axis : Axis) (n : N) (act : N → m PUnit) :
    axis.traverse n (Flow.goingOn act) = forM (axis.candidates (fun _ => true) n) act := by
  rw [traverse_eq_walk]
  unfold walk candidates
  cases axis <;>
    simp only [Flow.each_goingOn, Flow.below_goingOn, Flow.belowAll_goingOn, List.filter_true,
      Rose.pruned_true, Rose.prunedAll_true, bind_assoc, pure_bind, bind_pure_unit]

end

def visited (axis : Axis) (n : N) : List N :=
  ((axis.traverse n (Flow.goingOn fun m => modify (· ++ [m])) : StateM (List N) Unit).run []).2

theorem visited_eq (axis : Axis) (n : N) :
    axis.visited n = axis.candidates (fun _ => true) n := by
  rw [visited, traverse_goingOn, Flow.run_forM_append, List.nil_append]

theorem visited_ancestor (n : N) : visited .ancestor n = ancestors n := by
  rw [visited_eq, candidates, List.filter_true]

theorem visited_descendantOrSelf (n : N) :
    visited .descendantOrSelf n = descendantsOrSelf n := by
  rw [visited_eq, candidates, Rose.pruned_true, descendantsOrSelf]

theorem visited_following (n : N) : visited .following n = trailing n := by
  rw [visited_eq, candidates, Rose.prunedAll_true, followingTrees, Rose.preorderAll_flatMap]
  simp only [Rose.preorderAll_map]
  rfl

theorem visited_preceding (n : N) : visited .preceding n = precedingNodes n := by
  rw [visited_eq, candidates, List.filter_true]

/-!
# Upward
-/

theorem isChain_line (n : N) :
    List.IsChain (fun a b => Navigable.parent a = some b) (n :: ancestors n) := by
  induction n using induction_parent with
  | h n ih =>
      cases hp : Navigable.parent n with
      | none =>
          rw [ancestors_of_no_parent hp]
          exact .singleton n
      | some p =>
          rw [ancestors_of_parent hp]
          exact .cons_cons hp (ih p hp)

/-!
# Backward
-/

theorem precedingNodes_of_parent {n p : N} (h : Navigable.parent n = some p) :
    precedingNodes n =
      ((precedingSiblings n).flatMap fun sibling => (descendantsOrSelf sibling).reverse) ++
        precedingNodes p := by
  rw [precedingNodes, precedingNodes, ancestors_of_parent h, List.flatMap_cons]

variable [Lawful N]

theorem precedingNodes_of_no_parent {n : N} (h : Navigable.parent n = none) :
    precedingNodes n = [] := by
  rw [precedingNodes, ancestors_of_no_parent h, List.flatMap_singleton,
    (Lawful.siblings_of_no_parent h).1]
  rfl

theorem notMem_ancestors_of_sibling {n p s m : N} (hn : Navigable.parent n = some p)
    (hs : s ∈ children p) (hm : m ∈ descendantsOrSelf s) : m ∉ ancestors n := by
  rw [ancestors_of_parent hn]
  intro habove
  have hdown := depth_le_of_mem_line (mem_descendantsOrSelf_iff_mem_line.mp hm)
  have hup := depth_le_of_mem_line habove
  have hlt := depth_lt (Lawful.mem_children_iff.mp hs)
  omega

/-- What leads up to a node are its ancestors, the highest first, and what precedes it. -/
theorem filter_leading (n : N) :
    (leading n).filter (fun m => decide (m ∈ ancestors n)) = (ancestors n).reverse ∧
      (leading n).filter (fun m => decide (m ∉ ancestors n)) = (precedingNodes n).reverse := by
  induction n using induction_parent with
  | h n ih =>
      cases hp : Navigable.parent n with
      | none =>
          rw [leading_of_no_parent hp, precedingNodes_of_no_parent hp, ancestors_of_no_parent hp]
          exact ⟨rfl, rfl⟩
      | some p =>
          have hearlier : ∀ m ∈ leading p, (m ∈ ancestors n ↔ m ∈ ancestors p) := by
            intro m hm
            rw [ancestors_of_parent hp, List.mem_cons, or_iff_right]
            rintro rfl
            exact self_notMem_leading m hm
          have hbetween : ∀ m ∈ (precedingSiblings n).reverse.flatMap descendantsOrSelf,
              m ∉ ancestors n := by
            intro m hm
            rcases List.mem_flatMap.mp hm with ⟨s, hs, hms⟩
            apply notMem_ancestors_of_sibling hp _ hms
            rw [Lawful.children_eq hp]
            exact List.mem_append_left _ hs
          have hself : p ∈ ancestors n := by
            rw [ancestors_of_parent hp]
            exact List.mem_cons_self
          rcases ih p hp with ⟨habove, hbefore⟩
          rw [leading_of_parent hp]
          simp only [List.filter_append]
          constructor
          · rw [List.filter_congr fun m hm => decide_eq_decide.mpr (hearlier m hm), habove,
              List.filter_cons_of_pos (by simpa using hself),
              List.filter_eq_nil_iff.mpr fun m hm => by simpa using hbetween m hm,
              ancestors_of_parent hp, List.reverse_cons]
          · rw [List.filter_congr fun m hm => decide_eq_decide.mpr (not_congr (hearlier m hm)),
              hbefore, List.filter_cons_of_neg (by simpa using hself),
              List.filter_eq_self.mpr fun m hm => decide_eq_true (hbetween m hm),
              precedingNodes_of_parent hp, List.reverse_append, List.reverse_flatMap]
            simp only [Function.comp_def, List.reverse_reverse]

/-!
# Four parts
-/

theorem mem_trailing_iff_mem_precedingNodes {x y : N} : x ∈ trailing y ↔ y ∈ precedingNodes x := by
  simp only [trailing, precedingNodes, List.mem_flatMap, List.mem_reverse,
    ← mem_descendantsOrSelf_iff_mem_line]
  constructor
  · intro h
    rcases h with ⟨level, hy, sibling, hsibling, hx⟩
    exact ⟨sibling, hx, level, mem_followingSiblings_iff.mp hsibling, hy⟩
  · intro h
    rcases h with ⟨level, hx, sibling, hsibling, hy⟩
    exact ⟨sibling, hy, level, mem_followingSiblings_iff.mpr hsibling, hx⟩

theorem precedingNodes_append_ancestors_perm (n : N) :
    (precedingNodes n ++ ancestors n).Perm (leading n) := by
  have hsplit := List.filter_append_perm (fun m => decide (m ∉ ancestors n)) (leading n)
  simp only [decide_not, Bool.not_not] at hsplit
  simp only [← decide_not] at hsplit
  rw [(filter_leading n).1, (filter_leading n).2] at hsplit
  exact ((List.reverse_perm _).symm.append (List.reverse_perm _).symm).trans hsplit

def around (n : N) : List N :=
  visited .preceding n ++ visited .ancestor n ++ visited .descendantOrSelf n ++
    visited .following n

theorem around_perm (n : N) : (around n).Perm (document n) := by
  rw [around, visited_preceding, visited_ancestor, visited_descendantOrSelf, visited_following,
    document_eq]
  exact ((precedingNodes_append_ancestors_perm n).append_right _).append_right _

/-- The four axes around a node, told by document order and parents alone. -/
structure Surroundings (n : N) : Prop where
  following : visited .following n = (after n).filter fun m => decide (n ∉ ancestors m)
  preceding : visited .preceding n =
    ((before n).filter fun m => decide (m ∉ ancestors n)).reverse
  /-- Each ancestor is the parent of the one before it. -/
  upward : List.IsChain (fun a b => Navigable.parent a = some b) (n :: visited .ancestor n)
  top : Navigable.parent ((visited .ancestor n).getLastD n) = none
  descendantOrSelf : visited .descendantOrSelf n =
    (document n).filter fun m => decide (m = n ∨ n ∈ ancestors m)
  nodup : (around n).Nodup
  /-- Together they visit the whole tree. -/
  all : ∀ m, m ∈ around n ↔ Navigable.root m = Navigable.root n

/-- Whatever a visitor does, as long as it goes on, it does to the nodes that an axis visits.
After a node are those that follow it and its descendants, before it those that precede it and its
ancestors, and a node follows another one if and only if that one precedes it. -/
theorem visited_surroundings :
    (∀ {m : Type → Type} [Monad m] [LawfulMonad m] (axis : Axis) (n : N) (act : N → m PUnit),
      axis.traverse n (Flow.goingOn act) = forM (axis.visited n) act) ∧
      (∀ n : N, Surroundings n) ∧
        ∀ x y : N, x ∈ visited .following y ↔ y ∈ visited .preceding x := by
  refine ⟨?_, ?_, ?_⟩
  · intro m _ _ axis n act
    rw [visited_eq]
    exact traverse_goingOn axis n act
  · intro n
    exact {
      following := by rw [visited_following, filter_after]
      preceding := by rw [visited_preceding, before_eq, (filter_leading n).2, List.reverse_reverse]
      upward := by
        rw [visited_ancestor]
        exact isChain_line n
      top := by
        rw [visited_ancestor]
        exact parent_root n
      descendantOrSelf := by
        rw [visited_descendantOrSelf, ← filter_document]
        simp only [List.mem_cons, eq_comm]
      nodup := (around_perm n).nodup_iff.mpr (nodup_document n)
      all := fun m => (around_perm n).mem_iff.trans mem_document_iff }
  · intro x y
    rw [visited_following, visited_preceding]
    exact mem_trailing_iff_mem_precedingNodes

/-- The twig among the leaves of the second branch. -/
theorem visited_surroundings_twig :
    ∃ twig, (Sample.forest.run 0).1.find? "d" = some twig ∧ Surroundings twig ∧
      (around twig).map Node.idOrDash =
        ["c", "b", "a", "1", "2", "-", "d", "e", "f", "3", "g"] := by
  have hids : ((Sample.forest.run 0).1.find? "d").map (fun twig =>
      (around twig).map Node.idOrDash) =
        some ["c", "b", "a", "1", "2", "-", "d", "e", "f", "3", "g"] := by
    decide +kernel
  rcases Option.map_eq_some_iff.mp hids with ⟨twig, htwig, hids⟩
  exact ⟨twig, htwig, visited_surroundings.2.1 twig, hids⟩

end Axis
end TreeQuery
