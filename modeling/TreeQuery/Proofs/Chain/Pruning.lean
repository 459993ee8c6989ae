import TreeQuery.Proofs.Chain.Surrounding

/-!
# Visitors that prune, stop and fail

A visitor has a state of its own, so what it answers may depend on everything it
has seen.  The candidates it is asked about are those that an axis lists, up to
the first answer that ends the walk, and on the axes that walk whole subtrees
without everything below a candidate that was pruned.
-/

namespace TreeQuery
namespace Flow

variable {A S E : Type}

/-!
# Calls
-/

def isLast : Except E Flow → Bool
  | .ok .stop | .error _ => true
  | _ => false

def noting (visit : A → ExceptT E (StateM S) Flow) (a : A) :
    ExceptT E (StateM (S × List (A × Except E Flow))) Flow :=
  ExceptT.mk fun (s, calls) =>
    let (answer, left) := (visit a).run.run s
    (answer, left, calls ++ [(a, answer)])

def asking (visit : A → ExceptT E (StateM S) Flow) :
    List A → S → List (A × Except E Flow) × S
  | [], s => ([], s)
  | a :: rest, s =>
      let (answer, left) := (visit a).run.run s
      if isLast answer then
        ([(a, answer)], left)
      else
        let (calls, left) := asking visit rest left
        ((a, answer) :: calls, left)

def spared (above : A → A → Bool) (calls : List (A × Except E Flow)) (m : A) : Bool :=
  calls.all fun
    | (a, .ok .prune) => !above a m
    | _ => true

def failure? (calls : List (A × Except E Flow)) : Option E :=
  calls.findSome? fun
    | (_, .error e) => some e
    | _ => none

def outcome (calls : List (A × Except E Flow)) : Except E Bool :=
  match failure? calls with
  | some e => .error e
  | none => .ok (calls.any fun call => isLast call.2)

def result (calls : List (A × Except E Flow)) : Except E Unit :=
  match failure? calls with
  | some e => .error e
  | none => .ok ()

section

variable {visit : A → ExceptT E (StateM S) Flow} {above : A → A → Bool} {a : A} {as more : List A}
  {s left : S} {calls calls' : List (A × Except E Flow)} {answer : Except E Flow}

theorem eq_of_last (h : isLast answer = true) : answer = .ok .stop ∨ ∃ e, answer = .error e := by
  cases answer with
  | error e => exact Or.inr ⟨e, rfl⟩
  | ok flow =>
      cases flow with
      | stop => exact Or.inl rfl
      | onward | prune => cases h

theorem eq_of_not_last (h : isLast answer = false) :
    answer = .ok .onward ∨ answer = .ok .prune := by
  cases answer with
  | error e => cases h
  | ok flow =>
      cases flow with
      | stop => cases h
      | onward => exact Or.inl rfl
      | prune => exact Or.inr rfl

theorem asking_last (hvisit : (visit a).run.run s = (answer, left)) (hlast : isLast answer = true) :
    asking visit (a :: as) s = ([(a, answer)], left) := by
  simp only [asking, hvisit, hlast, if_true]

theorem asking_cons (hvisit : (visit a).run.run s = (answer, left))
    (hlast : isLast answer = false) :
    asking visit (a :: as) s =
      ((a, answer) :: (asking visit as left).1, (asking visit as left).2) := by
  simp only [asking, hvisit, hlast, Bool.false_eq_true, if_false]

theorem mem_of_asking (h : asking visit as s = (calls, left)) : ∀ call ∈ calls, call.1 ∈ as := by
  induction as generalizing s calls with
  | nil =>
      cases h
      exact List.forall_mem_nil _
  | cons a rest ih =>
      rcases hvisit : (visit a).run.run s with ⟨answer, next⟩
      cases hlast : isLast answer with
      | true =>
          rw [asking_last hvisit hlast] at h
          cases h
          exact List.forall_mem_singleton.mpr List.mem_cons_self
      | false =>
          rw [asking_cons hvisit hlast] at h
          cases h
          intro call hcall
          rcases List.mem_cons.mp hcall with rfl | hrest
          · exact List.mem_cons_self
          · exact List.mem_cons_of_mem a (ih rfl call hrest)

theorem asking_append_of_last (h : asking visit as s = (calls, left))
    (hlast : (calls.any fun call => isLast call.2) = true) :
    asking visit (as ++ more) s = (calls, left) := by
  -- Once a row of candidates has ended the walk, whatever stands behind it does not matter.
  induction as generalizing s calls with
  | nil =>
      cases h
      cases hlast
  | cons a rest ih =>
      rw [List.cons_append]
      rcases hvisit : (visit a).run.run s with ⟨answer, next⟩
      cases hanswer : isLast answer with
      | true =>
          rw [asking_last hvisit hanswer] at h ⊢
          exact h
      | false =>
          rw [asking_cons hvisit hanswer] at h ⊢
          cases h
          rw [List.any_cons, hanswer, Bool.false_or] at hlast
          rw [ih rfl hlast]

theorem asking_append (h : asking visit as s = (calls, left))
    (hlast : (calls.any fun call => isLast call.2) = false) :
    asking visit (as ++ more) s =
      (calls ++ (asking visit more left).1, (asking visit more left).2) := by
  induction as generalizing s calls with
  | nil =>
      cases h
      rfl
  | cons a rest ih =>
      rw [List.cons_append]
      rcases hvisit : (visit a).run.run s with ⟨answer, next⟩
      cases hanswer : isLast answer with
      | true =>
          rw [asking_last hvisit hanswer] at h
          cases h
          rw [List.any_cons, hanswer] at hlast
          cases hlast
      | false =>
          rw [asking_cons hvisit hanswer] at h ⊢
          cases h
          rw [List.any_cons, hanswer, Bool.false_or] at hlast
          rw [ih rfl hlast]
          rfl

theorem spared_append (above : A → A → Bool) (calls calls' : List (A × Except E Flow)) (m : A) :
    spared above (calls ++ calls') m = (spared above calls m && spared above calls' m) :=
  List.all_append

theorem spared_of_strangers {m : A} (h : ∀ call ∈ calls, above call.1 m = false) :
    spared above calls m = true := by
  apply List.all_eq_true.mpr
  intro call hcall
  have hstranger := h call hcall
  split
  · rw [hstranger]
    rfl
  · rfl

theorem failure?_of_not_last (h : (calls.any fun call => isLast call.2) = false) :
    failure? calls = none := by
  apply List.findSome?_eq_none_iff.mpr
  intro call hcall
  have hanswer := List.any_eq_false.mp h call hcall
  rcases call with ⟨a, _ | e⟩
  · exact absurd rfl hanswer
  · rfl

theorem outcome_of_not_last (h : (calls.any fun call => isLast call.2) = false) :
    outcome calls = .ok false := by
  unfold outcome
  rw [failure?_of_not_last h, h]

theorem outcome_of_last (h : (calls.any fun call => isLast call.2) = true) :
    outcome calls = .ok true ∨ ∃ e, outcome calls = .error e := by
  unfold outcome
  cases failure? calls with
  | none => exact Or.inl (congrArg Except.ok h)
  | some e => exact Or.inr ⟨e, rfl⟩

theorem outcome_append (h : (calls.any fun call => isLast call.2) = false) :
    outcome (calls ++ calls') = outcome calls' := by
  unfold outcome failure?
  rw [List.findSome?_append, ← failure?, failure?_of_not_last h, List.any_append, h]
  rfl

theorem outcome_cons (h : isLast answer = false) :
    outcome ((a, answer) :: calls) = outcome calls := by
  have hfirst : ([(a, answer)].any fun call => isLast call.2) = false := by
    rw [List.any_cons, h]
    rfl
  exact outcome_append hfirst

end

/-!
# Sweeps
-/

/-- A walk asks its visitor about a row of candidates, without those below a pruned one.  It is the
same whether the visitor notes its calls or not. -/
def Sweeps (visit : A → ExceptT E (StateM S) Flow) (above : A → A → Bool)
    (plain : ExceptT E (StateM S) Bool)
    (noted : ExceptT E (StateM (S × List (A × Except E Flow))) Bool) (as : List A) : Prop :=
  ∀ s, ∃ calls left, asking visit (as.filter (spared above calls)) s = (calls, left) ∧
    plain.run.run s = (outcome calls, left) ∧
      ∀ before, noted.run.run (s, before) = (outcome calls, left, before ++ calls)

theorem run_bind {T B C : Type} (m : ExceptT E (StateM T) B) (k : B → ExceptT E (StateM T) C)
    (s : T) :
    (m >>= k).run.run s =
      match m.run.run s with
      | (.ok b, left) => (k b).run.run left
      | (.error e, left) => (.error e, left) := by
  show (ExceptT.bindCont k (m.run.run s).1).run (m.run.run s).2 = _
  rcases m.run.run s with ⟨_ | _, _⟩
  · rfl
  · rfl

section

variable {visit : A → ExceptT E (StateM S) Flow} {above : A → A → Bool} {as more : List A}

theorem run_noting {a : A} {s left : S} {answer : Except E Flow}
    (h : (visit a).run.run s = (answer, left)) (before : List (A × Except E Flow)) :
    (noting visit a).run.run (s, before) = (answer, left, before ++ [(a, answer)]) := by
  show (let (answer, left) := (visit a).run.run s
    (answer, left, before ++ [(a, answer)])) = _
  rw [h]

theorem sweeps_nil : Sweeps visit above (pure false) (pure false) [] := by
  intro s
  refine ⟨[], s, rfl, rfl, ?_⟩
  intro before
  rw [List.append_nil]
  rfl

theorem Sweeps.append {plain plain' : ExceptT E (StateM S) Bool}
    {noted noted' : ExceptT E (StateM (S × List (A × Except E Flow))) Bool}
    (h : Sweeps visit above plain noted as) (h' : Sweeps visit above plain' noted' more)
    (hstrangers : ∀ a ∈ as, ∀ b ∈ more, above a b = false ∧ above b a = false) :
    Sweeps visit above (do if ← plain then pure true else plain')
      (do if ← noted then pure true else noted') (as ++ more) := by
  intro s
  rcases h s with ⟨calls, left, hcalls, hplain, hnoted⟩
  simp only [run_bind, hplain, hnoted]
  cases hlast : calls.any fun call => isLast call.2 with
  | true =>
      refine ⟨calls, left, ?_, ?_⟩
      · rw [List.filter_append]
        exact asking_append_of_last hcalls hlast
      · rcases outcome_of_last hlast with hstopped | ⟨e, hfailed⟩
        · rw [hstopped]
          exact ⟨rfl, fun before => rfl⟩
        · rw [hfailed]
          exact ⟨rfl, fun before => rfl⟩
  | false =>
      rcases h' left with ⟨calls', left', hcalls', hplain', hnoted'⟩
      have hcalled : ∀ call ∈ calls, call.1 ∈ as := fun call hcall =>
        (List.mem_filter.mp (mem_of_asking hcalls call hcall)).1
      have hcalled' : ∀ call ∈ calls', call.1 ∈ more := fun call hcall =>
        (List.mem_filter.mp (mem_of_asking hcalls' call hcall)).1
      have hleft : as.filter (spared above (calls ++ calls')) = as.filter (spared above calls) := by
        apply List.filter_congr
        intro a ha
        have hspared : spared above calls' a = true := spared_of_strangers fun call hcall =>
          (hstrangers a ha call.1 (hcalled' call hcall)).2
        rw [spared_append, hspared, Bool.and_true]
      have hright : more.filter (spared above (calls ++ calls')) =
          more.filter (spared above calls') := by
        apply List.filter_congr
        intro b hb
        have hspared : spared above calls b = true := spared_of_strangers fun call hcall =>
          (hstrangers call.1 (hcalled call hcall) b hb).1
        rw [spared_append, hspared, Bool.true_and]
      refine ⟨calls ++ calls', left', ?_, ?_⟩
      · rw [List.filter_append, hleft, hright, asking_append hcalls hlast, hcalls']
      · rw [outcome_append hlast, outcome_of_not_last hlast]
        refine ⟨hplain', ?_⟩
        intro before
        rw [← List.append_assoc]
        exact hnoted' (before ++ calls)

/-- Where nobody stands above anybody, the whole row is asked about. -/
theorem sweeps_each (visit : A → ExceptT E (StateM S) Flow) (as : List A) :
    Sweeps visit (fun _ _ => false) (each visit as) (each (noting visit) as) as := by
  have hall : ∀ (calls : List (A × Except E Flow)) (as : List A),
      as.filter (spared (fun _ _ => false) calls) = as := fun calls as =>
    List.filter_eq_self.mpr fun _ _ => spared_of_strangers fun _ _ => rfl
  induction as with
  | nil => exact sweeps_nil
  | cons a rest ih =>
      unfold Sweeps at ih ⊢
      simp only [hall] at ih ⊢
      intro s
      rcases hvisit : (visit a).run.run s with ⟨answer, next⟩
      simp only [each, run_bind, run_noting hvisit, hvisit]
      cases hlast : isLast answer with
      | true =>
          refine ⟨[(a, answer)], next, asking_last hvisit hlast, ?_⟩
          rcases eq_of_last hlast with rfl | ⟨e, rfl⟩
          · exact ⟨rfl, fun before => rfl⟩
          · exact ⟨rfl, fun before => rfl⟩
      | false =>
          rcases ih next with ⟨calls, left, hcalls, hplain, hnoted⟩
          refine ⟨(a, answer) :: calls, left, ?_, ?_⟩
          · rw [asking_cons hvisit hlast, hcalls]
          · rw [outcome_cons hlast]
            have hnoted' : ∀ before, (each (noting visit) rest).run.run
                (next, before ++ [(a, answer)]) =
                  (outcome calls, left, before ++ (a, answer) :: calls) := by
              intro before
              rw [List.append_cons before _ calls]
              exact hnoted _
            rcases eq_of_not_last hlast with rfl | rfl
            · exact ⟨hplain, hnoted'⟩
            · exact ⟨hplain, hnoted'⟩

end

end Flow

/-!
# Subtrees
-/

namespace Rose

variable {A : Type}

mutual

def Layered (above : A → A → Bool) : Rose A → Prop
  | .node a ts =>
      above a a = false ∧ (∀ m ∈ preorderAll ts, above a m = true ∧ above m a = false) ∧
        LayeredAll above ts

def LayeredAll (above : A → A → Bool) : List (Rose A) → Prop
  | [] => True
  | t :: ts =>
      Layered above t ∧ (∀ a ∈ t.preorder, ∀ b ∈ preorderAll ts,
        above a b = false ∧ above b a = false) ∧ LayeredAll above ts

end

end Rose

namespace Flow

variable {A S E : Type} {visit : A → ExceptT E (StateM S) Flow} {above : A → A → Bool}

mutual

theorem sweeps_below : ∀ (t : Rose A), t.Layered above →
    Sweeps visit above (below visit t) (below (noting visit) t) t.preorder
  | .node a branches, h => by
      rw [Rose.Layered] at h
      rcases h with ⟨hself, hlower, hbranches⟩
      have hbelow := sweeps_belowAll branches hbranches
      intro s
      rcases hvisit : (visit a).run.run s with ⟨answer, next⟩
      simp only [below, run_bind, run_noting hvisit, hvisit, Rose.preorder]
      have hfirst : ∀ {calls : List (A × Except E Flow)},
          (∀ call ∈ calls, above call.1 a = false) →
            (a :: Rose.preorderAll branches).filter (spared above calls) =
              a :: (Rose.preorderAll branches).filter (spared above calls) := fun h =>
        List.filter_cons_of_pos (spared_of_strangers h)
      have hcalled : ∀ call ∈ [(a, answer)], above call.1 a = false :=
        List.forall_mem_singleton.mpr hself
      cases hlast : isLast answer with
      | true =>
          refine ⟨[(a, answer)], next, ?_, ?_⟩
          · rw [hfirst hcalled, asking_last hvisit hlast]
          · rcases eq_of_last hlast with rfl | ⟨e, rfl⟩
            · exact ⟨rfl, fun before => rfl⟩
            · exact ⟨rfl, fun before => rfl⟩
      | false =>
          rcases eq_of_not_last hlast with rfl | rfl
          · rcases hbelow next with ⟨calls, left, hcalls, hplain, hnoted⟩
            have hlower' : ∀ call ∈ calls, above call.1 a = false := fun call hcall =>
              (hlower call.1 (List.mem_filter.mp (mem_of_asking hcalls call hcall)).1).2
            have hsame : spared above ((a, .ok .onward) :: calls) = spared above calls := rfl
            refine ⟨(a, .ok .onward) :: calls, left, ?_, ?_⟩
            · rw [hfirst (List.forall_mem_cons.mpr ⟨hself, hlower'⟩), hsame,
                asking_cons hvisit hlast, hcalls]
            · rw [outcome_cons hlast]
              refine ⟨hplain, fun before => ?_⟩
              rw [List.append_cons before _ calls]
              exact hnoted _
          · -- Nobody below a pruned candidate is asked.
            have hnone : (Rose.preorderAll branches).filter
                (spared above [((a, .ok .prune) : A × Except E Flow)]) = [] := by
              apply List.filter_eq_nil_iff.mpr
              intro m hm
              simp [spared, (hlower m hm).1]
            refine ⟨[(a, .ok .prune)], next, ?_, rfl, fun before => rfl⟩
            rw [hfirst hcalled, hnone, asking_cons hvisit hlast]
            rfl

theorem sweeps_belowAll : ∀ (ts : List (Rose A)), Rose.LayeredAll above ts →
    Sweeps visit above (belowAll visit ts) (belowAll (noting visit) ts) (Rose.preorderAll ts)
  | [], _ => sweeps_nil
  | t :: ts, h => by
      rw [Rose.LayeredAll] at h
      rcases h with ⟨ht, hstrangers, hts⟩
      simp only [belowAll, Rose.preorderAll]
      exact (sweeps_below t ht).append (sweeps_belowAll ts hts) hstrangers

end

end Flow

/-!
# Handles
-/

namespace Navigable

variable {N : Type} [DecidableEq N] [Navigable N] [Lawful N] {a m n : N}

theorem notMem_ancestors_of_notMem (ha : a ∈ descendantsOrSelf n) (hm : m ∉ descendantsOrSelf n) :
    a ∉ ancestors m := by
  -- Whoever stands above a node outside a subtree stands outside of it as well.
  intro habove
  apply hm
  rw [mem_descendantsOrSelf_iff_mem_line] at ha ⊢
  exact (line_suffix_of_mem (List.mem_cons_of_mem m habove)).subset ha

theorem layeredAll_subtrees {ns : List N} (hnodup : (ns.flatMap descendantsOrSelf).Nodup)
    (h : ∀ n ∈ ns, (subtree n).Layered fun a m => decide (a ∈ ancestors m)) :
    Rose.LayeredAll (fun a m => decide (a ∈ ancestors m)) (ns.map subtree) := by
  induction ns with
  | nil => trivial
  | cons n rest ih =>
      rcases List.forall_mem_cons.mp h with ⟨hn, hrest⟩
      rw [List.flatMap_cons] at hnodup
      rcases List.nodup_append.mp hnodup with ⟨_, hlater, hdisjoint⟩
      rw [List.map_cons, Rose.LayeredAll, Rose.preorderAll_map]
      refine ⟨hn, ?_, ih hlater hrest⟩
      intro a ha b hb
      rcases List.mem_flatMap.mp hb with ⟨d, hd, hbd⟩
      have hba : b ∉ descendantsOrSelf n := fun hbn => hdisjoint b hbn b hb rfl
      have had : a ∉ descendantsOrSelf d := fun hmem =>
        hdisjoint a ha a (List.mem_flatMap.mpr ⟨d, hd, hmem⟩) rfl
      exact ⟨decide_eq_false (notMem_ancestors_of_notMem ha hba),
        decide_eq_false (notMem_ancestors_of_notMem hbd had)⟩

theorem layered_subtree (n : N) : (subtree n).Layered fun a m => decide (a ∈ ancestors m) := by
  induction n using induction_children with
  | h n ih =>
      have hbelow := nodup_descendantsOrSelf n
      rw [descendantsOrSelf_eq, List.nodup_cons] at hbelow
      rw [subtree_eq, Rose.Layered, Rose.preorderAll_map]
      refine ⟨?_, ?_, layeredAll_subtrees hbelow.2 ih⟩
      · exact decide_eq_false fun h => Nat.lt_irrefl _ (depth_lt_of_mem_ancestors h)
      · intro m hm
        rcases List.mem_flatMap.mp hm with ⟨c, hc, hmc⟩
        have habove : n ∈ ancestors m := mem_ancestors_of_parent
          (mem_descendantsOrSelf_iff_mem_line.mp hmc) (Lawful.mem_children_iff.mp hc)
        have hlt := depth_lt_of_mem_ancestors habove
        refine ⟨decide_eq_true habove, decide_eq_false fun h => ?_⟩
        exact Nat.lt_asymm hlt (depth_lt_of_mem_ancestors h)

end Navigable

/-!
# Axes
-/

namespace Axis

open Navigable

def prunes : Axis → Bool
  | .descendant | .descendantOrSelf | .following => true
  | _ => false

variable {N S E : Type} [DecidableEq N] [Navigable N]

def leavesOut (axis : Axis) (a m : N) : Bool :=
  axis.prunes && decide (a ∈ ancestors m)

variable [Lawful N]

/-- Every axis sweeps the candidates that it lists. -/
theorem exists_sweeps (axis : Axis) (n : N) (visit : N → ExceptT E (StateM S) Flow) :
    ∃ plain noted, Flow.Sweeps visit axis.leavesOut plain noted (axis.visited n) ∧
      axis.traverse n visit = (do let _ ← plain; return ()) ∧
        axis.traverse n (Flow.noting visit) = (do let _ ← noted; return ()) := by
  rw [visited_eq, traverse_eq_walk, traverse_eq_walk]
  cases axis with
  | descendant =>
      refine ⟨_, _, ?_, rfl, rfl⟩
      rw [candidates, Rose.prunedAll_true]
      have hnodup := nodup_descendantsOrSelf n
      rw [descendantsOrSelf_eq, List.nodup_cons] at hnodup
      exact Flow.sweeps_belowAll _ (layeredAll_subtrees hnodup.2 fun c _ => layered_subtree c)
  | descendantOrSelf =>
      refine ⟨_, _, ?_, rfl, rfl⟩
      rw [candidates, Rose.pruned_true]
      exact Flow.sweeps_below _ (layered_subtree n)
  | following =>
      refine ⟨_, _, ?_, rfl, rfl⟩
      have htrees : followingTrees n =
          ((n :: ancestors n).flatMap followingSiblings).map subtree := by
        rw [followingTrees, List.map_flatMap]
      have hnodup := (List.nodup_append.mp (nodup_parts n)).2.1
      rw [trailing, ← List.flatMap_assoc] at hnodup
      rw [candidates, Rose.prunedAll_true, htrees]
      exact Flow.sweeps_belowAll _ (layeredAll_subtrees hnodup fun c _ => layered_subtree c)
  | _ =>
      refine ⟨_, _, ?_, rfl, rfl⟩
      rw [candidates, List.filter_true]
      exact Flow.sweeps_each visit _

/-- A visitor is asked about the candidates that an axis lists, in their order and up to the first
answer that ends the walk.  On the axes that walk subtrees those below a pruned candidate are left
out; on the others pruning leaves out nobody.  The traversal fails with the error that was answered,
if there was one, and noting the calls makes no difference to it. -/
theorem traverse_asks (axis : Axis) (n : N) (visit : N → ExceptT E (StateM S) Flow) (s : S) :
    ∃ calls left,
      (axis.traverse n (Flow.noting visit)).run.run (s, []) = (Flow.result calls, left, calls) ∧
        (axis.traverse n visit).run.run s = (Flow.result calls, left) ∧
          Flow.asking visit ((axis.visited n).filter (Flow.spared axis.leavesOut calls)) s =
            (calls, left) := by
  rcases axis.exists_sweeps n visit with ⟨plain, noted, hsweeps, hplain, hnoted⟩
  rcases hsweeps s with ⟨calls, left, hcalls, hrun, hrunNoted⟩
  refine ⟨calls, left, ?_, ?_, hcalls⟩
  · rw [hnoted, Flow.run_bind, hrunNoted, Flow.outcome, Flow.result]
    cases Flow.failure? calls with
    | none => rfl
    | some e => rfl
  · rw [hplain, Flow.run_bind, hrun, Flow.outcome, Flow.result]
    cases Flow.failure? calls with
    | none => rfl
    | some e => rfl

/-- What follows the first leaf, with the twig pruned and the sixth call failing. -/
theorem traverse_asks_leaf :
    let visit : Node → ExceptT String (StateM Nat) Flow := fun m => ExceptT.mk fun seen =>
      (if m.idOrDash = "d" then .ok .prune else if seen = 5 then .error "sixth" else .ok .onward,
        seen + 1)
    ∃ leaf calls left, (Sample.forest.run 0).1.find? "a" = some leaf ∧
      (traverse .following leaf (Flow.noting visit)).run.run (0, []) =
        (Flow.result calls, left, calls) ∧
      (traverse .following leaf visit).run.run 0 = (Flow.result calls, left) ∧
      Flow.asking visit
        ((visited .following leaf).filter (Flow.spared (leavesOut .following) calls)) 0 =
          (calls, left) ∧
      calls.map (·.1.idOrDash) = ["b", "2", "c", "d", "f", "3"] ∧
        Flow.failure? calls = some "sixth" := by
  intro visit
  have hseen : ((Sample.forest.run 0).1.find? "a").map (fun leaf =>
      let calls := ((traverse .following leaf (Flow.noting visit)).run.run (0, [])).2.2
      (calls.map (·.1.idOrDash), Flow.failure? calls)) =
        some (["b", "2", "c", "d", "f", "3"], some "sixth") := by
    decide +kernel
  rcases Option.map_eq_some_iff.mp hseen with ⟨leaf, hleaf, hcalled⟩
  rcases traverse_asks .following leaf visit 0 with ⟨calls, left, hnoted, hplain, hcalls⟩
  dsimp only at hcalled
  rw [hnoted] at hcalled
  rcases Prod.mk.inj hcalled with ⟨hids, hfailed⟩
  exact ⟨leaf, calls, left, hleaf, hnoted, hplain, hcalls, hids, hfailed⟩

end Axis
end TreeQuery
